/-!
# Places in a text

A reader of a text stands at a *place*: some characters lie behind it and the rest lies ahead.  A
place knows how many characters lie behind, the last of them, and all of the rest, so that reading
on never searches the text from its start.

* `Place.start`, `Place.next`, `Place.skip`.
* `Place.rest_skip`, `Place.offset_skip` — what skipping does, in terms of the rest.
-/

namespace TreeLang

/-- A place in a text. -/
structure Place where
  /-- How many characters lie behind. -/
  offset : Nat
  /-- The last character behind. -/
  previous : Option Char
  /-- The characters ahead. -/
  rest : List Char
deriving Repr, DecidableEq, Inhabited

namespace Place

/-- The place before the first character of a text. -/
def start (text : List Char) : Place := ⟨0, none, text⟩

/-- The place after one more character; the end of a text has no place after it. -/
def next (place : Place) : Place :=
  match place.rest with
  | [] => place
  | c :: rest => ⟨place.offset + 1, some c, rest⟩

/-- The place after a number of further characters. -/
def skip (place : Place) : Nat → Place
  | 0 => place
  | count + 1 => place.next.skip count

@[simp] theorem rest_next (place : Place) : place.next.rest = place.rest.tail := by
  rw [next]; split <;> simp_all

@[simp] theorem rest_skip (place : Place) (count : Nat) :
    (place.skip count).rest = place.rest.drop count := by
  induction count generalizing place with
  | zero => rfl
  | succ count ih => rw [skip, ih, rest_next, List.drop_tail]

/-- The offset and the length of the rest add up to the length of the text, everywhere. -/
theorem offset_add_next (place : Place) :
    place.next.offset + place.next.rest.length = place.offset + place.rest.length := by
  rw [next]
  split
  · simp_all
  · simp_all
    omega

theorem offset_add_skip (place : Place) (count : Nat) :
    (place.skip count).offset + (place.skip count).rest.length
      = place.offset + place.rest.length := by
  induction count generalizing place with
  | zero => rfl
  | succ count ih => rw [skip, ih, offset_add_next]

/-- Skipping moves on by as many characters as there are, up to the count. -/
theorem offset_skip (place : Place) (count : Nat) :
    (place.skip count).offset = place.offset + min count place.rest.length := by
  have total := offset_add_skip place count
  rw [rest_skip, List.length_drop] at total
  omega

end Place

end TreeLang
