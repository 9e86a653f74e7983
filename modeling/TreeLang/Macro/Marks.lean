/-!
# Marks on nodes

While a template is read, some of its nodes are marked: this one is a reference to a parameter,
that one has to be expanded later.  A mark is attached to the number of a node, at most one to each
number, and is looked up, replaced and taken away by that number.
-/

namespace TreeLang

/-- Marks by the numbers of nodes, each number once. -/
structure Marks (α : Type) where
  entries : List (Nat × α)

namespace Marks

variable {α : Type}

/-- No marks. -/
def empty : Marks α := ⟨[]⟩

/-- The mark on a number. -/
def find? (marks : Marks α) (id : Nat) : Option α :=
  (marks.entries.find? fun entry => entry.1 = id).map Prod.snd

/-- Whether a number is marked. -/
def contains (marks : Marks α) (id : Nat) : Bool :=
  (marks.find? id).isSome

/-- The marks without the one on a number. -/
def erase (marks : Marks α) (id : Nat) : Marks α :=
  ⟨marks.entries.filter fun entry => entry.1 ≠ id⟩

/-- The marks with one more; an earlier mark on the number gives way. -/
def insert (marks : Marks α) (id : Nat) (mark : α) : Marks α :=
  ⟨(id, mark) :: (marks.erase id).entries⟩

/-- How many numbers are marked. -/
def size (marks : Marks α) : Nat :=
  marks.entries.length

@[simp] theorem find?_empty (id : Nat) : (empty : Marks α).find? id = none := rfl

@[simp] theorem find?_insert_self (marks : Marks α) (id : Nat) (mark : α) :
    (marks.insert id mark).find? id = some mark := by
  simp [find?, insert]

@[simp] theorem find?_erase_self (marks : Marks α) (id : Nat) :
    (marks.erase id).find? id = none := by
  simp [find?, erase]

/-- Taking a mark away leaves the others. -/
theorem find?_erase_of_ne (marks : Marks α) {id other : Nat} (h : other ≠ id) :
    (marks.erase id).find? other = marks.find? other := by
  simp only [find?, erase]
  induction marks.entries with
  | nil => rfl
  | cons entry rest ih =>
    by_cases hid : entry.1 = id
    · rw [List.filter_cons_of_neg (by simp [hid]), ih,
        List.find?_cons_of_neg (by simp [hid, Ne.symm h])]
    · rw [List.filter_cons_of_pos (by simp [hid])]
      by_cases hother : entry.1 = other
      · rw [List.find?_cons_of_pos (by simp [hother]), List.find?_cons_of_pos (by simp [hother])]
      · rw [List.find?_cons_of_neg (by simp [hother]), List.find?_cons_of_neg (by simp [hother]),
          ih]

/-- Adding a mark leaves the others. -/
theorem find?_insert_of_ne (marks : Marks α) {id other : Nat} (mark : α) (h : other ≠ id) :
    (marks.insert id mark).find? other = marks.find? other := by
  rw [← find?_erase_of_ne marks h]
  simp [find?, insert, Ne.symm h]

end Marks

end TreeLang
