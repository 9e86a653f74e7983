/-!
# Hexadecimal numbers

An escape names a character by its code point, written in hexadecimal digits of either case.

* `hexDigit?`, `hexNumber?` — the value of a digit, and of several.
* `codePoint?` — the character that a given number of digits name.
-/

namespace TreeLang

/-- The value of a hexadecimal digit. -/
def hexDigit? (c : Char) : Option Nat :=
  if '0' ≤ c ∧ c ≤ '9' then some (c.toNat - '0'.toNat)
  else if 'a' ≤ c ∧ c ≤ 'f' then some (c.toNat - 'a'.toNat + 10)
  else if 'A' ≤ c ∧ c ≤ 'F' then some (c.toNat - 'A'.toNat + 10)
  else none

/-- The number that hexadecimal digits stand for. -/
def hexNumber? (cs : List Char) : Option Nat :=
  cs.foldl (fun value c => do return 16 * (← value) + (← hexDigit? c)) (some 0)

/-- The code point that exactly `digits` hexadecimal digits name. -/
def codePoint? (digits : Nat) (cs : List Char) : Option Char :=
  if (cs.take digits).length < digits then none
  else match hexNumber? (cs.take digits) with
    | some n => if h : n.isValidChar then some (Char.ofNatAux n h) else none
    | none => none

end TreeLang
