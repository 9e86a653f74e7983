import TreeLang.Priority.Basic

/-!
# Reading a priority

A written priority is a decimal number: an optional sign, digits with at most one point among or
beside them, and an optional exponent; or one of the words `inf`, `infinity` and `nan` in any
case.  Its value is the double nearest to the decimal, the one of even rank when two are equally
near.

* `Priority.nearest` — the double nearest to a quotient of naturals.
* `Decimal`, `Decimal.ofChars?` — a decimal as written.
* `Priority.ofText?` — the reader.
-/

namespace TreeLang

/-! ## Rounding to the nearest double

The quotient is first measured in whole units, which selects the last rank not above it; the exact
middle between that rank and the next then decides between the two.
-/

namespace Priority

/-- **The rank nearest to a quotient of units**, the even one of two that are equally near. -/
def nearestRank (numerator denominator : Nat) : Nat :=
  let low := rankBelow (numerator / denominator)
  let middle := denominator * (units low + units (low + 1))
  if 2 * numerator < middle then low
  else if middle < 2 * numerator then low + 1
  else if low % 2 = 0 then low else low + 1

/-- The double nearest to a quotient with the given sign; beyond the largest double it is the
infinity of that sign. -/
def nearest (negative : Bool) (numerator denominator : Nat) : Priority :=
  let rank := nearestRank (numerator * unitsPerOne) denominator
  if rankLimit ≤ rank then .infinite negative
  else .finite (if negative then -(rank : Int) else rank)

end Priority

/-! ## Decimals as written -/

/-- A decimal number as written, of value `digits * 10 ^ exponent`. -/
structure Decimal where
  /-- The digits before and after the point, read as one number. -/
  digits : Nat
  exponent : Int
deriving Repr, DecidableEq

namespace Decimal

/-- The number that a list of decimal digits stands for. -/
def numeral (cs : List Char) : Nat :=
  cs.foldl (fun value c => 10 * value + (c.toNat - '0'.toNat)) 0

/-- The sign at the front of a text, `true` for a minus, and the text after it. -/
def splitSign : List Char → Bool × List Char
  | '-' :: rest => (true, rest)
  | '+' :: rest => (false, rest)
  | cs => (false, cs)

/-- An exponent: nothing at all, or an `e` in either case, an optional sign and at least one
digit. -/
def exponent? : List Char → Option Int
  | [] => some 0
  | c :: rest =>
    if c = 'e' ∨ c = 'E' then
      let (negative, digits) := splitSign rest
      if digits = [] ∨ !digits.all Char.isDigit then none
      else some (if negative then -(numeral digits : Int) else numeral digits)
    else none

/-- **A decimal without its sign.**  At least one digit has to stand before or after the point. -/
def ofChars? (cs : List Char) : Option Decimal :=
  let whole := cs.takeWhile Char.isDigit
  let (fraction, rest) := match cs.dropWhile Char.isDigit with
    | '.' :: rest => (rest.takeWhile Char.isDigit, rest.dropWhile Char.isDigit)
    | rest => ([], rest)
  if whole = [] ∧ fraction = [] then none
  else (exponent? rest).map fun exponent =>
    ⟨numeral (whole ++ fraction), exponent - fraction.length⟩

/-- **The double nearest to a decimal** with the given sign.  A decimal whose leading digit stands
beyond the four-hundredth place on either side of the point is too large or too small for any
double other than zero, so its power of ten is never computed. -/
def toPriority (negative : Bool) (d : Decimal) : Priority :=
  let lead := d.exponent + (Nat.toDigits 10 d.digits).length
  if d.digits = 0 ∨ lead < -400 then .finite 0
  else if 400 < lead then .infinite negative
  else if d.exponent < 0 then Priority.nearest negative d.digits (Nat.pow 10 d.exponent.natAbs)
  else Priority.nearest negative (d.digits * Nat.pow 10 d.exponent.natAbs) 1

end Decimal

/-! ## The reader -/

namespace Priority

/-- **The priority a text stands for**, if it is written as one. -/
def ofText? (text : String) : Option Priority :=
  let (negative, body) := Decimal.splitSign text.toList
  match Decimal.ofChars? body with
  | some decimal => some (decimal.toPriority negative)
  | none =>
    let word := String.ofList (body.map Char.toLower)
    if word = "nan" then some .notANumber
    else if word = "inf" ∨ word = "infinity" then some (.infinite negative)
    else none

end Priority

end TreeLang
