import TreeLang.Priority.Basic

/-!
# Printing a priority

A priority is printed with the fewest significant digits that no other double reads back from, and
among those with the digits nearest to it.  Two layouts use these digits: the one of messages and
headers never writes an exponent, the one of JSON does so for very large and very small values.

* `Priority.Digits` — digits and the power of ten they are scaled by.
* `Priority.shortest` — the choice of digits.
* `Priority.text` — the positional layout.
* `Priority.numeral` — the JSON layout.
-/

namespace TreeLang.Priority

/-! ## The choice of digits

A decimal reads back as a rank when it lies between the middles to the two neighbouring ranks; the
middles themselves belong to the even rank.  For each count of digits, starting from one, only the
two multiples of the last decimal place around the value have to be tried: if any multiple lies
between the middles, so does one of these two.
-/

/-- The value `digits * 10 ^ exponent`. -/
structure Digits where
  digits : Nat
  exponent : Int
deriving Repr, DecidableEq

/-- Whether `candidate * place` reads back as the rank, where `place` is a decimal place and `scale`
the number of parts a unit is cut into to make both whole. -/
def readsBack (rank scale place candidate : Nat) : Bool :=
  let low := scale * (units (rank - 1) + units rank)
  let high := scale * (units rank + units (rank + 1))
  let twice := 2 * candidate * place
  if rank % 2 = 0 then low ≤ twice && twice ≤ high else low < twice && twice < high

/-- The exponent of the leading decimal digit of a positive rank. -/
def leadingExponent (rank : Nat) : Int :=
  let value := units rank
  if unitsPerOne ≤ value then
    ((Nat.toDigits 10 (value / unitsPerOne)).length : Int) - 1
  else
    -((Nat.toDigits 10 ((unitsPerOne + value - 1) / value - 1)).length : Int)

/-- The multiple of `10 ^ exponent` that reads back as the rank and is nearest to it, if there is
one.  An exact tie goes up when `tieUp` holds, to the even multiple otherwise. -/
def onGrid? (tieUp : Bool) (rank : Nat) (exponent : Int) : Option Nat :=
  let scale := if exponent < 0 then Nat.pow 10 exponent.natAbs else 1
  let place := unitsPerOne * if exponent < 0 then 1 else Nat.pow 10 exponent.natAbs
  let value := scale * units rank
  let below := value / place
  let above := below + 1
  match readsBack rank scale place below, readsBack rank scale place above with
  | false, false => none
  | true, false => some below
  | false, true => some above
  | true, true =>
    let fromBelow := value - below * place
    let toAbove := above * place - value
    if fromBelow < toAbove then some below
    else if toAbove < fromBelow then some above
    else if tieUp ∨ below % 2 = 1 then some above else some below

/-- Digits without trailing zeros. -/
def Digits.normalize (d : Digits) : Digits :=
  let zeros := ((Nat.toDigits 10 d.digits).reverse.takeWhile (· = '0')).length
  ⟨d.digits / Nat.pow 10 zeros, d.exponent + zeros⟩

/-- **The shortest digits of a positive rank.**  Seventeen digits always suffice. -/
def shortest (tieUp : Bool) (rank : Nat) : Digits :=
  let lead := leadingExponent rank
  let found := (List.range 17).findSome? fun (more : Nat) =>
    (onGrid? tieUp rank (lead - more)).map fun digits => Digits.mk digits (lead - more)
  (found.getD ⟨0, 0⟩).normalize

/-! ## The layouts -/

/-- A text of zeros. -/
def zeros (count : Nat) : String :=
  String.ofList (List.replicate count '0')

/-- Digits with the point put after `place` of them, padded with zeros on either side; `whole` is
what follows when no digit stands after the point. -/
def positional (digits : List Char) (place : Int) (whole : String) : String :=
  if place ≤ 0 then "0." ++ zeros place.natAbs ++ String.ofList digits
  else if digits.length ≤ place.natAbs then
    String.ofList digits ++ zeros (place.natAbs - digits.length) ++ whole
  else
    String.ofList (digits.take place.natAbs) ++ "." ++ String.ofList (digits.drop place.natAbs)

/-- **The text of messages and headers**: positional, without an exponent and without a point when
the value is whole. -/
def text : Priority → String
  | .notANumber => "NaN"
  | .infinite negative => if negative then "-inf" else "inf"
  | .finite 0 => "0"
  | .finite rank =>
    let chosen := shortest true rank.natAbs
    let digits := Nat.toDigits 10 chosen.digits
    let body := positional digits (chosen.exponent + digits.length) ""
    if rank < 0 then "-" ++ body else body

/-- **The number of JSON output**: positional while the point stands within five places before and
sixteen places after the leading digit, with `.0` after a whole value, and scientific with a signed
exponent otherwise.  What is not finite has no number and is written as `null`. -/
def numeral : Priority → String
  | .notANumber => "null"
  | .infinite _ => "null"
  | .finite 0 => "0.0"
  | .finite rank =>
    let chosen := shortest false rank.natAbs
    let digits := Nat.toDigits 10 chosen.digits
    let place := chosen.exponent + digits.length
    let body :=
      if -5 < place ∧ place ≤ 16 then positional digits place ".0"
      else
        let head := String.ofList (digits.take 1)
        let tail := digits.drop 1
        let exponent := (if place < 1 then "" else "+") ++ toString (place - 1)
        (if tail = [] then head else head ++ "." ++ String.ofList tail) ++ "e" ++ exponent
    if rank < 0 then "-" ++ body else body

end TreeLang.Priority
