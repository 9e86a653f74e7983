/-!
# Priorities

The priority of an operator is a number that only has to be compared: a lower one binds looser.
Priorities are double-precision floating-point numbers, and what the rest of the library needs of
them is their exact order, their exact reading and their shortest decimal text.  None of that
needs floating-point arithmetic.  The finite doubles form a discrete chain, so a finite priority is
stored as its *rank* in that chain, counted from zero; the two zeros share rank zero.

* `Priority` — a rank, one of the two infinities, or not a number.
* `Priority.units` — the value of a rank, exactly, in units of the smallest positive double.
* `Priority.agrees`, `Priority.precedes` — equality and order of the values, under which a value
  that is not a number agrees with nothing.
-/

namespace TreeLang

/-- A double-precision number, without the sign of zero. -/
inductive Priority where
  /-- The finite value `rank` steps above zero in the chain of finite doubles, below it when the
  rank is negative. -/
  | finite (rank : Int)
  | infinite (negative : Bool)
  | notANumber
deriving Repr, DecidableEq, Inhabited

namespace Priority

/-- How many neighbouring ranks have one spacing: `2 ^ 52`, one for each value of a fraction. -/
def ranksPerSpacing : Nat := Nat.pow 2 52

/-- Ranks below this one are finite: there are `2047 * 2 ^ 52` doubles from zero up to the
largest. -/
def rankLimit : Nat := 2047 * ranksPerSpacing

/-- The smallest positive double is one part in this many. -/
def unitsPerOne : Nat := Nat.pow 2 1074

/-- **The exact value of a rank**, counted in smallest positive doubles.  Up to rank `2 ^ 53` the
doubles are evenly spaced by one unit; from there on the spacing doubles every `2 ^ 52` ranks. -/
def units (rank : Nat) : Nat :=
  let spacing := rank / ranksPerSpacing - 1
  (rank - spacing * ranksPerSpacing) * Nat.pow 2 spacing

/-- The largest rank whose value is at most the given number of units. -/
def rankBelow (n : Nat) : Nat :=
  let spacing := n.log2 - 52
  spacing * ranksPerSpacing + n / Nat.pow 2 spacing

/-- Whether a priority can be registered. -/
def isFinite : Priority → Bool
  | .finite _ => true
  | _ => false

/-- **Equality of values.**  It differs from equality of representations only in that a value that
is not a number does not agree with itself. -/
def agrees (a b : Priority) : Bool :=
  a ≠ .notANumber && a = b

/-- **Order of values**, strict: infinities are the extremes, and what is not a number is below
nothing and above nothing. -/
def precedes : Priority → Priority → Bool
  | .finite a, .finite b => a < b
  | .finite _, .infinite negative => !negative
  | .infinite negative, .finite _ => negative
  | .infinite a, .infinite b => a && !b
  | _, _ => false

/-- The priority of a whole number below `2 ^ 53`, all of which are doubles. -/
def ofNat (n : Nat) : Priority :=
  .finite (rankBelow (n * unitsPerOne))

/-- Agreement with a finite priority is equality. -/
theorem agrees_finite_iff {a : Priority} {rank : Int} :
    a.agrees (.finite rank) = true ↔ a = .finite rank := by
  simp only [agrees, Bool.and_eq_true, decide_eq_true_eq]
  exact ⟨And.right, fun h => ⟨by simp [h], h⟩⟩

end Priority

end TreeLang
