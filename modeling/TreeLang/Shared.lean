/-!
# Shared values

Definitions are handed from one set to another, and it matters whether two sets hold *the same*
definition or two that look alike: importing the same one twice is silent, two alike are a
conflict.  A shared value therefore carries an identity, given out once when the value is made and
kept wherever the value goes.

* `Shared`, `Shared.is` — a value with its identity.
* `Supply` — where identities come from.
-/

namespace TreeLang

/-- A value with an identity. -/
structure Shared (α : Type) where
  identity : Nat
  value : α
deriving Repr

/-- Whether two are the same, and not only alike. -/
def Shared.is {α : Type} (a b : Shared α) : Bool :=
  a.identity = b.identity

/-- The identities that were not given out yet: all from `fresh` on. -/
structure Supply where
  fresh : Nat := 0
deriving Repr, DecidableEq, Inhabited

/-- **Gives a value an identity** that nothing else has or will have. -/
def Supply.share {α : Type} (supply : Supply) (value : α) : Shared α × Supply :=
  (⟨supply.fresh, value⟩, ⟨supply.fresh + 1⟩)

end TreeLang
