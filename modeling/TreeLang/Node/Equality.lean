import TreeLang.Node.Basic

/-!
# Equality of trees

Two trees are equal when they say the same thing.  Origins do not count, and neither does whether
a list was written with brackets or with parentheses.  The properties of an object are compared as
a map: their order does not count, but their number does.

An object asks for each of its keys what the other one holds there, and what is found is then asked
about the value at hand.  So the asking side changes with every object on the way down, which can
be told only where a key is repeated: the first property of a key answers for all of them.

A tree that is held against itself is a case of its own.  A child stands on both sides and is one
with itself, whatever it says; only a property whose key is repeated is held against another.

* `Node.same` — equality of two trees.
* `Node.sameAsItself` — equality of one tree with itself.
* `sizeOf_of_lookup` — what a key finds is smaller than the properties it was looked up in.
-/

namespace TreeLang.Node

/-- What a key finds is smaller than the properties. -/
theorem sizeOf_of_lookup {properties : List (String × Node)} {key : String} {value : Node}
    (found : lookup properties key = some value) : sizeOf value < sizeOf properties := by
  obtain ⟨⟨name, inner⟩, hfind, rfl⟩ := Option.map_eq_some_iff.mp found
  have hsize := List.sizeOf_lt_of_mem (List.mem_of_find?_eq_some hfind)
  simp only [Prod.mk.sizeOf_spec] at hsize ⊢
  omega

/-- **Equality of trees**, asked by the first one. -/
def same : Node → Node → Bool
  | .primitive value _, .primitive other _ => value = other
  | .object name properties _, .object otherName others _ =>
    name = otherName && properties.length = others.length &&
      properties.attach.all fun ⟨(key, value), _⟩ =>
        match _found : lookup others key with
        | some other => other.same value
        | none => false
  | .list name values _ _, .list otherName others _ _ =>
    name = otherName && values.length = others.length &&
      (values.zip others).attach.all fun ⟨(value, other), _⟩ => value.same other
  | _, _ => false
termination_by node other => sizeOf node + sizeOf other
decreasing_by
  · rename_i member
    have hvalue := List.sizeOf_lt_of_mem member
    have hother := sizeOf_of_lookup _found
    simp only [Prod.mk.sizeOf_spec] at hvalue
    simp only [Node.object.sizeOf_spec]
    omega
  · rename_i member
    have hvalue := List.sizeOf_lt_of_mem (List.of_mem_zip member).1
    have hother := List.sizeOf_lt_of_mem (List.of_mem_zip member).2
    simp only [Node.list.sizeOf_spec]
    omega

/-- Whether every property of a key that an earlier one has is equal to that earlier one. -/
def repeatsAgree (earlier : List (String × Node)) : List (String × Node) → Bool
  | [] => true
  | (key, value) :: rest =>
    ((lookup earlier key).all fun first => first.same value) &&
      repeatsAgree (earlier ++ [(key, value)]) rest

/-- **Equality of one tree with itself.**  It fails only for an object that holds unequal values
under one key. -/
def sameAsItself : Node → Bool
  | .object _ properties _ => repeatsAgree [] properties
  | _ => true

end TreeLang.Node
