import Mathlib.Data.List.Nodup
import TreeLang.Proofs.Relocating
import TreeLang.Proofs.Substituting

/-!
# The names that a tree says

The nodes of a tree are offered to the macros under their names, and macros answer to some names
only.  The names that a phrase says are words of its text, names of operators, or nothing at all; and
its tree says no others, with each key once.

* `Node.Tells` — a node whose name is of some sort, and whose keys are distinct.
* **`Phrase.tree_tells`** — the nodes of the tree of a phrase.
* **`Phrase.names_of_plain`** — the names that a phrase without quotes says.
-/

namespace TreeLang

open TreeLang.Parser (invokedName)

variable {options : CompileOptions} {heard word : String → Prop}

/-- **A node says a name of some sort**, and each of its keys once. -/
def Node.Tells (heard : String → Prop) (node : Node) : Prop :=
  node.DistinctKeys ∧ heard (invokedName node)

namespace Node

lemma tells_strip (node : Node) : node.strip.Tells heard ↔ node.Tells heard := by
  rw [Tells, Tells, distinctKeys_strip, invokedName_strip]

lemma tells_text {value : String} {origin : Origin} (said : heard value) :
    (primitive value origin).All (Tells heard) :=
  ⟨nofun, said⟩

lemma tells_object {name : String} {properties : List (String × Node)} {origin : Origin}
    (said : heard name) (distinct : (properties.map Prod.fst).Nodup)
    (inner : ∀ entry ∈ properties, entry.2.All (Tells heard)) :
    (object name properties origin).All (Tells heard) := by
  refine ⟨⟨fun entries same => ?_, said⟩, allProperties_iff.mpr inner⟩
  cases same
  exact distinct

lemma tells_list {name : String} {values : List Node} {operation : Bool} {origin : Origin}
    (said : heard name) (inner : ∀ value ∈ values, value.All (Tells heard)) :
    (list name values operation origin).All (Tells heard) :=
  ⟨⟨nofun, said⟩, allValues_iff.mpr inner⟩

/-- The root of a tree says a name as well. -/
lemma All.root {good : Node → Prop} {node : Node} (all : node.All good) : good node := by
  cases node with
  | primitive => exact all
  | object | list => exact all.1

lemma tells_rename {node : Node} {name : String} (tells : node.All (Tells heard)) (said : heard name) :
    (node.rename name).All (Tells heard) := by
  cases node with
  | primitive => exact tells
  | object _ properties origin =>
    exact tells_object said (tells.1.1 _ rfl) (allProperties_iff.mp tells.2)
  | list _ values operation origin => exact tells_list said (allValues_iff.mp tells.2)

end Node

lemma tells_groupTree {name : String} {operation : Bool} {values : List Node} (said : heard name)
    (inner : ∀ value ∈ values, value.All (Node.Tells heard)) :
    (groupTree options name operation values).All (Node.Tells heard) := by
  unfold groupTree
  split
  · exact inner _ List.mem_cons_self
  · exact Node.tells_list said inner

lemma tells_accessedTree {op : OperatorDefinition} {receiver member : Node} (unnamed : heard "")
    (said : heard (op.nodeName ++ invokedName member)) (left : receiver.All (Node.Tells heard))
    (right : member.All (Node.Tells heard)) :
    (accessedTree op receiver member).All (Node.Tells heard) := by
  refine Node.tells_list said fun value inside => ?_
  split at inside
  · rwa [List.mem_singleton.mp inside]
  · rcases List.mem_cons.mp inside with rfl | inside
    · exact left
    · rw [List.mem_singleton.mp inside]
      exact Node.tells_rename right unnamed

namespace Phrase

mutual

/-- **The tree of a phrase says what the phrase says**, and each key once. -/
theorem tree_tells (unnamed : heard "") : (phrase : Phrase) →
    (∀ name ∈ phrase.names options, heard name) → (phrase.tree options).All (Node.Tells heard)
  | .word token _, said => Node.tells_text (said _ List.mem_cons_self)
  | .object head entries _, said => by
    obtain ⟨here, inner⟩ := List.forall_mem_cons.mp said
    obtain ⟨distinct, all⟩ := treeEntries_tells unnamed entries inner [] .nil nofun
    exact Node.tells_object here distinct all
  | .list head operation elements _, said => by
    obtain ⟨here, inner⟩ := List.forall_mem_cons.mp said
    exact tells_groupTree here (treeElements_tells unnamed elements inner)
  | .prefixed op _ operand, said => by
    obtain ⟨here, inner⟩ := List.forall_mem_cons.mp said
    exact Node.tells_list here (List.forall_mem_singleton.mpr (tree_tells unnamed operand inner))
  | .postfixed op operand _, said => by
    obtain ⟨here, inner⟩ := List.forall_mem_cons.mp said
    exact Node.tells_list here (List.forall_mem_singleton.mpr (tree_tells unnamed operand inner))
  | .binary op left right, said => by
    obtain ⟨here, inner⟩ := List.forall_mem_cons.mp said
    obtain ⟨first, second⟩ := List.forall_mem_append.mp inner
    have leftTells := tree_tells unnamed left first
    have rightTells := tree_tells unnamed right second
    rw [tree, binaryTree]
    split at here <;> rename_i accessor
    · rw [if_pos accessor]
      exact tells_accessedTree unnamed here leftTells rightTells
    · rw [if_neg accessor]
      exact Node.tells_list here
        (List.forall_mem_cons.mpr ⟨leftTells, List.forall_mem_singleton.mpr rightTells⟩)

theorem treeEntries_tells (unnamed : heard "") : (entries : List (Token × Phrase)) →
    (∀ name ∈ namesEntries options entries, heard name) → (known : List (String × Node)) →
    (known.map Prod.fst).Nodup → (∀ entry ∈ known, entry.2.All (Node.Tells heard)) →
      ((treeEntries options entries known).map Prod.fst).Nodup ∧
        ∀ entry ∈ treeEntries options entries known, entry.2.All (Node.Tells heard)
  | [], _, known, distinct, all => ⟨distinct, all⟩
  | (key, phrase) :: rest, said, known, distinct, all => by
    obtain ⟨here, others⟩ := List.forall_mem_append.mp said
    refine treeEntries_tells unnamed rest others _ (Parser.nodup_insertNew distinct _ _)
      fun entry member => ?_
    rw [Node.insertNew] at member
    split at member
    · exact all entry member
    · rcases List.mem_append.mp member with member | member
      · exact all entry member
      · rw [List.mem_singleton.mp member]
        exact tree_tells unnamed phrase here

theorem treeElements_tells (unnamed : heard "") : (elements : List Phrase) →
    (∀ name ∈ namesElements options elements, heard name) →
      ∀ value ∈ treeElements options elements, value.All (Node.Tells heard)
  | [], _ => nofun
  | phrase :: rest, said => by
    obtain ⟨here, others⟩ := List.forall_mem_append.mp said
    exact List.forall_mem_cons.mpr
      ⟨tree_tells unnamed phrase here, treeElements_tells unnamed rest others⟩

end

variable {operator : OperatorDefinition → Prop}

/-- The name of an operator is heard; an accessor has none of its own. -/
def Heeds (heard : String → Prop) (op : OperatorDefinition) : Prop :=
  if op.accessor then op.nodeName = "" else heard op.nodeName

lemma heeds_root (unnamed : heard "") {op : OperatorDefinition} (heeds : Heeds heard op) :
    heard op.nodeName := by
  rw [Heeds] at heeds
  split at heeds
  · rwa [heeds]
  · exact heeds

lemma heard_head (unnamed : heard "") (words : ∀ text, word text → heard text) {head : Head}
    (plain : ∀ name ∈ head.name, name.kind = .literal ∧ word name.content) : heard head.text := by
  rw [Head.text]
  cases known : head.name with
  | none => exact unnamed
  | some name => exact words _ (plain name known).2

mutual

/-- **The names that a phrase without quotes tells** are words, names of operators, or empty. -/
theorem names_of_plain (unnamed : heard "") (words : ∀ text, word text → heard text)
    (operators : ∀ op, operator op → Heeds heard op) : (phrase : Phrase) →
      phrase.Plain word operator → ∀ name ∈ phrase.names options, heard name
  | .word token _, plain => List.forall_mem_singleton.mpr (words _ plain.2)
  | .object head entries _, plain => List.forall_mem_cons.mpr
    ⟨heard_head unnamed words plain.1, namesEntries_of_plain unnamed words operators entries plain.2⟩
  | .list head operation elements _, plain => List.forall_mem_cons.mpr
    ⟨heard_head unnamed words plain.1,
      namesElements_of_plain unnamed words operators elements plain.2⟩
  | .prefixed op _ operand, plain => List.forall_mem_cons.mpr
    ⟨heeds_root unnamed (operators op plain.1),
      names_of_plain unnamed words operators operand plain.2⟩
  | .postfixed op operand _, plain => List.forall_mem_cons.mpr
    ⟨heeds_root unnamed (operators op plain.1),
      names_of_plain unnamed words operators operand plain.2⟩
  | .binary op left right, plain => by
    have second := names_of_plain unnamed words operators right plain.2.2
    refine List.forall_mem_cons.mpr ⟨?_, List.forall_mem_append.mpr
      ⟨names_of_plain unnamed words operators left plain.2.1, second⟩⟩
    have heeds := operators op plain.1
    split
    · rename_i accessor
      -- An accessor has no name of its own, and so its calls have that of the member.
      rw [Heeds, if_pos accessor] at heeds
      rw [heeds, String.empty_append]
      exact (tree_tells unnamed right second).root.2
    · exact heeds_root unnamed heeds

theorem namesEntries_of_plain (unnamed : heard "") (words : ∀ text, word text → heard text)
    (operators : ∀ op, operator op → Heeds heard op) : (entries : List (Token × Phrase)) →
      PlainEntries word operator entries → ∀ name ∈ namesEntries options entries, heard name
  | [], _ => nofun
  | (_, phrase) :: rest, plain => List.forall_mem_append.mpr
    ⟨names_of_plain unnamed words operators phrase plain.1,
      namesEntries_of_plain unnamed words operators rest plain.2⟩

theorem namesElements_of_plain (unnamed : heard "") (words : ∀ text, word text → heard text)
    (operators : ∀ op, operator op → Heeds heard op) : (elements : List Phrase) →
      PlainElements word operator elements → ∀ name ∈ namesElements options elements, heard name
  | [], _ => nofun
  | phrase :: rest, plain => List.forall_mem_append.mpr
    ⟨names_of_plain unnamed words operators phrase plain.1,
      namesElements_of_plain unnamed words operators rest plain.2⟩

end

end Phrase

end TreeLang
