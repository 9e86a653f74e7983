import Mathlib.Data.List.Forall2
import Mathlib.Data.List.Perm.Subperm
import TreeLang.Proofs.Keeping

/-!
# Equal trees

Two objects are compared from one side: as many properties here as there, and for each key here an equal
value there.  Where keys are distinct this says the same from both sides, since as many distinct keys of
the one object as the other one has are all of its keys.  So the question may change sides on the way
down, and comes to what one would ask: whether the two trees say the same.

* `Node.Rearranged` — trees that differ in origins, in the sort of brackets, and in the order of
  properties, anywhere.
* `Node.matched_comm` — matching the properties of objects is the same from both sides.
* `Node.same_object_iff`, `Node.same_list_iff` — one step of the comparison.
* **`Node.same_iff_rearranged`** — equal trees are rearranged ones, whichever is asked.
* `Node.same_object_iff_keys` — equal objects, by their keys.
* **`Node.equivalence_same`** — equality of trees with distinct keys.
-/

namespace TreeLang

namespace Node

/-! ## Trees that say the same -/

mutual

/-- **Trees that say the same.**  Origins may differ, and whether a list was written with brackets or with
parentheses; the properties of an object may come in another order; and so anywhere below. -/
inductive Rearranged : Node → Node → Prop where
  | primitive {value : String} {o o' : Origin} : Rearranged (.primitive value o) (.primitive value o')
  | object {name : String} {ps qs rs : List (String × Node)} {o o' : Origin}
    (values : List.Forall₂ RearrangedProperty ps qs) (order : qs.Perm rs) :
    Rearranged (.object name ps o) (.object name rs o')
  | list {name : String} {vs ws : List Node} {operation operation' : Bool} {o o' : Origin}
    (values : List.Forall₂ Rearranged vs ws) :
    Rearranged (.list name vs operation o) (.list name ws operation' o')

/-- Properties of one key whose values say the same. -/
inductive RearrangedProperty : String × Node → String × Node → Prop where
  | mk {key : String} {value value' : Node} (same : Rearranged value value') :
    RearrangedProperty (key, value) (key, value')

end

/-- In lists that are related one by one each entry has one that it is related to. -/
lemma exists_related {α : Type} {R : α → α → Prop} {xs ys : List α} (related : List.Forall₂ R xs ys) :
    ∀ x ∈ xs, ∃ y ∈ ys, R x y := by
  induction related with
  | nil => exact nofun
  | cons first _ ih =>
    refine List.forall_mem_cons.mpr ⟨⟨_, List.mem_cons_self, first⟩, fun x member => ?_⟩
    obtain ⟨y, inside, related⟩ := ih x member
    exact ⟨y, List.mem_cons_of_mem _ inside, related⟩

variable {a b c : Node} {name other : String} {ps qs rs : List (String × Node)} {vs ws : List Node}
  {operation operation' : Bool} {o o' : Origin}

lemma keys_of_rearranged (values : List.Forall₂ RearrangedProperty ps qs) :
    ps.map Prod.fst = qs.map Prod.fst := by
  induction values with
  | nil => rfl
  | cons first _ rest =>
    cases first with
    | mk => rw [List.map_cons, List.map_cons, rest]

/-- Rearranging leaves keys distinct. -/
theorem Rearranged.keyed (rearranged : a.Rearranged b) (keyed : a.Keyed) : b.Keyed := by
  induction a using induct_parts generalizing b with
  | primitive value origin =>
    cases rearranged
    exact keyed_primitive _ _
  | object name properties origin ih =>
    obtain ⟨distinct, inside⟩ := keyed_object.mp keyed
    cases rearranged with
    | object values order =>
      rw [keys_of_rearranged values] at distinct
      refine keyed_object.mpr ⟨(order.map Prod.fst).nodup_iff.mp distinct, fun property member => ?_⟩
      obtain ⟨old, known, same⟩ := exists_related (.flip values) property (order.mem_iff.mpr member)
      cases same with
      | mk same => exact ih _ known same (inside _ known)
  | list name values operation origin ih =>
    cases rearranged with
    | list related =>
      refine keyed_list.mpr fun value member => ?_
      obtain ⟨old, known, same⟩ := exists_related (.flip related) value member
      exact ih old known same (keyed_list.mp keyed old known)

/-! ## Properties by their keys -/

lemma mem_of_lookup_eq {key : String} {value : Node} (found : lookup ps key = some value) :
    (key, value) ∈ ps := by
  obtain ⟨⟨known, _⟩, first, rfl⟩ := Option.map_eq_some_iff.mp found
  obtain rfl : known = key := by simpa using List.find?_some first
  exact List.mem_of_find?_eq_some first

lemma mem_keys_of_lookup {key : String} {value : Node} (found : lookup ps key = some value) :
    key ∈ ps.map Prod.fst :=
  List.mem_map.mpr ⟨_, mem_of_lookup_eq found, rfl⟩

/-- Each property has one of its key on the other side, to whose value its own is related. -/
def Matched (R : Node → Node → Prop) (ps qs : List (String × Node)) : Prop :=
  ∀ key value, (key, value) ∈ ps → ∃ other, lookup qs key = some other ∧ R value other

variable {R S : Node → Node → Prop}

lemma Matched.imp (matched : Matched R ps qs)
    (weaker : ∀ p ∈ ps, ∀ q ∈ qs, R p.2 q.2 → S p.2 q.2) : Matched S ps qs := fun key value member => by
  obtain ⟨other, found, related⟩ := matched key value member
  exact ⟨other, found, weaker _ member _ (mem_of_lookup_eq found) related⟩

lemma Matched.congr (related : ∀ p ∈ ps, ∀ q ∈ qs, (R p.2 q.2 ↔ S p.2 q.2)) :
    Matched R ps qs ↔ Matched S ps qs :=
  ⟨fun matched => matched.imp fun p hp q hq => (related p hp q hq).mp,
    fun matched => matched.imp fun p hp q hq => (related p hp q hq).mpr⟩

/-- **Distinct keys, as many as on the other side and all of them there, are all that are there.** -/
lemma Matched.keys (matched : Matched R ps qs) (distinct : (ps.map Prod.fst).Nodup)
    (length : ps.length = qs.length) : (ps.map Prod.fst).Perm (qs.map Prod.fst) := by
  have subset : ps.map Prod.fst ⊆ qs.map Prod.fst := fun key member => by
    obtain ⟨⟨_, value⟩, known, rfl⟩ := List.mem_map.mp member
    obtain ⟨other, found, -⟩ := matched _ value known
    exact mem_keys_of_lookup found
  refine (List.subperm_of_subset distinct subset).perm_of_length_le ?_
  rw [List.length_map, List.length_map, length]

lemma Matched.symm (matched : Matched R ps qs) (distinct : (ps.map Prod.fst).Nodup)
    (distinct' : (qs.map Prod.fst).Nodup) (length : ps.length = qs.length) :
    Matched (fun w v => R v w) qs ps := by
  intro key other member
  have listed : key ∈ ps.map Prod.fst :=
    (matched.keys distinct length).mem_iff.mpr (List.mem_map.mpr ⟨_, member, rfl⟩)
  obtain ⟨⟨_, value⟩, known, rfl⟩ := List.mem_map.mp listed
  obtain ⟨found, there, related⟩ := matched _ value known
  obtain rfl : found = other := Option.some.inj (there.symm.trans (lookup_of_mem distinct' member))
  exact ⟨value, lookup_of_mem distinct known, related⟩

/-- **Matching is the same from both sides**, if the keys on both are distinct and as many. -/
theorem matched_comm (distinct : (ps.map Prod.fst).Nodup) (distinct' : (qs.map Prod.fst).Nodup)
    (length : ps.length = qs.length) : Matched R ps qs ↔ Matched (fun w v => R v w) qs ps :=
  ⟨fun matched => matched.symm distinct distinct' length,
    fun matched => matched.symm distinct' distinct length.symm⟩

/-- Properties that match are those of the other side, in another order. -/
theorem matched_iff_rearranged (distinct : (ps.map Prod.fst).Nodup)
    (distinct' : (qs.map Prod.fst).Nodup) :
    ps.length = qs.length ∧ Matched Rearranged ps qs
      ↔ ∃ rs, List.Forall₂ RearrangedProperty ps rs ∧ rs.Perm qs := by
  constructor
  · rintro ⟨length, matched⟩
    -- The properties of the other side, in the order of the keys on this one.
    set found : String × Node → String × Node := fun p => (p.1, (lookup qs p.1).getD p.2) with hfound
    have each : ∀ p ∈ ps, RearrangedProperty p (found p) ∧ found p ∈ qs := by
      rintro ⟨key, value⟩ member
      obtain ⟨other, there, same⟩ := matched key value member
      simp only [hfound, there, Option.getD_some]
      exact ⟨.mk same, mem_of_lookup_eq there⟩
    have keys : (ps.map found).map Prod.fst = ps.map Prod.fst := by
      rw [List.map_map]
      rfl
    have nodup : (ps.map found).Nodup := List.Nodup.of_map Prod.fst (keys ▸ distinct)
    refine ⟨ps.map found, List.forall₂_map_right_iff.mpr
      (List.forall₂_same.mpr fun p member => (each p member).1), ?_⟩
    have subset := List.forall_mem_map.mpr fun p member => (each p member).2
    refine (List.subperm_of_subset nodup subset).perm_of_length_le ?_
    rw [List.length_map, length]
  · rintro ⟨rs, values, order⟩
    refine ⟨values.length_eq.trans order.length_eq, fun key value member => ?_⟩
    obtain ⟨⟨_, other⟩, known, same⟩ := exists_related values _ member
    cases same with
    | mk same => exact ⟨other, lookup_of_mem distinct' (order.mem_iff.mp known), same⟩

/-! ## One step of the comparison -/

/-- Objects are compared by their properties; what is found under a key is asked. -/
theorem same_object_iff :
    (object name ps o).same (object other qs o') = true
      ↔ name = other ∧ ps.length = qs.length ∧ Matched (fun v w => w.same v = true) ps qs := by
  constructor
  · intro equal
    rw [same] at equal
    simp only [Bool.and_eq_true, decide_eq_true_eq, List.all_eq_true, List.mem_attach, forall_const,
      Subtype.forall] at equal
    obtain ⟨⟨names, length⟩, inner⟩ := equal
    refine ⟨names, length, fun key value member => ?_⟩
    have answer := inner (key, value) member
    split at answer
    · rename_i found
      exact ⟨_, found, answer⟩
    · cases answer
  · rintro ⟨rfl, length, matched⟩
    exact same_object length matched

/-- Lists are compared value by value. -/
theorem same_list_iff :
    (list name vs operation o).same (list other ws operation' o') = true
      ↔ name = other ∧ List.Forall₂ (fun v w => v.same w = true) vs ws := by
  rw [List.forall₂_iff_zip]
  constructor
  · intro equal
    rw [same] at equal
    simp only [Bool.and_eq_true, decide_eq_true_eq, List.all_eq_true, List.mem_attach, forall_const,
      Subtype.forall] at equal
    obtain ⟨⟨names, length⟩, inner⟩ := equal
    exact ⟨names, length, fun {v w} member => inner (v, w) member⟩
  · rintro ⟨rfl, length, inner⟩
    exact same_list length fun v w member => inner member

lemma forall₂_congr_of_mem (related : ∀ v ∈ vs, ∀ w ∈ ws, (R v w ↔ S v w)) :
    List.Forall₂ R vs ws ↔ List.Forall₂ S vs ws := by
  rw [List.forall₂_iff_zip, List.forall₂_iff_zip]
  refine and_congr_right fun _ => forall₂_congr fun v w => imp_congr_right fun member => ?_
  exact related v (List.of_mem_zip member).1 w (List.of_mem_zip member).2

/-! ## Equal trees -/

/-- Trees of different shapes are not equal, and do not say the same. -/
lemma same_iff_of_apart (first : a.same b = false) (second : b.same a = false) (apart : ¬ a.Rearranged b) :
    (a.same b = true ↔ a.Rearranged b) ∧ (b.same a = true ↔ a.Rearranged b) := by
  simp [first, second, apart]

/-- **Equal trees are those that say the same**, whichever of them is asked. -/
theorem same_iff_rearranged (keyed : a.Keyed) (keyed' : b.Keyed) :
    (a.same b = true ↔ a.Rearranged b) ∧ (b.same a = true ↔ a.Rearranged b) := by
  induction a using induct_parts generalizing b with
  | primitive value origin =>
    cases b with
    | primitive text origin' =>
      have texts : (primitive value origin).Rearranged (primitive text origin') ↔ value = text :=
        ⟨fun h => by cases h; rfl, by rintro rfl; exact .primitive⟩
      rw [texts, same, same, decide_eq_true_eq, decide_eq_true_eq]
      exact ⟨Iff.rfl, eq_comm⟩
    | object | list => exact same_iff_of_apart (by simp [same]) (by simp [same]) (by rintro ⟨⟩)
  | object name ps origin ih =>
    cases b with
    | primitive | list => exact same_iff_of_apart (by simp [same]) (by simp [same]) (by rintro ⟨⟩)
    | object other qs origin' =>
      obtain ⟨distinct, inside⟩ := keyed_object.mp keyed
      obtain ⟨distinct', inside'⟩ := keyed_object.mp keyed'
      have inner (p) (hp : p ∈ ps) (q) (hq : q ∈ qs) := ih p hp (inside p hp) (inside' q hq)
      have parts : (object name ps origin).Rearranged (object other qs origin')
          ↔ name = other ∧ ps.length = qs.length ∧ Matched Rearranged ps qs := by
        rw [matched_iff_rearranged distinct distinct']
        constructor
        · rintro (_ | ⟨values, order⟩)
          exact ⟨rfl, _, values, order⟩
        · rintro ⟨rfl, rs, values, order⟩
          exact .object values order
      rw [parts, same_object_iff, same_object_iff]
      refine ⟨?_, ?_⟩
      · rw [Matched.congr fun p hp q hq => (inner p hp q hq).2]
      · rw [eq_comm, eq_comm (a := qs.length)]
        refine and_congr_right fun _ => and_congr_right fun length => ?_
        rw [matched_comm distinct distinct' length]
        exact Matched.congr fun q hq p hp => (inner p hp q hq).1
  | list name vs operation origin ih =>
    cases b with
    | primitive | object => exact same_iff_of_apart (by simp [same]) (by simp [same]) (by rintro ⟨⟩)
    | list other ws operation' origin' =>
      have inner (v) (hv : v ∈ vs) (w) (hw : w ∈ ws) :=
        ih v hv (keyed_list.mp keyed v hv) (keyed_list.mp keyed' w hw)
      have parts : (list name vs operation origin).Rearranged (list other ws operation' origin')
          ↔ name = other ∧ List.Forall₂ Rearranged vs ws := by
        constructor
        · rintro (_ | _ | values)
          exact ⟨rfl, values⟩
        · rintro ⟨rfl, values⟩
          exact .list values
      rw [parts, same_list_iff, same_list_iff]
      refine ⟨?_, ?_⟩
      · rw [forall₂_congr_of_mem fun v hv w hw => (inner v hv w hw).1]
      · have turned : List.Forall₂ (fun w v => w.same v = true) ws vs
            ↔ List.Forall₂ (fun v w => w.same v = true) vs ws := ⟨.flip, .flip⟩
        rw [eq_comm, turned, forall₂_congr_of_mem fun v hv w hw => (inner v hv w hw).2]

/-- A tree that is asked about itself says yes. -/
lemma same_self (keyed : a.Keyed) : a.same a = true :=
  (same_of_strip_eq a a rfl keyed).1

lemma same_comm (keyed : a.Keyed) (keyed' : b.Keyed) : a.same b = b.same a :=
  Bool.eq_iff_iff.mpr
    ((same_iff_rearranged keyed keyed').1.trans (same_iff_rearranged keyed keyed').2.symm)

/-- **Equality is transitive.**  Objects hand the question on: what the last one holds under a key is asked
about what the first one holds there, and so the chain is followed from its other end. -/
theorem same_trans (keyed : a.Keyed) (keyed' : b.Keyed) (keyed'' : c.Keyed) (first : a.same b = true)
    (second : b.same c = true) : a.same c = true := by
  induction a using induct_parts generalizing b c with
  | primitive value origin =>
    cases b with
    | primitive =>
      cases c with
      | primitive =>
        rw [same, decide_eq_true_eq] at first second ⊢
        exact first.trans second
      | object | list => simp [same] at second
    | object | list => simp [same] at first
  | object name ps origin ih =>
    cases b with
    | primitive | list => simp [same] at first
    | object other qs origin' =>
      cases c with
      | primitive | list => simp [same] at second
      | object last rs origin'' =>
        obtain ⟨-, inside⟩ := keyed_object.mp keyed
        obtain ⟨-, inside'⟩ := keyed_object.mp keyed'
        obtain ⟨-, inside''⟩ := keyed_object.mp keyed''
        obtain ⟨names, length, matched⟩ := same_object_iff.mp first
        obtain ⟨names', length', matched'⟩ := same_object_iff.mp second
        refine same_object_iff.mpr ⟨names.trans names', length.trans length', fun key u member => ?_⟩
        obtain ⟨v, found, equal⟩ := matched key u member
        have known := mem_of_lookup_eq found
        obtain ⟨w, found', equal'⟩ := matched' key v known
        have known' := mem_of_lookup_eq found'
        have ku := inside _ member
        have kv := inside' _ known
        have kw := inside'' _ known'
        rw [same_comm kv ku] at equal
        rw [same_comm kw kv] at equal'
        exact ⟨w, found', (same_comm kw ku).trans (ih _ member ku kv kw equal equal')⟩
  | list name vs operation origin ih =>
    cases b with
    | primitive | object => simp [same] at first
    | list other ws operation' origin' =>
      cases c with
      | primitive | object => simp [same] at second
      | list last us operation'' origin'' =>
        obtain ⟨names, values⟩ := same_list_iff.mp first
        obtain ⟨names', values'⟩ := same_list_iff.mp second
        refine same_list_iff.mpr ⟨names.trans names', ?_⟩
        rw [List.forall₂_iff_get] at values values' ⊢
        refine ⟨values.1.trans values'.1, fun i hu hw => ?_⟩
        have hv : i < ws.length := values.1 ▸ hu
        exact ih _ (List.get_mem _ _) (keyed_list.mp keyed _ (List.get_mem _ _))
          (keyed_list.mp keyed' _ (List.get_mem _ _)) (keyed_list.mp keyed'' _ (List.get_mem _ _))
          (values.2 i hu hv) (values'.2 i hv hw)

/-- **Equal objects have one name, the same keys, and equal values under each of them.** -/
theorem same_object_iff_keys (keyed : (object name ps o).Keyed) (keyed' : (object other qs o').Keyed) :
    (object name ps o).same (object other qs o') = true
      ↔ name = other ∧ (∀ key, key ∈ ps.map Prod.fst ↔ key ∈ qs.map Prod.fst) ∧
        ∀ key v w, lookup ps key = some v → lookup qs key = some w → v.same w = true := by
  obtain ⟨distinct, inside⟩ := keyed_object.mp keyed
  obtain ⟨distinct', inside'⟩ := keyed_object.mp keyed'
  rw [same_object_iff]
  refine and_congr_right fun _ => ⟨?_, ?_⟩
  · rintro ⟨length, matched⟩
    refine ⟨fun key => (matched.keys distinct length).mem_iff, fun key v w here there => ?_⟩
    have known := mem_of_lookup_eq here
    obtain ⟨found, there', equal⟩ := matched key v known
    obtain rfl : found = w := Option.some.inj (there'.symm.trans there)
    exact (same_comm (inside _ known) (inside' _ (mem_of_lookup_eq there))).trans equal
  · rintro ⟨keys, values⟩
    have perm := (List.perm_ext_iff_of_nodup distinct distinct').mpr keys
    refine ⟨by simpa using perm.length_eq, fun key v member => ?_⟩
    obtain ⟨⟨_, w⟩, known, rfl⟩ := List.mem_map.mp ((keys key).mp (List.mem_map.mpr ⟨_, member, rfl⟩))
    have there := lookup_of_mem distinct' known
    have equal := values _ v w (lookup_of_mem distinct member) there
    exact ⟨w, there, (same_comm (inside' _ known) (inside _ member)).trans equal⟩

/-- No property of an object with distinct keys is held against an earlier one. -/
lemma repeatsAgree_of_nodup (earlier : List (String × Node))
    (distinct : ((earlier ++ ps).map Prod.fst).Nodup) : repeatsAgree earlier ps = true := by
  induction ps generalizing earlier with
  | nil => rfl
  | cons property rest ih =>
    obtain ⟨key, value⟩ := property
    have absent : lookup earlier key = none := by
      refine Option.eq_none_iff_forall_ne_some.mpr fun first found => ?_
      rw [List.map_append, List.map_cons] at distinct
      exact List.disjoint_of_nodup_append distinct (mem_keys_of_lookup found) List.mem_cons_self
    rw [repeatsAgree, absent, Option.all_none, Bool.true_and]
    exact ih _ (by simpa using distinct)

/-- A tree that is held against itself, child by child, is equal to itself. -/
lemma sameAsItself_of_keyed (keyed : a.Keyed) : a.sameAsItself = true := by
  cases a with
  | primitive | list => rfl
  | object name ps origin => exact repeatsAgree_of_nodup [] (keyed_object.mp keyed).1

/-- **A tree whose objects have distinct keys.** -/
abbrev KeyedTree := {tree : Node // tree.Keyed}

/-- **Equality of trees with distinct keys** is an equivalence, which a tree also is in with itself where
the two sides are one.  It is the relation of trees that say the same; so neither origins nor the sort of
brackets nor the order of properties matter to it, on either side and at any depth.  Objects are equal if
they have one name, the same keys, and equal values under each key. -/
theorem equivalence_same :
    Equivalence (fun a b : KeyedTree => a.1.same b.1 = true) ∧
    (∀ a : KeyedTree, a.1.sameAsItself = true) ∧
    (∀ a b : KeyedTree, a.1.same b.1 = true ↔ a.1.Rearranged b.1) ∧
    (∀ (a b : KeyedTree) (a' b' : Node), a.1.Rearranged a' → b.1.Rearranged b' →
      a'.same b' = a.1.same b.1) ∧
    ∀ name other ps qs o o', (object name ps o).Keyed → (object other qs o').Keyed →
      ((object name ps o).same (object other qs o') = true
        ↔ name = other ∧ (∀ key, key ∈ ps.map Prod.fst ↔ key ∈ qs.map Prod.fst) ∧
          ∀ key v w, lookup ps key = some v → lookup qs key = some w → v.same w = true) := by
  have equal {a b : Node} (keyed : a.Keyed) (related : a.Rearranged b) :
      a.same b = true ∧ b.same a = true :=
    ⟨(same_iff_rearranged keyed (related.keyed keyed)).1.mpr related,
      (same_iff_rearranged keyed (related.keyed keyed)).2.mpr related⟩
  refine ⟨⟨fun a => same_self a.2, fun {a b} equal => (same_comm b.2 a.2).trans equal,
      fun {a b c} => same_trans a.2 b.2 c.2⟩, fun a => sameAsItself_of_keyed a.2,
    fun a b => (same_iff_rearranged a.2 b.2).1, ?_, fun _ _ _ _ _ _ => same_object_iff_keys⟩
  intro a b a' b' left right
  obtain ⟨toLeft, fromLeft⟩ := equal a.2 left
  obtain ⟨toRight, fromRight⟩ := equal b.2 right
  have keyed := left.keyed a.2
  have keyed' := right.keyed b.2
  refine Bool.eq_iff_iff.mpr ⟨fun rearranged => ?_, fun original => ?_⟩
  · exact same_trans a.2 keyed' b.2 (same_trans a.2 keyed keyed' toLeft rearranged) fromRight
  · exact same_trans keyed b.2 keyed' (same_trans keyed a.2 b.2 fromLeft original) toRight

/-- For instance, an object with an operation in it, and the same one from elsewhere with a list instead
and with its properties in another order. -/
theorem equivalence_same_of_reordered :
    let a := objectOf "p" [("x", listOf "" [plain "1"] true), ("y", plain "2")]
    let b := object "p" [("y", primitive "2" ⟨5, ⟨3, 4⟩⟩),
      ("x", list "" [primitive "1" ⟨7, ⟨9, 10⟩⟩] false ⟨6, ⟨8, 11⟩⟩)] ⟨4, ⟨0, 12⟩⟩
    a.Keyed ∧ b.Keyed ∧ a.Rearranged b ∧ b.same a = true ∧
      ∀ v w, a.child? (.key "x") = some v → b.child? (.key "x") = some w → v.same w = true := by
  intro a b
  have keyed : a.Keyed := by
    simp [a, Keyed, All, AllProperties, AllValues, DistinctKeys, objectOf, listOf, plain, properties?]
  have related : a.Rearranged b :=
    .object (.cons (.mk (.list (.cons .primitive .nil))) (.cons (.mk .primitive) .nil)) (.swap _ _ _)
  have keyed' : b.Keyed := related.keyed keyed
  obtain ⟨equivalence, -, equal_iff, changes, objects⟩ := equivalence_same
  have equal : b.same a = true :=
    equivalence.symm ((equal_iff ⟨a, keyed⟩ ⟨b, keyed'⟩).mpr related)
  have turned : a.same b = true :=
    (changes ⟨a, keyed⟩ ⟨a, keyed⟩ a b ((equal_iff ⟨a, keyed⟩ ⟨a, keyed⟩).mp (equivalence.refl _))
      related).trans (equivalence.refl ⟨a, keyed⟩)
  obtain ⟨-, -, values⟩ := (objects _ _ _ _ _ _ keyed keyed').mp turned
  exact ⟨keyed, keyed', related, equal, values "x"⟩

end Node

end TreeLang
