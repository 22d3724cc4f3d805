import Mathlib.Algebra.GroupWithZero.Nat
import SumLayout.Proofs.Pools
import SumLayout.Proofs.Stored

/-!
# How many slots the leaves of all cases need

The number of slots depends only on how the leaves of each case are stored and on their types
(`Leaf`). Each case takes as many slots of a pool as it has leaves for it (`Leaf.demand`); those for
single values add up over the cases, and of those that are shared as many are needed as any one case
takes (`Leaf.supply`). **A layout has exactly these slots** (`Built.count_eq_supply`), if no type is
used both for values shared by type and for references.
-/

namespace SumLayout

/-- How a leaf is stored, and its type. -/
structure Leaf where
  storage : StorageClass
  typeName : String
  deriving DecidableEq

namespace Leaf

/-- The pool that a leaf needs a slot of. -/
def pool? (x : Leaf) : Option Pool :=
  match x.storage with
  | .overlappable => none
  | .sameType => some (.sameType x.typeName)
  | .reference => some .reference
  | .unique | .decomposable => some .unique

/-- The number of leaves that need a slot of a pool. -/
def demand (xs : List Leaf) (p : Pool) : Nat := xs.countP (·.pool? == some p)

/-- The number of slots of a pool that cases with these leaves need. -/
def supply (xss : List (List Leaf)) : Pool → Nat
  | .unique => (xss.map (demand · .unique)).sum
  | p => (xss.map (demand · p)).foldr max 0

/-- A leaf that goes with keeping the types in `shared` apart. -/
structure Admitted (shared : String → Prop) (x : Leaf) : Prop where
  sameType : x.storage = .sameType → shared x.typeName
  reference : x.storage = .reference → ¬shared x.typeName ∧ ¬shared Field.anyReference

theorem demand_append (xs ys : List Leaf) :
    demand (xs ++ ys) = fun p => demand xs p + demand ys p :=
  funext fun _ => List.countP_append

theorem foldr_max_append (xs ys : List Nat) :
    (xs ++ ys).foldr max 0 = max (xs.foldr max 0) (ys.foldr max 0) := by
  induction xs with
  | nil => rw [List.nil_append, List.foldr_nil, Nat.zero_max]
  | cons x xs ih => rw [List.cons_append, List.foldr_cons, ih, List.foldr_cons, Nat.max_assoc]

theorem supply_concat_unique (xss : List (List Leaf)) (xs : List Leaf) :
    supply (xss ++ [xs]) .unique = supply xss .unique + demand xs .unique := by
  simp [supply]

theorem supply_of_ne (xss : List (List Leaf)) {p : Pool} (hp : p ≠ .unique) :
    supply xss p = (xss.map (demand · p)).foldr max 0 := by
  cases p with
  | unique => exact absurd rfl hp
  | sameType | reference => rfl

theorem supply_concat_of_ne (xss : List (List Leaf)) (xs : List Leaf) {p : Pool}
    (hp : p ≠ .unique) : supply (xss ++ [xs]) p = max (supply xss p) (demand xs p) := by
  rw [supply_of_ne _ hp, supply_of_ne _ hp, List.map_append, foldr_max_append, List.map_singleton,
    List.foldr_cons, List.foldr_nil, Nat.max_zero]

end Leaf

/-- The leaf that a request is for. -/
def Request.leaf (r : Request) : Leaf := ⟨r.storage, r.value.type.name⟩

/-- What a node says of a leaf. -/
def Node.leaf (n : Node) : Leaf := ⟨n.storage, n.type.name⟩

namespace Value

mutual

/-- The leaves that a value is stored as. -/
def leaves (classOf : Shape → StorageClass) : Value → List Leaf
  | ⟨_, type, members⟩ =>
    if classOf type.shape = .decomposable then leavesAll classOf members
    else [⟨classOf type.shape, type.name⟩]

/-- The leaves that some values are stored as. -/
def leavesAll (classOf : Shape → StorageClass) : List Value → List Leaf
  | [] => []
  | v :: vs => v.leaves classOf ++ leavesAll classOf vs

end

variable {classOf : Shape → StorageClass}

theorem leavesAll_eq_flatMap (vs : List Value) :
    leavesAll classOf vs = vs.flatMap (leaves classOf) := by
  induction vs with
  | nil => rfl
  | cons v vs ih => rw [leavesAll, ih, List.flatMap_cons]

theorem ne_decomposable_of_mem_leavesAll (vs : List Value) :
    ∀ x ∈ leavesAll classOf vs, x.storage ≠ .decomposable := by
  induction vs using forest_induction with
  | nil => exact fun x hx => absurd hx List.not_mem_nil
  | cons name type members vs ihm ih =>
    intro x hx
    rw [leavesAll, leaves, List.mem_append] at hx
    rcases hx with hx | hx
    · split at hx
      · exact ihm x hx
      · next hk =>
        rw [List.mem_singleton.mp hx]
        exact hk
    · exact ih x hx

/-- The leaves of some values are those that are requested. -/
theorem map_leaf_requestsAll (c : CaseScope) (vs : List Value) :
    ∀ (stem : String) (path : List String),
      (requestsAll c stem path vs).map Request.leaf = leavesAll c.classOf vs := by
  induction vs using forest_induction with
  | nil => exact fun _ _ => rfl
  | cons name type members vs ihm ih =>
    intro stem path
    rw [leavesAll, leaves]
    by_cases hk : c.classOf type.shape = .decomposable
    · rw [requestsAll_cons_composite hk, if_pos hk, List.map_append, ihm, ih]
    · rw [requestsAll_cons_leaf hk, if_neg hk, List.map_cons, ih]
      rfl

/-- The leaves of some values are those of the trees that stand for them. -/
theorem StandsAll.map_leaf {path : List String} {vs : List Value} {ts : List NodeTree}
    (h : StandsAll classOf path vs ts) :
    (NodeTree.leavesAll ts).map Node.leaf = leavesAll classOf vs := by
  induction h with
  | nil => rfl
  | leaf whole node _ _ ih =>
    have hleaf : Node.leaf _ = _ := congrArg₂ Leaf.mk node.storage (congrArg _ node.type)
    rw [NodeTree.leavesAll, NodeTree.leaves, leavesAll, leaves, List.map_append, ih,
      if_neg whole, if_pos (by simp [Node.isLeaf, node.storage, whole]), NodeTree.leavesAll,
      List.append_nil, List.map_singleton, hleaf]
  | composite parts node _ _ _ ihm ih =>
    rw [NodeTree.leavesAll, NodeTree.leaves, leavesAll, leaves, List.map_append, ih,
      if_pos parts, if_neg (by simp [Node.isLeaf, node.storage, parts]), List.nil_append, ihm]

end Value

/-- The leaves of a case. -/
def Case.leaves (classOf : Shape → StorageClass) (c : Case) : List Leaf :=
  Value.leavesAll classOf c.values

theorem Case.ne_decomposable_of_mem_leaves {classOf : Shape → StorageClass} (cs : List Case) :
    ∀ x ∈ (cs.map (Case.leaves classOf)).flatten, x.storage ≠ .decomposable := by
  intro x hx
  obtain ⟨xs, hxs, hx⟩ := List.mem_flatten.mp hx
  obtain ⟨c, -, rfl⟩ := List.mem_map.mp hxs
  exact Value.ne_decomposable_of_mem_leavesAll c.values x hx

/-! ## Serving the requests of a case -/

namespace Progress

variable {c : CaseScope} {overlap : Option FieldId} {placed : List FieldId} {p : Progress}
  {shared : String → Prop}

theorem placeOverlap_slots (c : CaseScope) (stem : String) (v : Value) (p : Progress) :
    (p.placeOverlap c stem v).2.slots.slots = p.slots.slots ∧
      (p.placeOverlap c stem v).2.slots.claims = p.slots.claims := by
  obtain ⟨slots, nodes, region, regionFields, overlapLeaves⟩ := p
  unfold placeOverlap
  split
  · cases region <;> exact ⟨rfl, rfl⟩
  · exact ⟨rfl, rfl⟩

theorem Sound.supplied_placeShared (h : p.Sound c overlap placed) (hs : p.slots.Apart shared)
    {kind : FieldKind} (stem : String) (v : Value) (ha : Slots.Admits shared kind v.type.name) :
    (p.placeShared c kind stem v).2.slots.Apart shared ∧
      p.slots.Supplied (Pool.one (kind.pool v.type.name)) (p.placeShared c kind stem v).2.slots :=
  h.slots.supplied_findOrDeclare hs ha _

/-- A request is supplied as its leaf demands. -/
theorem Sound.supplied_placeLeaf (h : p.Sound c overlap placed) (hs : p.slots.Apart shared)
    (r : Request) (ha : r.leaf.Admitted shared) :
    (p.placeLeaf c r.storage r.stem r.value).2.slots.Apart shared ∧
      p.slots.Supplied (Leaf.demand [r.leaf])
        (p.placeLeaf c r.storage r.stem r.value).2.slots := by
  obtain ⟨storage, stem, path, v⟩ := r
  have hone : ∀ pool, (⟨storage, v.type.name⟩ : Leaf).pool? = some pool →
      Leaf.demand [⟨storage, v.type.name⟩] = Pool.one pool := by
    intro pool hp
    funext q
    rw [Leaf.demand, List.countP_singleton, hp]
    simp [Pool.one]
  cases storage with
  | overlappable =>
    have hg := (h.placeOverlap stem v).2.grows
    obtain ⟨hslots, hclaims⟩ := placeOverlap_slots c stem v p
    refine ⟨⟨?_, ?_⟩, h.slots.supplied_of_same hg hslots hclaims⟩
    · intro id hid f hf
      exact (hs.of_grows h.slots hg (hslots ▸ hid) hf).1
    · intro id hid f hf
      exact (hs.of_grows h.slots hg (hslots ▸ hid) hf).2
  | sameType =>
    rw [Request.leaf, hone _ rfl]
    exact h.supplied_placeShared hs stem v ⟨by simp, fun _ => ha.sameType rfl, by simp⟩
  | reference =>
    rw [Request.leaf, hone _ rfl]
    exact h.supplied_placeShared hs stem v ⟨by simp, by simp, fun _ => ha.reference rfl⟩
  | unique | decomposable =>
    rw [Request.leaf, hone _ rfl]
    exact h.supplied_placeShared hs stem v ⟨by simp, by simp, by simp⟩

/-- **A case is supplied as its leaves demand.** -/
theorem Sound.supplied_placeAll (rs : List Request) : ∀ {p : Progress},
    p.Sound c overlap placed → p.slots.Apart shared → (∀ r ∈ rs, r.leaf.Admitted shared) →
    (p.placeAll c rs).2.slots.Apart shared ∧
      p.slots.Supplied (Leaf.demand (rs.map Request.leaf)) (p.placeAll c rs).2.slots := by
  induction rs with
  | nil =>
    intro p h hs _
    exact ⟨hs, h.slots.supplied_of_same (Slots.Grows.refl _) rfl rfl⟩
  | cons r rs ih =>
    intro p h hs hall
    obtain ⟨hr, hrs⟩ := List.forall_mem_cons.mp hall
    obtain ⟨hapart, hone⟩ := h.supplied_placeLeaf hs r hr
    obtain ⟨hapart', hrest⟩ := ih (h.placeLeaf r).1 hapart hrs
    refine ⟨hapart', ?_⟩
    rw [List.map_cons, ← List.singleton_append, Leaf.demand_append]
    exact hone.trans hrest

end Progress

/-! ## All cases -/

namespace Layout

variable {classOf : Shape → StorageClass} {overlapped : Bool} {done : List Case} {l : Layout}
  {shared : String → Prop}

/-- **A layout has as many slots of each pool as its cases need.** -/
theorem Built.count_eq_supply (h : Built classOf overlapped done l) :
    (∀ c ∈ done, ∀ x ∈ c.leaves classOf, x.Admitted shared) →
    l.progress.slots.Apart shared ∧
      ∀ p, l.progress.slots.count p = Leaf.supply (done.map (Case.leaves classOf)) p := by
  induction h with
  | start =>
    refine fun _ => ⟨⟨fun id hid => absurd hid List.not_mem_nil,
      fun id hid => absurd hid List.not_mem_nil⟩, fun p => ?_⟩
    cases p <;> rfl
  | @case done l l' c ts before step ih =>
    intro hall
    obtain ⟨hapart, hcount⟩ := ih fun d hd => hall d (List.mem_append_left _ hd)
    have hc := hall c (List.mem_append_right _ (List.mem_singleton.mpr rfl))
    have hleaves : (c.requests classOf).map Request.leaf = c.leaves classOf :=
      Value.map_leaf_requestsAll (c.scope classOf) c.values "" []
    have hrs : ∀ r ∈ c.requests classOf, r.leaf.Admitted shared := fun r hr =>
      hc _ (hleaves ▸ List.mem_map_of_mem hr)
    obtain ⟨hapart', hsup⟩ := Progress.Sound.supplied_placeAll (c.requests classOf)
      (Progress.sound_newCase before.sound l.nodes) hapart hrs
    rw [hleaves] at hsup
    -- the case starts without claims, so that all slots there are can meet its demand
    have hslots : l'.progress.slots = (l.place classOf c).2.slots.newCase := by
      rw [progress, step.fields, step.unionFields]
      rfl
    rw [hslots]
    refine ⟨⟨hapart'.kind, hapart'.reference⟩, fun p => ?_⟩
    have hused : l.progress.slots.newCase.used p = 0 := rfl
    have hsame : ∀ q, l.progress.slots.newCase.count q = l.progress.slots.count q := fun _ => rfl
    rw [List.map_append, List.map_singleton]
    show (l.place classOf c).2.slots.count p = _
    by_cases hp : p = .unique
    · subst hp
      rw [Leaf.supply_concat_unique, ← hcount, ← hsame]
      exact hsup.unique
    · rw [Leaf.supply_concat_of_ne _ _ hp, ← hcount, ← hsame]
      have hshared := hsup.shared p hp
      rw [hused, Nat.zero_add] at hshared
      exact hshared

end Layout

end SumLayout
