import Mathlib.Algebra.BigOperators.Group.Finset.Basic
import Mathlib.Algebra.BigOperators.Group.Finset.Piecewise
import SumLayout.Proofs.Reordering
import SumLayout.Proofs.WellFormed

/-!
# The number of fields in closed form

Sharing is first come, first served. Even so it is the best there is: if no type is used both for
values shared by type and for references (`Layout.Separated`), **the number of slots is the one that
the leaves of the cases need** (`Leaf.slotsNeeded`), which no order of cases or parameters changes
(`fieldCount_of_separated`).
-/

namespace SumLayout

open Finset

namespace Leaf

/-- The types of the values that are shared by type. -/
def sharedTypes (xss : List (List Leaf)) : Finset String :=
  ((xss.flatten.filter (·.storage == .sameType)).map (·.typeName)).toFinset

/-- The slots that cases with these leaves need: one for each leaf that is not shared, for each type
as many as any one case has leaves that are shared by that type, and as many as any one case has
references. -/
def slotsNeeded (xss : List (List Leaf)) : Nat :=
  (xss.map fun xs => xs.countP (·.storage == .unique)).sum
    + ∑ T ∈ sharedTypes xss,
        (xss.map fun xs => xs.countP fun x => x.storage == .sameType && x.typeName == T).foldr max 0
    + (xss.map fun xs => xs.countP (·.storage == .reference)).foldr max 0

/-- No type is used both for values shared by type and for references, the type of any reference
included if there are references. -/
def Separated (xss : List (List Leaf)) : Prop :=
  ∀ x ∈ xss.flatten, ∀ y ∈ xss.flatten, x.storage = .sameType → y.storage = .reference →
    x.typeName ≠ y.typeName ∧ x.typeName ≠ Field.anyReference

variable {xss : List (List Leaf)}

theorem mem_sharedTypes {T : String} : T ∈ sharedTypes xss ↔
    ∃ x ∈ xss.flatten, x.storage = .sameType ∧ x.typeName = T := by
  rw [sharedTypes, List.mem_toFinset, List.mem_map]
  simp only [List.mem_filter, beq_iff_eq, and_assoc]

/-- Leaves that are separated keep the types that are shared apart from references. -/
theorem Separated.admitted (h : Separated xss) {x : Leaf} (hx : x ∈ xss.flatten) :
    x.Admitted (· ∈ sharedTypes xss) where
  sameType hs := mem_sharedTypes.mpr ⟨x, hx, hs, rfl⟩
  reference hr := by
    constructor
    · intro hmem
      obtain ⟨y, hy, hs, he⟩ := mem_sharedTypes.mp hmem
      exact (h y hy x hx hs hr).1 he
    · intro hmem
      obtain ⟨y, hy, hs, he⟩ := mem_sharedTypes.mp hmem
      exact (h y hy x hx hs hr).2 he

/-! ## Demand by storage -/

theorem demand_unique {xs : List Leaf} (h : ∀ x ∈ xs, x.storage ≠ .decomposable) :
    demand xs .unique = xs.countP (·.storage == .unique) := by
  refine List.countP_congr fun x hx => ?_
  have hne := h x hx
  rw [pool?]
  cases hs : x.storage with
  | decomposable => exact absurd hs hne
  | _ => simp

theorem demand_reference (xs : List Leaf) :
    demand xs .reference = xs.countP (·.storage == .reference) := by
  refine List.countP_congr fun x _ => ?_
  rw [pool?]
  cases x.storage <;> simp

theorem demand_sameType (xs : List Leaf) (T : String) :
    demand xs (.sameType T)
      = xs.countP fun x => x.storage == .sameType && x.typeName == T := by
  refine List.countP_congr fun x _ => ?_
  rw [pool?]
  cases x.storage <;> simp

/-- The slots that are needed, pool by pool. -/
theorem slotsNeeded_eq (h : ∀ x ∈ xss.flatten, x.storage ≠ .decomposable) :
    slotsNeeded xss = supply xss .unique + ∑ T ∈ sharedTypes xss, supply xss (.sameType T)
      + supply xss .reference := by
  have hunique : (xss.map fun xs => xs.countP (·.storage == .unique))
      = xss.map (demand · .unique) := by
    refine List.map_congr_left fun xs hxs => (demand_unique fun x hx => ?_).symm
    exact h x (List.mem_flatten.mpr ⟨xs, hxs, hx⟩)
  rw [slotsNeeded, hunique]
  simp only [supply, demand_sameType, demand_reference]

theorem foldr_max_eq_zero {ns : List Nat} (h : ∀ n ∈ ns, n = 0) : ns.foldr max 0 = 0 := by
  induction ns with
  | nil => rfl
  | cons n ns ih =>
    rw [List.foldr_cons, h n List.mem_cons_self, Nat.zero_max]
    exact ih fun m hm => h m (List.mem_cons_of_mem _ hm)

/-- Slots are only needed for types that are shared. -/
theorem mem_sharedTypes_of_supply {T : String} (h : supply xss (.sameType T) ≠ 0) :
    T ∈ sharedTypes xss := by
  by_contra hno
  refine h (foldr_max_eq_zero fun n hn => ?_)
  obtain ⟨xs, hxs, rfl⟩ := List.mem_map.mp hn
  rw [demand_sameType, List.countP_eq_zero]
  intro x hx hq
  rw [Bool.and_eq_true, beq_iff_eq, beq_iff_eq] at hq
  exact hno (mem_sharedTypes.mpr ⟨x, List.mem_flatten.mpr ⟨xs, hxs, hx⟩, hq⟩)

end Leaf

/-! ## Counting the slots pool by pool -/

/-- A list that is sorted into pools is as long as the pools together. -/
theorem length_eq_countP_pools {α : Type} (pool : α → Option Pool) (F : Finset String)
    (xs : List α)
    (h : ∀ x ∈ xs, ∃ p, pool x = some p ∧ ∀ T, p = .sameType T → T ∈ F) :
    xs.length = xs.countP (pool · == some .unique)
      + ∑ T ∈ F, xs.countP (pool · == some (.sameType T))
      + xs.countP (pool · == some .reference) := by
  induction xs with
  | nil => simp
  | cons x xs ih =>
    obtain ⟨⟨p, hp, hF⟩, hxs⟩ := List.forall_mem_cons.mp h
    have hlen := ih hxs
    simp only [List.length_cons, List.countP_cons, hp, sum_add_distrib]
    -- the first element counts in its own pool and in no other
    cases p with
    | unique => simp [hlen]; omega
    | reference => simp [hlen]; omega
    | sameType T =>
      have hone : ∑ T' ∈ F, (if (some (Pool.sameType T) == some (Pool.sameType T')) = true
          then 1 else 0) = 1 := by
        simp [hF T rfl]
      rw [hone]
      simp [hlen]
      omega

namespace Layout

variable {classOf : Shape → StorageClass} {overlapped : Bool} {done : List Case} {l : Layout}

/-- The leaves of each case of a layout. -/
def leafKinds (l : Layout) : List (List Leaf) :=
  l.cases.map fun c => (l.leafNodes c.roots).map Node.leaf

/-- No type in the layout is used both for values shared by type and for references. -/
def Separated (l : Layout) : Prop := Leaf.Separated l.leafKinds

theorem Built.leafKinds (h : Built classOf overlapped done l) :
    l.leafKinds = done.map (Case.leaves classOf) := by
  have hholds := h.holds
  clear h
  rw [Layout.leafKinds]
  generalize l.cases = cls at hholds
  induction hholds with
  | nil => rfl
  | cons hts _ ih =>
    obtain ⟨ts, hts⟩ := hts
    rw [List.map_cons, List.map_cons, ih, hts.leafNodes, hts.stands.map_leaf]
    rfl

/-- **A layout whose types are separated has the slots that its leaves need.** -/
theorem Built.length_unionFields (h : Built classOf overlapped done l) (hsep : l.Separated) :
    l.unionFields.length = Leaf.slotsNeeded l.leafKinds := by
  have hkinds := h.leafKinds
  have hadm : ∀ c ∈ done, ∀ x ∈ c.leaves classOf,
      x.Admitted (· ∈ Leaf.sharedTypes l.leafKinds) := by
    intro c hc x hx
    refine hsep.admitted ?_
    rw [hkinds]
    exact List.mem_flatten.mpr ⟨_, List.mem_map_of_mem hc, hx⟩
  obtain ⟨hapart, hcount⟩ := h.count_eq_supply hadm
  rw [← hkinds] at hcount
  have hstored : ∀ x ∈ l.leafKinds.flatten, x.storage ≠ .decomposable := by
    rw [hkinds]
    exact Case.ne_decomposable_of_mem_leaves done
  have hpools : ∀ id ∈ l.unionFields, ∃ p, l.progress.slots.poolAt id = some p ∧
      ∀ T, p = .sameType T → T ∈ Leaf.sharedTypes l.leafKinds := by
    intro id hid
    obtain ⟨f, hf, -⟩ := h.sound.onUnion id (List.mem_append_right _ hid)
    have hp : l.progress.slots.poolAt id = some f.pool := by
      rw [Slots.poolAt, hf, Option.map_some]
    -- a slot for a type is only there because some case needs it
    refine ⟨f.pool, hp, fun T hT => Leaf.mem_sharedTypes_of_supply ?_⟩
    rw [← hcount, Slots.count]
    refine Nat.ne_of_gt (List.countP_pos_iff.mpr ⟨id, hid, ?_⟩)
    rw [hp, hT]
    exact beq_self_eq_true _
  rw [length_eq_countP_pools l.progress.slots.poolAt _ _ hpools, Leaf.slotsNeeded_eq hstored]
  simp only [← hcount, Slots.count]
  rfl

/-! ## Reordering -/

section Reordering

variable {u u' : Union} {allowOverlap : Bool} {l' : Layout}

theorem leafKinds_of_allocate (h : allocate u allowOverlap = .ok l) :
    l.leafKinds = u.cases.map (Case.leaves (classes u allowOverlap)) :=
  (built_of_allocate h).2.leafKinds

theorem Separated.reordered (h : l.Separated) (hr : u.Reordered u')
    (hl : allocate u allowOverlap = .ok l) (hl' : allocate u' allowOverlap = .ok l') :
    l'.Separated := by
  rw [Separated, leafKinds_of_allocate hl] at h
  rw [Separated, leafKinds_of_allocate hl', hr.classes_eq]
  intro x hx y hy
  exact h x (hr.mem_flatten_iff.mp hx) y (hr.mem_flatten_iff.mp hy)

/-- **Reordering changes the number of slots that are needed as little as the leaves.** -/
theorem slotsNeeded_reordered (hr : u.Reordered u') (hl : allocate u allowOverlap = .ok l)
    (hl' : allocate u' allowOverlap = .ok l') :
    Leaf.slotsNeeded l'.leafKinds = Leaf.slotsNeeded l.leafKinds := by
  rw [leafKinds_of_allocate hl, leafKinds_of_allocate hl', hr.classes_eq]
  have htypes : Leaf.sharedTypes (u'.cases.map (Case.leaves (classes u allowOverlap)))
      = Leaf.sharedTypes (u.cases.map (Case.leaves (classes u allowOverlap))) := by
    ext T
    simp only [Leaf.mem_sharedTypes, hr.mem_flatten_iff]
  rw [Leaf.slotsNeeded_eq (Case.ne_decomposable_of_mem_leaves _),
    Leaf.slotsNeeded_eq (Case.ne_decomposable_of_mem_leaves _), htypes]
  simp only [hr.supply_eq]

theorem fieldCount_reordered (hsep : l.Separated) (hr : u.Reordered u')
    (hl : allocate u allowOverlap = .ok l) (hl' : allocate u' allowOverlap = .ok l') :
    l'.fieldCount = l.fieldCount := by
  have hb := (built_of_allocate hl).2
  have hb' := (built_of_allocate hl').2
  rw [fieldCount, fieldCount, hb.length_unionFields hsep,
    hb'.length_unionFields (hsep.reordered hr hl hl'), slotsNeeded_reordered hr hl hl',
    hb.overlap_eq, hb'.overlap_eq, hr.hasOverlap_eq]

theorem prefersOverlap_reordered (hr : u.Reordered u') {plain overlapped : Layout}
    (hp : allocate u false = .ok plain) (hps : plain.Separated)
    (ho : allocate u true = .ok overlapped) (hos : overlapped.Separated) :
    prefersOverlap u' = prefersOverlap u := by
  obtain ⟨plain', hp'⟩ := hr.allocate_ok hp
  obtain ⟨overlapped', ho'⟩ := hr.allocate_ok ho
  rw [prefersOverlap, prefersOverlap, hr.options_eq, hp, ho, hp', ho']
  simp only [fieldCount_reordered hps hr hp hp', fieldCount_reordered hos hr ho ho']

end Reordering

/-- **First fit is optimal, and so the order does not matter**: if the types in a layout are
separated, it has the slots that its leaves need; reordering the declaration does not change the
number of its fields, nor, if the types are separated in the other layout as well, which of the two
is chosen. -/
theorem fieldCount_of_separated {u : Union} {allowOverlap : Bool}
    (hl : allocate u allowOverlap = .ok l) (hsep : l.Separated) :
    l.unionFields.length = Leaf.slotsNeeded l.leafKinds ∧
      l.fieldCount = Leaf.slotsNeeded l.leafKinds + (if l.overlap.isSome then 1 else 0) ∧
      (∀ u', u.Reordered u' →
        ∃ l', allocate u' allowOverlap = .ok l' ∧ l'.fieldCount = l.fieldCount) ∧
      ∀ other, allocate u (!allowOverlap) = .ok other → other.Separated →
        ∀ u', u.Reordered u' → select u = allocate u (prefersOverlap u) ∧
          select u' = allocate u' (prefersOverlap u) := by
  have hlen := (built_of_allocate hl).2.length_unionFields hsep
  refine ⟨hlen, by rw [fieldCount, hlen], fun u' hr => ?_, fun other ho hos u' hr => ?_⟩
  · obtain ⟨l', hl'⟩ := hr.allocate_ok hl
    exact ⟨l', hl', fieldCount_reordered hsep hr hl hl'⟩
  · refine ⟨select_eq u, ?_⟩
    cases allowOverlap with
    | false => rw [select_eq u', prefersOverlap_reordered hr hl hsep ho hos]
    | true => rw [select_eq u', prefersOverlap_reordered hr ho hos hl hsep]

theorem leafKinds_figures {l : Layout} (hl : allocate .figures true = .ok l) :
    l.leafKinds = [[⟨.overlappable, "double"⟩],
      [⟨.overlappable, "int"⟩, ⟨.overlappable, "int"⟩, ⟨.reference, "string"⟩],
      [⟨.reference, "string"⟩], [⟨.sameType, "T"⟩, ⟨.sameType, "T"⟩], []] := by
  rw [leafKinds_of_allocate hl]
  rfl

theorem fieldCount_figures : ∃ l, allocate .figures true = .ok l ∧ l.Separated ∧
    l.unionFields.length = 3 ∧ l.fieldCount = 4 := by
  obtain ⟨l, hl, ho⟩ := allocate_figures
  have hkinds := leafKinds_figures hl
  have hsep : l.Separated := by
    rw [Separated, hkinds]
    simp [Leaf.Separated, Field.anyReference]
  have hneeded : Leaf.slotsNeeded l.leafKinds = 3 := by
    rw [hkinds]
    simp [Leaf.slotsNeeded, Leaf.sharedTypes]
  obtain ⟨hlen, hcount, -, -⟩ := fieldCount_of_separated hl hsep
  rw [hneeded] at hlen hcount
  rw [ho] at hcount
  exact ⟨l, hl, hsep, hlen, hcount⟩

end Layout

end SumLayout
