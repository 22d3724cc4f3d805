import SumLayout.Proofs.Demand
import SumLayout.Proofs.Selection

/-!
# Reordering a declaration

A declaration is reordered if its cases, and the parameters of each case, change places. What is
counted over all cases does not see this (`Reordered.map_perm`), and nothing else decides whether
there is an overlap region (`Reordered.classes_eq`) and how many slots are needed
(`Reordered.supply_eq`). **A reordered declaration can be laid out if the original can**
(`Reordered.allocate_ok`).
-/

namespace SumLayout

/-- The same case with its parameters in another order. -/
def Case.Reordered (c c' : Case) : Prop :=
  ∃ vs, c.values.Perm vs ∧ c' = { c with values := vs }

/-- The same union with its cases, and the parameters of each, in another order. -/
def Union.Reordered (u u' : Union) : Prop :=
  ∃ cs cs', u.cases.Perm cs ∧ List.Forall₂ Case.Reordered cs cs' ∧ u' = { u with cases := cs' }

/-! ## Parameters in another order -/

namespace Value

variable {classOf : Shape → StorageClass} {path : List String} {vs vs' : List Value}

theorem hollowAll?_eq_none_iff :
    hollowAll? classOf path vs = none ↔ ∀ v ∈ vs, v.hollow? classOf path = none := by
  induction vs with
  | nil => exact iff_of_true rfl fun v hv => absurd hv List.not_mem_nil
  | cons v vs ih => rw [hollowAll?, Option.or_eq_none_iff, ih, List.forall_mem_cons]

theorem leavesAll_perm (h : vs.Perm vs') :
    (leavesAll classOf vs).Perm (leavesAll classOf vs') := by
  rw [leavesAll_eq_flatMap, leavesAll_eq_flatMap]
  exact h.flatMap_right _

/-- The count made in advance is the number of overlappable leaves. -/
theorem overlapCounts_eq_countP_leaves (vs : List Value) :
    overlapCounts classOf vs = (leavesAll classOf vs).countP (·.storage == .overlappable) := by
  induction vs using forest_induction with
  | nil => rfl
  | cons name type members vs ihm ih =>
    rw [leavesAll, leaves]
    by_cases hk : classOf type.shape = .decomposable
    · rw [overlapCounts_cons_composite hk, if_pos hk, List.countP_append, ihm, ih]
    · rw [overlapCounts_cons_leaf hk, if_neg hk, List.countP_append, List.countP_singleton, ih]
      simp

end Value

namespace Case.Reordered

variable {classOf : Shape → StorageClass} {c c' : Case}

theorem leaves_perm (h : c.Reordered c') : (c.leaves classOf).Perm (c'.leaves classOf) := by
  obtain ⟨vs, hp, rfl⟩ := h
  exact Value.leavesAll_perm hp

theorem hollow?_eq_none (h : c.Reordered c') (hc : c.hollow? classOf = none) :
    c'.hollow? classOf = none := by
  obtain ⟨vs, hp, rfl⟩ := h
  rw [Case.hollow?, Value.hollowAll?_eq_none_iff] at hc ⊢
  exact fun v hv => hc v (hp.mem_iff.mpr hv)

theorem overlapCount_eq (h : c.Reordered c') (o : Options) :
    Layout.overlapCount o c = Layout.overlapCount o c' := by
  rw [Layout.overlapCount, Layout.overlapCount, Value.overlapCounts_eq_countP_leaves,
    Value.overlapCounts_eq_countP_leaves]
  exact h.leaves_perm.countP_eq _

end Case.Reordered

/-! ## Cases in another order -/

/-- Whether there is an overlap region follows from how many overlappable leaves each case has. -/
theorem Layout.hasOverlap_congr {u u' : Union} (ho : u'.options = u.options)
    (h : (u.cases.map (overlapCount u.options)).Perm (u'.cases.map (overlapCount u.options)))
    (allowOverlap : Bool) : hasOverlap u' allowOverlap = hasOverlap u allowOverlap := by
  have hcount := h.countP_eq fun n => decide (0 < n)
  rw [List.countP_map, List.countP_map] at hcount
  rw [hasOverlap, hasOverlap, sharesOverlap, sharesOverlap, ho]
  exact congrArg (fun n => allowOverlap && decide (1 < n)) hcount.symm

namespace Union.Reordered

variable {u u' : Union} {classOf : Shape → StorageClass}

/-- What cases are counted by does not depend on their order. -/
theorem map_perm {β : Type} (h : u.Reordered u') {f : Case → β}
    (hf : ∀ c c', c.Reordered c' → f c = f c') : (u.cases.map f).Perm (u'.cases.map f) := by
  obtain ⟨cs, cs', hp, hcs, rfl⟩ := h
  have hmap : cs.map f = cs'.map f := by
    clear hp
    induction hcs with
    | nil => rfl
    | cons hc _ ih => rw [List.map_cons, List.map_cons, hf _ _ hc, ih]
  exact hmap ▸ hp.map f

theorem exists_of_mem (h : u.Reordered u') {c' : Case} (hc : c' ∈ u'.cases) :
    ∃ c ∈ u.cases, c.Reordered c' := by
  obtain ⟨cs, cs', hp, hcs, rfl⟩ := h
  obtain ⟨i, hi⟩ := List.getElem?_of_mem hc
  have hlt : i < cs.length := hcs.length_eq ▸ (List.getElem?_eq_some_iff.mp hi).1
  refine ⟨cs[i], hp.mem_iff.mpr (List.getElem_mem hlt), ?_⟩
  exact (List.forall₂_iff_zip.mp hcs).2
    (List.mem_of_getElem? (List.getElem?_zip_eq_some.mpr ⟨List.getElem?_eq_getElem hlt, hi⟩))

theorem options_eq (h : u.Reordered u') : u'.options = u.options := by
  obtain ⟨cs, cs', -, -, rfl⟩ := h
  rfl

theorem hasOverlap_eq (h : u.Reordered u') (allowOverlap : Bool) :
    Layout.hasOverlap u' allowOverlap = Layout.hasOverlap u allowOverlap :=
  Layout.hasOverlap_congr h.options_eq (h.map_perm fun _ _ hc => hc.overlapCount_eq _) allowOverlap

/-- **Shapes are classified alike.** -/
theorem classes_eq (h : u.Reordered u') (allowOverlap : Bool) :
    Layout.classes u' allowOverlap = Layout.classes u allowOverlap := by
  rw [Layout.classes, Layout.classes, h.options_eq, h.hasOverlap_eq]

/-- **As many slots are needed.** -/
theorem supply_eq (h : u.Reordered u') (p : Pool) :
    Leaf.supply (u'.cases.map (Case.leaves classOf)) p
      = Leaf.supply (u.cases.map (Case.leaves classOf)) p := by
  have hp : (u.cases.map fun c => Leaf.demand (c.leaves classOf) p).Perm
      (u'.cases.map fun c => Leaf.demand (c.leaves classOf) p) :=
    h.map_perm fun c c' hc => hc.leaves_perm.countP_eq _
  by_cases hu : p = .unique
  · subst hu
    rw [Leaf.supply, Leaf.supply, List.map_map, List.map_map]
    exact hp.sum_nat.symm
  · rw [Leaf.supply_of_ne _ hu, Leaf.supply_of_ne _ hu, List.map_map, List.map_map]
    exact hp.symm.foldr_eq 0

theorem mem_flatten_iff (h : u.Reordered u') {x : Leaf} :
    x ∈ (u'.cases.map (Case.leaves classOf)).flatten ↔
      x ∈ (u.cases.map (Case.leaves classOf)).flatten := by
  have hp := h.map_perm (f := fun c => decide (x ∈ c.leaves classOf))
    fun c c' hc => decide_eq_decide.mpr hc.leaves_perm.mem_iff
  have hmem := hp.symm.mem_iff (a := true)
  simpa only [List.mem_map, decide_eq_true_eq, List.mem_flatten, exists_exists_and_eq_and]
    using hmem

/-- **A reordered declaration can be laid out if the original can.** -/
theorem allocate_ok (h : u.Reordered u') {allowOverlap : Bool} {l : Layout}
    (hl : Layout.allocate u allowOverlap = .ok l) :
    ∃ l', Layout.allocate u' allowOverlap = .ok l' := by
  obtain ⟨hsolid, -⟩ := Layout.built_of_allocate hl
  refine Layout.exists_allocate_iff.mpr fun c' hc' => ?_
  obtain ⟨c, hc, hr⟩ := h.exists_of_mem hc'
  rw [h.classes_eq]
  exact hr.hollow?_eq_none (hsolid c hc)

end Union.Reordered

end SumLayout
