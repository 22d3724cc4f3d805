import SumLayout.Layout.Selection
import SumLayout.Proofs.Cases

/-!
# Choosing a layout never fails on its own

Next to an overlap region fewer values are taken apart, so that a union that can be laid out without
a region can be laid out with one (`allocate_of_plain`). **The plain layout therefore decides
whether a union has a layout at all** (`select_of_ok`, `select_of_error`), and the only thing that
can be in the way is a value that is to be taken apart but has no members (`allocate_error`).
-/

namespace SumLayout

namespace Value

variable {coarse fine : Shape → StorageClass}

/-- If fewer shapes are taken apart, no part becomes hollow. -/
theorem hollowAll?_mono (h : ∀ s, coarse s = .decomposable → fine s = .decomposable)
    (vs : List Value) : ∀ {path : List String}, hollowAll? fine path vs = none →
    hollowAll? coarse path vs = none := by
  induction vs using forest_induction with
  | nil => exact fun _ => rfl
  | cons name type members vs ihm ih =>
    intro path hf
    by_cases hk : coarse type.shape = .decomposable
    · rw [hollowAll?_cons_composite (h _ hk), Option.or_eq_none_iff] at hf
      rw [hollowAll?_cons_composite hk, Option.or_eq_none_iff]
      refine ⟨?_, ih hf.2⟩
      split
      · next hm => rw [if_pos hm] at hf; exact absurd hf.1 (by simp)
      · next hm => rw [if_neg hm] at hf; exact ihm hf.1
    · -- whatever the value is in the finer classification, it is stored whole in the coarser one
      rw [hollowAll?_cons_leaf hk]
      by_cases hk' : fine type.shape = .decomposable
      · rw [hollowAll?_cons_composite hk', Option.or_eq_none_iff] at hf
        exact ih hf.2
      · rw [hollowAll?_cons_leaf hk'] at hf
        exact ih hf

end Value

namespace Layout

variable {u : Union} {allowOverlap : Bool}

/-- What is taken apart next to an overlap region is taken apart without one. -/
theorem decomposable_of_classes {s : Shape} (h : classes u allowOverlap s = .decomposable) :
    classes u false s = .decomposable := by
  rw [classes] at h ⊢
  cases hov : hasOverlap u allowOverlap with
  | false =>
    rw [hov] at h
    exact h
  | true =>
    rw [hov] at h
    exact StorageClass.decomposable_of_permitted h

/-- **A union that has a plain layout has an overlapped one.** -/
theorem allocate_of_plain {plain : Layout} (h : allocate u false = .ok plain)
    (allowOverlap : Bool) : ∃ l, allocate u allowOverlap = .ok l := by
  obtain ⟨hsolid, -⟩ := built_of_allocate h
  exact exists_allocate_iff.mpr fun c hc =>
    Value.hollowAll?_mono (fun _ => decomposable_of_classes) c.values (hsolid c hc)

/-- **A union without a layout has a value that is to be taken apart but has no members.** -/
theorem allocate_error {e : PlanError} (h : allocate u allowOverlap = .error e) :
    ∃ c ∈ u.cases, ∃ path shape, e = .invalidShape c.name path shape .noMembers := by
  cases hf : u.cases.findSome? (fun d =>
      (d.hollow? (classes u allowOverlap)).map fun h => (d, h)) with
  | none =>
    obtain ⟨l, hl, -⟩ := allocate_of_solid (hollow?_eq_none_of_findSome? hf)
    rw [hl] at h
    exact absurd h (by simp)
  | some r =>
    obtain ⟨c, path, shape⟩ := r
    rw [allocate_of_hollow hf, Except.error.injEq] at h
    obtain ⟨d, hd, hr⟩ := List.exists_of_findSome?_eq_some hf
    obtain ⟨q, -, hq⟩ := Option.map_eq_some_iff.mp hr
    rw [Prod.mk.injEq] at hq
    exact ⟨c, hq.1 ▸ hd, _, shape, h.symm⟩

theorem select_of_error {e : PlanError} (h : allocate u false = .error e) :
    select u = .error e := by
  rw [select, h]

/-- Whether the overlapped layout of a union is preferred to the plain one. -/
def prefersOverlap (u : Union) : Bool :=
  u.options.overlapStructs &&
    match allocate u false, allocate u true with
    | .ok plain, .ok overlapped => overlapped.fieldCount < plain.fieldCount
    | _, _ => false

/-- **The layout that is chosen is the preferred one.** -/
theorem select_eq (u : Union) : select u = allocate u (prefersOverlap u) := by
  cases ha : allocate u false with
  | error e =>
    have hp : prefersOverlap u = false := by rw [prefersOverlap, ha, Bool.and_false]
    rw [select_of_error ha, hp, ha]
  | ok plain =>
    obtain ⟨overlapped, ho⟩ := allocate_of_plain ha true
    rw [select, prefersOverlap, ha, ho]
    cases u.options.overlapStructs with
    | false => simp [ha]
    | true =>
      by_cases hless : overlapped.fieldCount < plain.fieldCount
      · simp [hless, ho]
      · simp [hless, ha]

/-- **A union with a plain layout has a best one.** -/
theorem select_of_ok {plain : Layout} (h : allocate u false = .ok plain) :
    ∃ l, select u = .ok l ∧ allocate u (prefersOverlap u) = .ok l := by
  obtain ⟨l, hl⟩ := allocate_of_plain h (prefersOverlap u)
  exact ⟨l, (select_eq u).trans hl, hl⟩

/-- **Choosing a layout fails exactly if the plain layout does**, and in the same way. -/
theorem select_error_iff {e : PlanError} : select u = .error e ↔ allocate u false = .error e := by
  constructor
  · intro h
    cases ha : allocate u false with
    | error e' => rw [← h, select_of_error ha]
    | ok plain =>
      obtain ⟨l, hl, -⟩ := select_of_ok ha
      exact absurd (h.symm.trans hl) (by simp)
  · exact select_of_error

end Layout

end SumLayout
