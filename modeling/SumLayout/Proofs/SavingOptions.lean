import SumLayout.Proofs.SlotsNeeded
import SumLayout.Proofs.WithoutOverlap

/-!
# Options that save storage

Four options let values share storage: fields shared by type, fields shared by references, the
overlap region, and the overlap region for data declared elsewhere. First fit does not always make
good use of what it may share. Even so, if each type name stands for one shape (`Union.OneShape`),
**switching such an option on never costs a field**, and it never makes a union fail or stop failing
(`fieldCount_select_saving`).

Layouts are compared through their closed form. A layout of a union whose names stand for one shape
has the slots that its leaves need and one field for the region, if it has one
(`fieldCount_of_oneShape`). So it is enough to find, for the layout without the option, one with it
that does not need more:

* sharing options leave every value where it is and only change which pool it draws from
  (`StorageClass.ofShape_shareSameType`, `StorageClass.ofShape_shareReferences`);
* overlapping foreign data moves leaves, or whole composites, into the region
  (`StorageClass.ofShape_overlapForeign`), unless there was no region, and then the plain layout is
  left as it was (`StorageClass.ofShape_false_overlapForeign`);
* without overlapping there is nothing but the plain layout, which is a candidate with it, too.
-/

namespace SumLayout

/-! ## Names that stand for one shape -/

namespace Value

mutual

/-- The types in a value, its own and those of its members to any depth. -/
def types : Value → List ValueType
  | ⟨_, type, members⟩ => type :: typesAll members

/-- The types in some values. -/
def typesAll : List Value → List ValueType
  | [] => []
  | v :: vs => v.types ++ typesAll vs

end

/-- What is hollow depends only on what is taken apart. -/
theorem hollowAll?_congr {classOf classOf' : Shape → StorageClass}
    (h : ∀ s, classOf s = .decomposable ↔ classOf' s = .decomposable) (vs : List Value) :
    ∀ {path : List String}, hollowAll? classOf path vs = hollowAll? classOf' path vs := by
  induction vs using forest_induction with
  | nil => exact rfl
  | cons name type members vs ihm ih =>
    intro path
    by_cases hk : classOf type.shape = .decomposable
    · rw [hollowAll?_cons_composite hk, hollowAll?_cons_composite ((h _).mp hk), ihm, ih]
    · rw [hollowAll?_cons_leaf hk, hollowAll?_cons_leaf (mt (h _).mpr hk), ih]

/-- A leaf has the name of a type in the values, and is stored as the shape of that type says. -/
theorem exists_type_of_mem_leavesAll {classOf : Shape → StorageClass} {x : Leaf} (vs : List Value) :
    x ∈ leavesAll classOf vs → ∃ t ∈ typesAll vs, x = ⟨classOf t.shape, t.name⟩ := by
  induction vs using forest_induction with
  | nil => exact fun hx => absurd hx List.not_mem_nil
  | cons name type members vs ihm ih =>
    intro hx
    rw [leavesAll, leaves, List.mem_append] at hx
    rw [typesAll, types]
    rcases hx with hx | hx
    · split at hx
      · obtain ⟨t, ht, he⟩ := ihm hx
        exact ⟨t, List.mem_append_left _ (List.mem_cons_of_mem _ ht), he⟩
      · exact ⟨type, List.mem_append_left _ List.mem_cons_self, List.mem_singleton.mp hx⟩
    · obtain ⟨t, ht, he⟩ := ih hx
      exact ⟨t, List.mem_append_right _ ht, he⟩

end Value

namespace Union

/-- The types in the values of all cases. -/
def types (u : Union) : List ValueType := u.cases.flatMap fun c => Value.typesAll c.values

/-- Each type name stands for a single shape, and the name of any reference for the shape of any
object. -/
structure OneShape (u : Union) : Prop where
  shape : ∀ s ∈ u.types, ∀ t ∈ u.types, s.name = t.name → s.shape = t.shape
  anyReference : ∀ t ∈ u.types, t.name = Field.anyReference → t.shape = .object

/-- What names stand for is not a matter of options. -/
theorem OneShape.setOption {u : Union} (h : u.OneShape) (t : Toggle) (on : Bool) :
    (u.setOption t on).OneShape := ⟨h.shape, h.anyReference⟩

end Union

namespace StorageClass

variable {o : Options} {permitted : Bool} {s : Shape}

/-- Objects are references wherever there are references. -/
theorem ofShape_object_of_reference (h : ofShape o permitted s = .reference) :
    ofShape o permitted .object = .reference := by
  have hshare : o.shareReferences = true := by
    simp only [ofShape] at h
    exact ((downgrade_eq_iff (by decide) (by decide)).mp
      ((downgrade_eq_iff (by decide) (by decide)).mp h).1).2 rfl
  simp [ofShape, candidate, downgrade, hshare]

end StorageClass

namespace Layout

variable {u : Union} {b : Bool} {l : Layout}

/-- **If names stand for one shape, the types in every layout are separated.** -/
theorem separated_of_oneShape (h : u.OneShape) (hl : allocate u b = .ok l) : l.Separated := by
  have htype : ∀ x ∈ (u.cases.map (Case.leaves (classes u b))).flatten,
      ∃ t ∈ u.types, x = ⟨classes u b t.shape, t.name⟩ := by
    intro x hx
    obtain ⟨xs, hxs, hx⟩ := List.mem_flatten.mp hx
    obtain ⟨c, hc, rfl⟩ := List.mem_map.mp hxs
    obtain ⟨t, ht, he⟩ := Value.exists_type_of_mem_leavesAll c.values hx
    exact ⟨t, List.mem_flatMap.mpr ⟨c, hc, ht⟩, he⟩
  rw [Separated, leafKinds_of_allocate hl]
  intro x hx y hy hsame href
  obtain ⟨s, hs, rfl⟩ := htype x hx
  obtain ⟨t, ht, rfl⟩ := htype y hy
  constructor
  · intro hname
    simp only at hsame href hname
    rw [h.shape s hs t ht hname, href] at hsame
    exact absurd hsame (by decide)
  · intro hname
    simp only at hsame href hname
    rw [h.anyReference s hs hname, classes, StorageClass.ofShape_object_of_reference href] at hsame
    exact absurd hsame (by decide)

/-- **The number of fields in closed form**, if names stand for one shape. -/
theorem fieldCount_of_oneShape (h : u.OneShape) (hl : allocate u b = .ok l) :
    l.fieldCount = Leaf.slotsNeeded (u.cases.map (Case.leaves (classes u b)))
      + (if hasOverlap u b then 1 else 0) := by
  have hb := (built_of_allocate hl).2
  rw [fieldCount, hb.length_unionFields (separated_of_oneShape h hl), leafKinds_of_allocate hl,
    hb.overlap_eq]
  cases hasOverlap u b <;> rfl

/-! ## Unions that are laid out alike -/

section Alike

variable {u' : Union} {b' : Bool}

/-- A layout depends on the cases, their classes and whether there is a region. -/
theorem allocate_congr (hcases : u'.cases = u.cases) (hoverlap : hasOverlap u' b' = hasOverlap u b)
    (hclass : classes u' b' = classes u b) : allocate u' b' = allocate u b := by
  rw [allocate_eq, allocate_eq, hcases, hoverlap, hclass]

/-- Allocation fails alike if the same shapes are taken apart. -/
theorem allocate_error_congr (hcases : u'.cases = u.cases)
    (hparts : ∀ s, classes u' b' s = .decomposable ↔ classes u b s = .decomposable) {e : PlanError}
    (h : allocate u b = .error e) : allocate u' b' = .error e := by
  have hhollow : ∀ c : Case, c.hollow? (classes u' b') = c.hollow? (classes u b) := fun c =>
    Value.hollowAll?_congr hparts c.values
  cases hf : u.cases.findSome? (fun d =>
      (d.hollow? (classes u b)).map fun h => (d, h)) with
  | none =>
    obtain ⟨l, hl, -⟩ := allocate_of_solid (hollow?_eq_none_of_findSome? hf)
    exact absurd (h.symm.trans hl) (by simp)
  | some r =>
    obtain ⟨c, q, s⟩ := r
    rw [← h, allocate_of_hollow hf]
    refine allocate_of_hollow ?_
    simp only [hcases, hhollow, hf]

end Alike

/-- Without overlapping, a region is never needed. -/
theorem allocate_of_overlapStructs_off (h : u.options.overlapStructs = false) :
    allocate u true = allocate u false := by
  have hzero : ∀ c, overlapCount u.options c = 0 := by
    refine fun c => Value.overlapCounts_eq_zero (fun s hs => ?_) c.values
    have hon := (StorageClass.ofShape_eq_overlappable_iff.mp hs).2.2
    rw [h] at hon
    exact absurd hon (by decide)
  have hnone : hasOverlap u true = hasOverlap u false := by
    simp [hasOverlap, sharesOverlap, hzero]
  refine allocate_congr rfl hnone ?_
  rw [classes, classes, hnone]

/-- **The layout that is chosen has at most as many fields as either.** -/
theorem fieldCount_select_le {m : Layout} (hl : select u = .ok l) (hm : allocate u b = .ok m) :
    l.fieldCount ≤ m.fieldCount := by
  cases b with
  | false => exact fieldCount_le_of_select hl hm
  | true =>
    cases hon : u.options.overlapStructs with
    | false =>
      rw [allocate_of_overlapStructs_off hon] at hm
      exact fieldCount_le_of_select hl hm
    | true =>
      rw [select, hm, hon] at hl
      cases hp : allocate u false with
      | error e =>
        rw [hp] at hl
        exact absurd hl (by simp)
      | ok plain =>
        simp only [hp, if_true, Except.ok.injEq] at hl
        subst hl
        split
        · exact Nat.le_refl _
        · next hge => exact Nat.le_of_not_lt hge

/-! ## Comparing the layouts that are chosen -/

/-- Both unions have a layout or neither has, and for each layout of `off` there is one of `on` with
no more fields. -/
structure Saves (off on : Union) : Prop where
  fails : ∀ e, allocate off false = .error e ↔ allocate on false = .error e
  covers : ∀ b l, allocate off b = .ok l →
    ∃ b' l', allocate on b' = .ok l' ∧ l'.fieldCount ≤ l.fieldCount

/-- **Of two unions of which one saves, both can be laid out or neither can**, and the layout that
is chosen for the one has no more fields. -/
theorem Saves.select {off on : Union} (h : Saves off on) :
    (∀ e, select off = .error e ↔ select on = .error e) ∧
      ∀ l l', select off = .ok l → select on = .ok l' → l'.fieldCount ≤ l.fieldCount := by
  refine ⟨fun e => ?_, fun l l' hl hl' => ?_⟩
  · rw [select_error_iff, select_error_iff, h.fails]
  · rw [select_eq] at hl
    obtain ⟨b', m, hm, hle⟩ := h.covers _ l hl
    exact (fieldCount_select_le hl' hm).trans hle

end Layout

/-! ## Sharing by type and by reference -/

namespace StorageClass

variable {k lesser c : StorageClass}

theorem downgrade_allowed (k lesser c : StorageClass) : downgrade k lesser true c = c := by
  simp [downgrade]

/-- Sharing less does not change what is overlapped and what is taken apart. -/
theorem SharesLess.downgrade_iff (h : k.SharesLess lesser) :
    (downgrade k lesser false c = .overlappable ↔ c = .overlappable) ∧
      (downgrade k lesser false c = .decomposable ↔ c = .decomposable) := by
  cases h <;> simp [downgrade_eq_iff]

/-- **Without sharing by type, what would be shared by type is stored alone.** -/
theorem ofShape_shareSameType (o : Options) (permitted : Bool) (s : Shape) :
    ofShape (o.set .shareSameType false) permitted s
      = downgrade .sameType .unique false (ofShape (o.set .shareSameType true) permitted s) := by
  have hon : ofShape (o.set .shareSameType true) permitted s
      = downgrade .sameType .unique true (candidate o permitted s
          |> downgrade .overlappable .sameType (permitted && o.overlapStructs)
          |> downgrade .decomposable .sameType o.decomposeStructs
          |> downgrade .reference .sameType o.shareReferences) := rfl
  rw [hon, downgrade_allowed]
  rfl

/-- **Without sharing by reference, references are shared by type**, or stored alone if that is off
as well. -/
theorem ofShape_shareReferences (o : Options) (permitted : Bool) (s : Shape) :
    ofShape (o.set .shareReferences false) permitted s
      = downgrade .reference (if o.shareSameType then .sameType else .unique) false
          (ofShape (o.set .shareReferences true) permitted s) := by
  have hset : ∀ on, ofShape (o.set .shareReferences on) permitted s
      = downgrade .sameType .unique o.shareSameType (downgrade .reference .sameType on
          (candidate o permitted s
            |> downgrade .overlappable .sameType (permitted && o.overlapStructs)
            |> downgrade .decomposable .sameType o.decomposeStructs)) := fun _ => rfl
  rw [hset, hset, downgrade_allowed]
  generalize downgrade .decomposable .sameType o.decomposeStructs _ = c
  cases o.shareSameType with
  | true => rw [downgrade_allowed, downgrade_allowed, if_pos rfl]
  | false => cases c <;> rfl

end StorageClass

namespace Value

variable {classOf : Shape → StorageClass} {k lesser : StorageClass}

/-- Sharing less leaves values where they are. -/
theorem leavesAll_downgrade (h : k.SharesLess lesser) (vs : List Value) :
    leavesAll (fun s => .downgrade k lesser false (classOf s)) vs
      = (leavesAll classOf vs).map (Leaf.downgraded k lesser) := by
  induction vs using forest_induction with
  | nil => rfl
  | cons name type members vs ihm ih =>
    rw [leavesAll, leaves, leavesAll, leaves, List.map_append, ihm, ih]
    by_cases hk : classOf type.shape = .decomposable
    · rw [if_pos hk, if_pos (h.downgrade_iff.2.mpr hk)]
    · rw [if_neg hk, if_neg (mt h.downgrade_iff.2.mp hk), List.map_singleton, Leaf.downgraded]

theorem overlapCounts_downgrade (h : k.SharesLess lesser) (vs : List Value) :
    overlapCounts (fun s => .downgrade k lesser false (classOf s)) vs =
      overlapCounts classOf vs := by
  rw [overlapCounts_eq_countP_leaves, overlapCounts_eq_countP_leaves, leavesAll_downgrade h,
    List.countP_map]
  refine List.countP_congr fun x _ => ?_
  simp [Leaf.downgraded, h.downgrade_iff.1]

end Value

namespace Layout

/-- **A union that shares less is laid out alike, with at least as many fields.** -/
theorem saves_of_sharesLess {off on : Union} (hone : on.OneShape) (hcases : off.cases = on.cases)
    {k lesser : StorageClass} (hk : k.SharesLess lesser)
    (hclass : ∀ permitted s, StorageClass.ofShape off.options permitted s
      = .downgrade k lesser false (.ofShape on.options permitted s)) : Saves off on := by
  have hcount : ∀ c, overlapCount off.options c = overlapCount on.options c := by
    intro c
    rw [overlapCount, funext (hclass true)]
    exact Value.overlapCounts_downgrade hk c.values
  have hoverlap : ∀ b, hasOverlap off b = hasOverlap on b := by
    intro b
    rw [hasOverlap, hasOverlap, sharesOverlap, sharesOverlap, hcases]
    simp only [hcount]
  have hclasses : ∀ b, classes off b = fun s => .downgrade k lesser false (classes on b s) := by
    intro b
    rw [classes, hoverlap]
    exact funext (hclass _)
  have hparts : ∀ b s, classes off b s = .decomposable ↔ classes on b s = .decomposable := by
    intro b s
    rw [hclasses]
    exact hk.downgrade_iff.2
  refine ⟨fun e => ⟨?_, ?_⟩, fun b l hl => ?_⟩
  · exact allocate_error_congr hcases.symm fun s => (hparts false s).symm
  · exact allocate_error_congr hcases (hparts false)
  · have honeOff : off.OneShape := by
      have htypes : off.types = on.types := by rw [Union.types, Union.types, hcases]
      exact ⟨htypes ▸ hone.shape, htypes ▸ hone.anyReference⟩
    cases hm : allocate on b with
    | error e =>
      have he := allocate_error_congr hcases (hparts b) hm
      exact absurd (hl.symm.trans he) (by simp)
    | ok m =>
      refine ⟨b, m, hm, ?_⟩
      have hmap : off.cases.map (Case.leaves (classes off b))
          = (on.cases.map (Case.leaves (classes on b))).map
              (List.map (Leaf.downgraded k lesser)) := by
        rw [hcases, List.map_map, hclasses]
        exact List.map_congr_left fun c _ => Value.leavesAll_downgrade hk c.values
      have hsep := separated_of_oneShape hone hm
      rw [Separated, leafKinds_of_allocate hm] at hsep
      rw [fieldCount_of_oneShape hone hm, fieldCount_of_oneShape honeOff hl, hmap, hoverlap]
      exact Nat.add_le_add_right
        (Leaf.slotsNeeded_le_downgraded hk (Case.ne_decomposable_of_mem_leaves _) hsep) _

end Layout

/-! ## Overlapping data declared elsewhere -/

namespace StorageClass

/-- Without a region it makes no difference whether foreign data may overlap. -/
theorem ofShape_false_overlapForeign (o : Options) (on : Bool) :
    ofShape (o.set .overlapForeignStructs on) false = ofShape o false := by
  -- what cannot overlap is shared by type, and that is where the candidate goes without a region
  have hforeign : ∀ c : Bool, downgrade .overlappable .sameType false
      (if c then .overlappable else .sameType) = .sameType := by decide
  funext s
  cases s with
  | overlapSafeForeignStruct | overlapSafeForeignRecord =>
    simp only [ofShape, candidate, Bool.false_and, hforeign]
    rfl
  | overlapDecomposableForeignRecord =>
    simp only [ofShape, candidate, Bool.and_false]
    rfl
  | _ => rfl

/-- **With foreign data overlapping, a shape overlaps or is stored as before.** -/
theorem ofShape_overlapForeign (o : Options) (s : Shape) :
    ofShape (o.set .overlapForeignStructs true) true s = .overlappable ∨
      ofShape (o.set .overlapForeignStructs true) true s
        = ofShape (o.set .overlapForeignStructs false) true s := by
  cases hon : o.overlapStructs with
  | true =>
    have hset : (o.set .overlapForeignStructs true).overlapStructs = true := hon
    cases s with
    | overlapSafeForeignStruct | overlapSafeForeignRecord =>
      exact .inl (ofShape_eq_overlappable_iff.mpr ⟨rfl, rfl, hset⟩)
    | overlapDecomposableForeignRecord =>
      refine .inl (ofShape_eq_overlappable_iff.mpr ⟨?_, rfl, hset⟩)
      simp only [candidate, hset]
      rfl
    | _ => exact .inr rfl
  | false =>
    have hset : ∀ on, (o.set .overlapForeignStructs on).overlapStructs = false := fun _ => hon
    right
    cases s with
    | overlapSafeForeignStruct | overlapSafeForeignRecord =>
      simp only [ofShape, candidate, hset, Bool.and_false]
      rfl
    | overlapDecomposableForeignRecord =>
      simp only [ofShape, candidate, hset, Bool.false_and]
      rfl
    | _ => rfl

end StorageClass

namespace Value

variable {coarse fine : Shape → StorageClass}

/-- Values that overlap, or are stored as before, demand no more slots. -/
theorem demand_leavesAll_le (h : ∀ s, coarse s = .overlappable ∨ coarse s = fine s) (p : Pool)
    (vs : List Value) :
    Leaf.demand (leavesAll coarse vs) p ≤ Leaf.demand (leavesAll fine vs) p := by
  induction vs using forest_induction with
  | nil => exact Nat.le_refl _
  | cons name type members vs ihm ih =>
    rw [leavesAll, leaves, leavesAll, leaves, Leaf.demand_append, Leaf.demand_append]
    refine Nat.add_le_add ?_ ih
    rcases h type.shape with hs | hs
    · simp [hs, Leaf.demand, Leaf.pool?]
    · rw [hs]
      split
      · exact ihm
      · exact Nat.le_refl _

/-- Values of which some overlap still do if more of them overlap. -/
theorem overlapCounts_pos (h : ∀ s, coarse s = .overlappable ∨ coarse s = fine s)
    (vs : List Value) : 0 < overlapCounts fine vs → 0 < overlapCounts coarse vs := by
  induction vs using forest_induction with
  | nil => exact id
  | cons name type members vs ihm ih =>
    intro hpos
    rcases h type.shape with hs | hs
    · rw [overlapCounts_cons_leaf (by simp [hs]), if_pos hs]
      omega
    · by_cases hk : fine type.shape = .decomposable
      · rw [overlapCounts_cons_composite hk] at hpos
        rw [overlapCounts_cons_composite (hs.trans hk)]
        omega
      · rw [overlapCounts_cons_leaf hk] at hpos
        rw [overlapCounts_cons_leaf (hs ▸ hk), hs]
        omega

end Value

namespace Layout

variable {u : Union}

/-- **Overlapping foreign data saves.** -/
theorem saves_overlapForeign (h : u.OneShape) :
    Saves (u.setOption .overlapForeignStructs false) (u.setOption .overlapForeignStructs true) := by
  have hshape := StorageClass.ofShape_overlapForeign u.options
  -- the plain layouts are the same
  have hplain : ∀ on, allocate (u.setOption .overlapForeignStructs on) false = allocate u false :=
    fun on => allocate_congr rfl rfl (StorageClass.ofShape_false_overlapForeign u.options on)
  refine ⟨fun e => by rw [hplain, hplain], fun b l hl => ?_⟩
  cases hoff : hasOverlap (u.setOption .overlapForeignStructs false) b with
  | false =>
    have hsame : allocate (u.setOption .overlapForeignStructs false) b
        = allocate (u.setOption .overlapForeignStructs false) false := by
      refine allocate_congr rfl hoff ?_
      rw [classes, hoff]
      rfl
    rw [hsame, hplain, ← hplain true] at hl
    exact ⟨false, l, hl, Nat.le_refl _⟩
  | true =>
    obtain ⟨rfl, hmany⟩ := Bool.and_eq_true_iff.mp hoff
    have hon : hasOverlap (u.setOption .overlapForeignStructs true) true = true := by
      rw [hasOverlap, Bool.true_and]
      rw [sharesOverlap, decide_eq_true_eq] at hmany ⊢
      refine lt_of_lt_of_le hmany (List.countP_mono_left fun c _ hc => ?_)
      rw [decide_eq_true_eq] at hc ⊢
      exact Value.overlapCounts_pos hshape c.values hc
    have hclasses : ∀ s, classes (u.setOption .overlapForeignStructs true) true s = .overlappable ∨
        classes (u.setOption .overlapForeignStructs true) true s
          = classes (u.setOption .overlapForeignStructs false) true s := by
      rw [classes, classes, hon, hoff]
      exact hshape
    have hparts : ∀ s, classes (u.setOption .overlapForeignStructs true) true s = .decomposable →
        classes (u.setOption .overlapForeignStructs false) true s = .decomposable := by
      intro s hs
      rcases hclasses s with ho | ho
      · exact absurd (hs.symm.trans ho) (by decide)
      · exact ho ▸ hs
    obtain ⟨m, hm, -⟩ := allocate_of_solid fun c hc =>
      Value.hollowAll?_mono hparts c.values ((built_of_allocate hl).1 c hc)
    refine ⟨true, m, hm, ?_⟩
    rw [fieldCount_of_oneShape (h.setOption _ _) hm, fieldCount_of_oneShape (h.setOption _ _) hl,
      hon, hoff]
    refine Nat.add_le_add_right (Leaf.slotsNeeded_le_of_demand_le
      (Case.ne_decomposable_of_mem_leaves _) (Case.ne_decomposable_of_mem_leaves _) ?_) _
    rw [List.forall₂_map_left_iff, List.forall₂_map_right_iff]
    exact List.forall₂_same.mpr fun c _ p => Value.demand_leavesAll_le hclasses p c.values

/-- **Sharing by type saves.** -/
theorem saves_shareSameType (h : u.OneShape) :
    Saves (u.setOption .shareSameType false) (u.setOption .shareSameType true) :=
  saves_of_sharesLess (h.setOption _ _) rfl .single (StorageClass.ofShape_shareSameType u.options)

/-- **Sharing by reference saves.** -/
theorem saves_shareReferences (h : u.OneShape) :
    Saves (u.setOption .shareReferences false) (u.setOption .shareReferences true) := by
  refine saves_of_sharesLess (h.setOption _ _) rfl ?_
    (StorageClass.ofShape_shareReferences u.options)
  cases u.options.shareSameType with
  | true => exact .referenceByType
  | false => exact .singleReference

/-- **Overlapping saves**, whatever names stand for, since the plain layout remains. -/
theorem saves_overlapStructs (u : Union) :
    Saves (u.setOption .overlapStructs false) (u.setOption .overlapStructs true) := by
  have hplain : allocate (u.setOption .overlapStructs false) false
      = allocate (u.setOption .overlapStructs true) false :=
    allocate_withoutOverlap (u.setOption .overlapStructs true)
  refine ⟨fun e => by rw [hplain], fun b l hl => ⟨false, l, ?_, Nat.le_refl _⟩⟩
  rw [← hplain, ← hl]
  cases b with
  | false => rfl
  | true => exact (allocate_of_overlapStructs_off rfl).symm

end Layout

/-- The options that let values share storage. -/
def Toggle.saving : List Toggle :=
  [shareSameType, shareReferences, overlapStructs, overlapForeignStructs]

namespace Layout

/-- **Options that save storage never cost fields.** If each type name stands for a single shape,
switching one of them on, whatever the others are, leaves a union with a layout or without one as
before, and the layout that is chosen does not get more fields. -/
theorem fieldCount_select_saving {u : Union} (h : u.OneShape) {t : Toggle}
    (ht : t ∈ Toggle.saving) :
    (∀ e, select (u.setOption t false) = .error e ↔ select (u.setOption t true) = .error e) ∧
      ∀ l l', select (u.setOption t false) = .ok l → select (u.setOption t true) = .ok l' →
        l'.fieldCount ≤ l.fieldCount := by
  refine Saves.select ?_
  simp only [Toggle.saving, List.mem_cons, List.not_mem_nil, or_false] at ht
  rcases ht with rfl | rfl | rfl | rfl
  · exact saves_shareSameType h
  · exact saves_shareReferences h
  · exact saves_overlapStructs u
  · exact saves_overlapForeign h

theorem fieldCount_select_figures : Union.figures.OneShape ∧ .overlapStructs ∈ Toggle.saving ∧
    ∃ l l', select (Union.figures.setOption .overlapStructs false) = .ok l ∧
      select (Union.figures.setOption .overlapStructs true) = .ok l' ∧
      l.fieldCount = 6 ∧ l'.fieldCount ≤ 6 := by
  have hone : Union.figures.OneShape := ⟨by decide, by decide⟩
  have hsaving : Toggle.overlapStructs ∈ Toggle.saving := by decide
  have hsolid : ∀ c ∈ (Union.figures.setOption .overlapStructs false).cases,
      c.hollow? (classes (Union.figures.setOption .overlapStructs false) false) = none := by
    decide
  obtain ⟨l, hl, -⟩ := allocate_of_solid hsolid
  obtain ⟨l', hl', -⟩ := select_of_ok (u := Union.figures.setOption .overlapStructs true)
    ((allocate_withoutOverlap _).symm.trans hl)
  have hcount : l.fieldCount = 6 := by
    rw [fieldCount_of_oneShape (hone.setOption _ _) hl]
    have hleaves : (Union.figures.setOption .overlapStructs false).cases.map
          (Case.leaves (classes (Union.figures.setOption .overlapStructs false) false))
        = [[⟨.sameType, "double"⟩],
          [⟨.sameType, "int"⟩, ⟨.sameType, "int"⟩, ⟨.reference, "string"⟩],
          [⟨.reference, "string"⟩], [⟨.sameType, "T"⟩, ⟨.sameType, "T"⟩], []] := rfl
    rw [hleaves]
    simp [Leaf.slotsNeeded, Leaf.sharedTypes, hasOverlap]
  have hsel := (select_withoutOverlap (Union.figures.setOption .overlapStructs true)).trans
    ((allocate_withoutOverlap _).symm.trans hl)
  exact ⟨hone, hsaving, l, l', hsel, hl', hcount,
    hcount ▸ (fieldCount_select_saving hone hsaving).2 l l' hsel hl'⟩

end Layout

end SumLayout
