import SumLayout.Proofs.FieldNames
import SumLayout.Proofs.Reordering

/-!
# What lies in the overlap region

Whether there is an overlap region, and whether a case needs a region of its own within it, is
decided by a count that is made before anything is stored. The count goes over the declared values,
and what is stored is a walk of its own, under another classification if it turns out that there is
no region. **The two agree** (`overlap_of_allocate`): there is a region exactly if it is allowed and
two cases have leaves for it, and `Layout.OverlapShare` tells what each case has there, by the
number of its overlappable leaves.
-/

namespace SumLayout

namespace Case

/-- Whether the case has a leaf for the overlap region. -/
def overlaps (classOf : Shape → StorageClass) (c : Case) : Bool :=
  (c.leaves classOf).any (·.storage == .overlappable)

theorem overlapCounts_pos_iff {classOf : Shape → StorageClass} {c : Case} :
    0 < Value.overlapCounts classOf c.values ↔ c.overlaps classOf = true := by
  rw [Value.overlapCounts_eq_countP_leaves, List.countP_pos_iff, overlaps, List.any_eq_true]
  rfl

end Case

namespace Layout

variable {classOf : Shape → StorageClass} {overlapped : Bool} {done : List Case} {l l' : Layout}
  {c : Case} {cl : CaseLayout} {ts : List NodeTree} {i : Nat}

/-- The overlappable leaves of a case, in order of declaration. -/
def overlapLeaves (l : Layout) (cl : CaseLayout) : List Node :=
  (l.leafNodes cl.roots).filter Node.isOverlap

/-- What a case has in the overlap region. -/
structure OverlapShare (o : Options) (l : Layout) (c : Case) (cl : CaseLayout) : Prop where
  /-- There are as many overlappable leaves as were counted in advance. -/
  counted : (l.overlapLeaves cl).length = overlapCount o c
  empty : l.overlapLeaves cl = [] → cl.overlapField = none ∧ cl.regionFields = []
  /-- A single leaf lies directly in the overlap region. -/
  single : ∀ n, l.overlapLeaves cl = [n] → cl.region = none ∧ cl.regionFields = [] ∧
    ∃ id f, n.field = some id ∧ cl.overlapField = some id ∧
      l.fields[id]? = some f ∧ f.place = .inOverlap
  /-- Several leaves lie in a region of the case. -/
  several : 1 < (l.overlapLeaves cl).length →
    (l.overlapLeaves cl).map (·.field) = cl.regionFields.map some ∧
    ∃ region, cl.region = some region ∧ cl.overlapField = some region ∧
      l.fields[region]? = some (.caseRegion c.name) ∧
      ∀ id ∈ cl.regionFields, ∃ f, l.fields[id]? = some f ∧ f.place = .inRegion region
  /-- Overlappable leaves have no slots. -/
  inside : ∀ n ∈ l.overlapLeaves cl, ∃ id, n.field = some id ∧ id ∉ l.unionFields ∧
    id ∈ cl.inside
  /-- All other leaves have slots, and nothing in the overlap region. -/
  outside : ∀ n ∈ l.leafNodes cl.roots, n.isOverlap = false → ∃ id, n.field = some id ∧
    id ∈ l.unionFields ∧ ∀ d ∈ l.cases, id ∉ d.inside

/-! ## Regions of cases -/

/-- A case with fields in a region of its own has several, and the region is named after it. -/
def HasRegion (l : Layout) (c : Case) (cl : CaseLayout) : Prop :=
  cl.regionFields ≠ [] → 1 < cl.regionFields.length ∧
    ∃ region, cl.region = some region ∧ l.fields[region]? = some (.caseRegion c.name)

theorem HasRegion.mono (h : HasRegion l c cl) (hg : l.Grows l') : HasRegion l' c cl := by
  intro hne
  obtain ⟨hlen, region, hr, hf⟩ := h hne
  exact ⟨hlen, region, hr, hg.slots.inside hf (by simp [Field.caseRegion])⟩

theorem CaseAdded.hasRegion (step : CaseAdded classOf c ts l l') (h : l.Sound) :
    HasRegion l' c (l.caseLayout classOf c ts) := by
  intro hne
  have hs := (h.place classOf c).1
  have hneed : (c.scope classOf).needsRegion = true := by
    simpa using mt (h.regionFields_eq_nil_iff classOf c).mpr hne
  have hfields : (l.caseLayout classOf c ts).regionFields
      = (l.place classOf c).2.overlapLeaves := hs.regionFields.trans (if_pos hneed)
  have hlen : 1 < (l.place classOf c).2.overlapLeaves.length :=
    of_decide_eq_true ((h.needsRegion_place classOf c).symm.trans hneed)
  refine ⟨by rwa [hfields], ?_⟩
  -- the region was declared before the first of its fields
  obtain ⟨region, hr⟩ := Option.isSome_iff_exists.mp
    (hs.opened hneed fun he => hne (hfields.trans he))
  refine ⟨region, ?_, ?_⟩
  · rw [CaseLayout.region, if_neg (by simpa using hne)]
    show Layout.overlapField (l.place classOf c).2 = some region
    rw [Layout.overlapField, hr]
  · rw [step.fields]
    exact ((h.names_place classOf c).region hr).resolve_left (by simp [progress])

theorem Built.hasRegion (h : Built classOf overlapped done l) :
    List.Forall₂ (HasRegion l) done l.cases := by
  induction h with
  | start => exact List.Forall₂.nil
  | case before step ih =>
    rw [step.cases]
    exact List.rel_append (ih.imp fun _ _ hr => hr.mono (step.grows before.sound))
      (List.Forall₂.cons (step.hasRegion before.sound) List.Forall₂.nil)

theorem Built.hasRegion_at (h : Built classOf overlapped done l) (hc : done[i]? = some c)
    (hcl : l.cases[i]? = some cl) : HasRegion l c cl :=
  (List.forall₂_iff_zip.mp h.hasRegion).2
    (List.mem_of_getElem? (List.getElem?_zip_eq_some.mpr ⟨hc, hcl⟩))

/-! ## The leaves of a case -/

theorem Holds.overlapLeaves_eq (h : Holds classOf l c cl ts) :
    (l.overlapLeaves cl).map (·.field) = cl.leafFields.map some := by
  rw [Layout.overlapLeaves, h.leafNodes, h.overlapLeaves]

theorem Holds.length_overlapLeaves (h : Holds classOf l c cl ts) :
    (l.overlapLeaves cl).length = Value.overlapCounts classOf c.values := by
  rw [Layout.overlapLeaves, h.leafNodes, ← List.countP_eq_length_filter,
    Value.overlapCounts_eq_countP_leaves, ← h.stands.map_leaf, List.countP_map]
  rfl

theorem Holds.length_leafFields (h : Holds classOf l c cl ts) :
    cl.leafFields.length = (l.overlapLeaves cl).length := by
  have hlen := congrArg List.length h.overlapLeaves_eq
  rwa [List.length_map, List.length_map, eq_comm] at hlen

/-- Fields of a case in the overlap region are not slots. -/
theorem Built.inside_notMem_unionFields (h : Built classOf overlapped done l) (hcl : cl ∈ l.cases)
    {id : FieldId} (hid : id ∈ cl.inside) : id ∉ l.unionFields := by
  intro hslot
  have hnd := h.sound.nodup
  rw [List.nodup_append] at hnd
  exact hnd.2.2 id (List.mem_append_right _ hslot) id (List.mem_flatMap.mpr ⟨cl, hcl, hid⟩) rfl

/-- **What a case has in the overlap region follows from the number of its overlappable leaves.** -/
theorem Holds.overlapShare (h : Holds classOf l c cl ts) (hb : Built classOf overlapped done l)
    (hc : done[i]? = some c) (hcl : l.cases[i]? = some cl) {o : Options}
    (ho : Value.overlapCounts classOf c.values = overlapCount o c) : OverlapShare o l c cl := by
  have hmem : cl ∈ l.cases := List.mem_of_getElem? hcl
  have hregion := hb.hasRegion_at hc hcl
  have hlen := h.length_leafFields
  have hfields := h.overlapLeaves_eq
  -- the case has fields in a region exactly if it has several overlappable leaves
  have hsome : ∀ hne : cl.regionFields ≠ [], cl.leafFields = cl.regionFields := fun hne => by
    rw [CaseLayout.leafFields, if_neg (by simpa using hne)]
  have hnil : cl.regionFields = [] → cl.leafFields = cl.overlapField.toList := fun he => by
    rw [CaseLayout.leafFields, if_pos (by simpa using he)]
  have hfew : (l.overlapLeaves cl).length ≤ 1 → cl.regionFields = [] := fun hle => by
    by_contra hne
    rw [← hlen, hsome hne] at hle
    exact absurd (hregion hne).1 (by omega)
  refine ⟨h.length_overlapLeaves.trans ho, fun he => ?_, fun n he => ?_, fun hmany => ?_, ?_, ?_⟩
  · have hno := hfew (by simp [he])
    rw [hnil hno, he] at hfields
    exact ⟨by simpa using hfields.symm, hno⟩
  · have hno := hfew (by simp [he])
    rw [hnil hno, he, List.map_singleton] at hfields
    cases hown : cl.overlapField with
    | none => simp [hown] at hfields
    | some id =>
      obtain ⟨f, hf, -, hp⟩ := h.overlapField id hown
      refine ⟨by simp [CaseLayout.region, hno], hno, id, f, ?_, rfl, hf, hp⟩
      simpa [hown] using hfields
  · have hne : cl.regionFields ≠ [] := fun he => by
      rw [← hlen, hnil he] at hmany
      cases hown : cl.overlapField <;> simp [hown] at hmany
    obtain ⟨-, region, hr, hf⟩ := hregion hne
    have hown : cl.overlapField = some region := by
      rwa [CaseLayout.region, if_neg (by simpa using hne)] at hr
    refine ⟨hsome hne ▸ hfields, region, hr, hown, hf, fun id hid => ?_⟩
    obtain ⟨own, ho, f, hfid, -, hp⟩ := h.regionFields id hid
    obtain rfl : own = region := Option.some.inj (ho.symm.trans hown)
    exact ⟨f, hfid, hp⟩
  · intro n hn
    obtain ⟨id, hid, hf⟩ := List.mem_map.mp (hfields ▸ List.mem_map_of_mem hn)
    have hin := cl.leafFields_subset hid
    exact ⟨id, hf.symm, hb.inside_notMem_unionFields hmem hin, hin⟩
  · intro n hn hov
    obtain ⟨id, hslot, hf⟩ := h.slotLeaves n (h.leafNodes ▸ hn) hov
    exact ⟨id, hf, hslot, fun d hd hin => hb.inside_notMem_unionFields hd hin hslot⟩

/-! ## All cases -/

/-- Without an overlap region nothing overlaps. -/
theorem Built.ne_overlappable (h : Built classOf overlapped done l)
    (hno : ∀ s, classOf s ≠ .overlappable) {n : Node} (hn : n ∈ l.nodes) :
    n.storage ≠ .overlappable := by
  obtain ⟨id, hid⟩ := List.getElem?_of_mem hn
  obtain ⟨c, -, cl, -, ts, hts, hpre⟩ := h.exists_below hid
  obtain ⟨m, hm, hfit⟩ := hts.fitsClass hpre
  obtain rfl : n = m := Option.some.inj (hid.symm.trans hm)
  exact hfit.storage ▸ hno _

theorem hasOverlap_eq_true_iff {u : Union} {allowOverlap : Bool} :
    hasOverlap u allowOverlap = true ↔ allowOverlap = true ∧
      1 < u.cases.countP (Case.overlaps (.ofShape u.options true)) := by
  have hcount : u.cases.countP (fun c => decide (0 < overlapCount u.options c))
      = u.cases.countP (Case.overlaps (.ofShape u.options true)) :=
    List.countP_congr fun c _ => by
      rw [decide_eq_true_eq, overlapCount, Case.overlapCounts_pos_iff]
  rw [hasOverlap, Bool.and_eq_true, sharesOverlap, hcount, decide_eq_true_eq]

/-- **The overlap region is what was counted in advance.** It is there exactly if it is allowed and
at least two cases have leaves for it. Without it nothing overlaps; with it every case has there
exactly what the number of its overlappable leaves says. -/
theorem overlap_of_allocate {u : Union} {allowOverlap : Bool}
    (h : allocate u allowOverlap = .ok l) :
    (l.overlap.isSome = true ↔ allowOverlap = true ∧
      1 < u.cases.countP (Case.overlaps (.ofShape u.options true))) ∧
    (l.overlap = none → ∀ n ∈ l.nodes, n.storage ≠ .overlappable) ∧
    (l.overlap.isSome = true → ∀ (i : Nat) (c : Case), u.cases[i]? = some c →
      ∃ cl, l.cases[i]? = some cl ∧ OverlapShare u.options l c cl) := by
  have hb := (built_of_allocate h).2
  have hiff : l.overlap.isSome = true ↔ hasOverlap u allowOverlap = true := by
    rw [hb.overlap_eq]
    cases hasOverlap u allowOverlap <;> simp
  refine ⟨hiff.trans hasOverlap_eq_true_iff, fun hnone n hn => ?_, fun hsome i c hc => ?_⟩
  · refine hb.ne_overlappable (fun s => ?_) hn
    have hoff : hasOverlap u allowOverlap = false := by
      simpa [hnone] using mt hiff.mpr
    rw [classes, hoff]
    exact StorageClass.ofShape_false_ne_overlappable
  · obtain ⟨cl, ts, hcl, hts⟩ := hb.holds_at hc
    refine ⟨cl, hcl, hts.overlapShare hb hc hcl ?_⟩
    rw [classes, hiff.mp hsome, overlapCount]

theorem overlap_figures : ∃ l, allocate .figures true = .ok l ∧ l.overlap = some 0 ∧
    (∀ (i : Nat) (c : Case), Union.figures.cases[i]? = some c →
      ∃ cl, l.cases[i]? = some cl ∧ OverlapShare Union.figures.options l c cl) := by
  obtain ⟨l, hl, ho⟩ := allocate_figures
  exact ⟨l, hl, ho, (overlap_of_allocate hl).2.2 (by simp [ho])⟩

end Layout

end SumLayout
