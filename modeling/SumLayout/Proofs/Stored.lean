import SumLayout.Proofs.Cases

/-!
# What a layout stores for each case

`Layout.Holds` says of a layout and one of its cases that the case's trees are in the arena, that
its overlappable leaves own the case's part of the overlap region, in order of declaration, that
every other leaf owns a slot, and that no two leaves share a field. Storing more cases does not
disturb it (`Holds.mono`), so it holds of every case of a finished layout (`Built.holds`).

The layout as a whole has each field in exactly one place (`Built.sound`), each node below exactly
one case (`Built.cover_nodes`) and each slot in use (`Built.used`).
-/

namespace SumLayout

/-- Whether the leaf lies in the overlap region. -/
def Node.isOverlap (n : Node) : Bool := n.storage == .overlappable

namespace CaseLayout

/-- Everything that the case has in the overlap region. -/
def inside (c : CaseLayout) : List FieldId := c.overlapField.toList ++ c.regionFields

/-- The fields of the case's overlappable leaves. -/
def leafFields (c : CaseLayout) : List FieldId :=
  if c.regionFields.isEmpty then c.overlapField.toList else c.regionFields

/-- The region of a case is all that the case has directly in the overlap region. -/
theorem region_eq_some_iff {c : CaseLayout} {id : FieldId} :
    c.region = some id ↔ c.regionFields ≠ [] ∧ c.overlapField = some id := by
  unfold region
  cases c.regionFields <;> simp

end CaseLayout

/-! ## Leaves and their requests -/

theorem filter_zipWith_node (q : StorageClass → Bool) (rs : List Request) (ids : List FieldId) :
    ((List.zipWith Request.node rs ids).filter fun n => q n.storage).map (·.field)
      = (fieldsOf (fun r => q r.storage) rs ids).map some := by
  induction rs generalizing ids with
  | nil => rfl
  | cons r rs ih =>
    cases ids with
    | nil => rfl
    | cons id ids =>
      rw [List.zipWith_cons_cons, List.filter_cons, fieldsOf_cons, List.map_append, ← ih ids]
      cases hq : q r.storage with
      | true => simp [Request.node, hq]
      | false => simp [Request.node, hq]

theorem map_field_zipWith_node {rs : List Request} {ids : List FieldId}
    (h : ids.length = rs.length) :
    (List.zipWith Request.node rs ids).map (·.field) = ids.map some := by
  induction rs generalizing ids with
  | nil => rw [List.eq_nil_of_length_eq_zero h]; rfl
  | cons r rs ih =>
    cases ids with
    | nil => simp at h
    | cons id ids =>
      rw [List.zipWith_cons_cons, List.map_cons, ih (Nat.succ.inj h), List.map_cons]
      rfl

namespace Progress

variable {c : CaseScope} {overlap : Option FieldId} {placed : List FieldId} {p : Progress}

/-- A case that needed a region has one, and a case that did not has a single leaf or none. -/
theorem Sound.overlapField_eq (h : p.Sound c overlap placed)
    (hn : c.needsRegion = decide (1 < p.overlapLeaves.length)) (roots : List NodeId) :
    (CaseLayout.mk roots (Layout.overlapField p) p.regionFields).inside = p.inside ∧
      (CaseLayout.mk roots (Layout.overlapField p) p.regionFields).leafFields
        = p.overlapLeaves := by
  have hfields := h.regionFields
  cases hneed : c.needsRegion with
  | true =>
    rw [hneed] at hn
    have hlen : 1 < p.overlapLeaves.length := of_decide_eq_true hn.symm
    have hne : p.overlapLeaves ≠ [] := fun he => by simp [he] at hlen
    obtain ⟨region, hr⟩ := Option.isSome_iff_exists.mp (h.opened hneed hne)
    rw [hneed, if_pos rfl] at hfields
    simp [CaseLayout.inside, CaseLayout.leafFields, Layout.overlapField, inside, hr, hfields, hne]
  | false =>
    rw [hneed] at hn
    have hlen : ¬1 < p.overlapLeaves.length := of_decide_eq_false hn.symm
    have hr := h.unopened hneed
    rw [hneed, if_neg (by simp)] at hfields
    rcases hl : p.overlapLeaves with _ | ⟨leaf, _ | ⟨_, _⟩⟩
    · simp [CaseLayout.inside, CaseLayout.leafFields, Layout.overlapField, inside, hr, hfields, hl]
    · simp [CaseLayout.inside, CaseLayout.leafFields, Layout.overlapField, inside, hr, hfields, hl]
    · exact absurd (by simp [hl]) hlen

/-- What a case contributes to the overlap region is declared there. -/
theorem Sound.exists_overlapField (h : p.Sound c overlap placed) {id : FieldId}
    (hid : Layout.overlapField p = some id) :
    ∃ f, p.slots.fields[id]? = some f ∧ f.argument = none ∧ f.place = .inOverlap := by
  rw [Layout.overlapField] at hid
  cases hr : p.region with
  | some region =>
    rw [hr] at hid
    exact h.region id (hr ▸ hid)
  | none =>
    -- without a region it is the only leaf, and leaves are then directly in the overlap region
    have hplace : p.leafPlace = .inOverlap := by rw [leafPlace, hr]
    rw [← hplace]
    refine h.leaves id ?_
    rcases hl : p.overlapLeaves with _ | ⟨leaf, _ | ⟨_, _⟩⟩
    · simp [hr, hl] at hid
    · simpa [hr, hl, eq_comm] using hid
    · simp [hr, hl] at hid

/-- The fields in the region of a case are declared in it. -/
theorem Sound.exists_regionField (h : p.Sound c overlap placed) {id : FieldId}
    (hid : id ∈ p.regionFields) : ∃ region, Layout.overlapField p = some region ∧
      ∃ f, p.slots.fields[id]? = some f ∧ f.argument = none ∧ f.place = .inRegion region := by
  rw [h.regionFields] at hid
  cases hneed : c.needsRegion with
  | false =>
    rw [hneed] at hid
    exact absurd hid (by simp)
  | true =>
    rw [hneed, if_pos rfl] at hid
    obtain ⟨region, hr⟩ :=
      Option.isSome_iff_exists.mp (h.opened hneed (List.ne_nil_of_mem hid))
    obtain ⟨f, hf, ha, hp⟩ := h.leaves id hid
    refine ⟨region, ?_, f, hf, ha, ?_⟩
    · rw [Layout.overlapField, hr]
    · rw [hp, leafPlace, hr]

/-- No two requests of a case are given the same field. -/
theorem Sound.nodup_ids (h : p.Sound c overlap placed) {rs : List Request} {ids : List FieldId}
    (hlen : ids.length = rs.length) (hl : p.overlapLeaves = fieldsOf Request.isOverlap rs ids)
    (hc : p.slots.claims = (fieldsOf (fun r => !r.isOverlap) rs ids).reverse) : ids.Nodup := by
  refine (fieldsOf_append_perm Request.isOverlap hlen).nodup_iff.mp ?_
  have hall := h.slots.nodup
  -- overlappable leaves have fields inside the overlap region, and all others have slots
  rw [inside, List.nodup_append] at hall
  obtain ⟨hout, hin, hdisj⟩ := hall
  rw [← hl, List.nodup_append]
  refine ⟨(List.nodup_append.mp (List.nodup_append.mp hin).2.1).2.1, ?_, ?_⟩
  · have hn := h.slots.claims_nodup
    rwa [hc, List.nodup_reverse] at hn
  · intro a ha b hb
    have hslot : b ∈ p.slots.slots := h.slots.claims_subset b (by rw [hc]; simpa using hb)
    exact (hdisj b (List.mem_append_right _ hslot) a
      (List.mem_append_right _ (List.mem_append_right _ ha))).symm

end Progress

namespace Layout

variable {classOf : Shape → StorageClass}

/-- What a layout holds of a case whose values have become the trees `ts`. -/
structure Holds (classOf : Shape → StorageClass) (l : Layout) (c : Case) (cl : CaseLayout)
    (ts : List NodeTree) : Prop where
  roots : cl.roots = ts.map NodeTree.id
  rooted : NodeTree.RootedAll l.nodes ts
  stands : Value.StandsAll classOf [] c.values ts
  overlapLeaves : ((NodeTree.leavesAll ts).filter Node.isOverlap).map (·.field)
    = cl.leafFields.map some
  slotLeaves : ∀ n ∈ NodeTree.leavesAll ts, n.isOverlap = false →
    ∃ id ∈ l.unionFields, n.field = some id
  nodup : ((NodeTree.leavesAll ts).map (·.field)).Nodup
  overlapField : ∀ id ∈ cl.overlapField,
    ∃ f, l.fields[id]? = some f ∧ f.argument = none ∧ f.place = .inOverlap
  regionFields : ∀ id ∈ cl.regionFields, ∃ region ∈ cl.overlapField,
    ∃ f, l.fields[id]? = some f ∧ f.argument = none ∧ f.place = .inRegion region

/-- What storing more cases does not undo. -/
structure Grows (l l' : Layout) : Prop where
  slots : l.progress.slots.Grows l'.progress.slots
  nodes : l.nodes <+: l'.nodes

/-- What is held of a case is held of it when more cases are stored. -/
theorem Holds.mono {l l' : Layout} {c : Case} {cl : CaseLayout} {ts : List NodeTree}
    (h : Holds classOf l c cl ts) (hg : l.Grows l') : Holds classOf l' c cl ts where
  roots := h.roots
  rooted := by
    obtain ⟨more, hm⟩ := hg.nodes
    rw [← hm]
    exact h.rooted.append
  stands := h.stands
  overlapLeaves := h.overlapLeaves
  slotLeaves n hn ho := by
    obtain ⟨id, hid, hf⟩ := h.slotLeaves n hn ho
    exact ⟨id, hg.slots.mem_slots hid, hf⟩
  nodup := h.nodup
  overlapField id hid := by
    obtain ⟨f, hf, ha, hp⟩ := h.overlapField id hid
    exact ⟨f, hg.slots.inside hf (by simp [hp]), ha, hp⟩
  regionFields id hid := by
    obtain ⟨region, hr, f, hf, ha, hp⟩ := h.regionFields id hid
    exact ⟨region, hr, f, hg.slots.inside hf (by simp [hp]), ha, hp⟩

section Walks

variable {l : Layout} {c : Case} {cl : CaseLayout} {ts : List NodeTree}

theorem Holds.forest (h : Holds classOf l c cl ts) : l.forest cl.roots = ts := by
  rw [h.roots, forest_of_rooted h.rooted]

theorem Holds.preorder (h : Holds classOf l c cl ts) :
    l.preorder cl.roots = NodeTree.idsAll ts := by
  rw [h.roots, preorder_of_rooted h.rooted]

theorem Holds.leafNodes (h : Holds classOf l c cl ts) :
    l.leafNodes cl.roots = NodeTree.leavesAll ts := by
  rw [h.roots, leafNodes_of_rooted h.rooted]

end Walks

/-! ## One more case -/

/-- The fields of a layout are sound: each is in one place. -/
def Sound (l : Layout) : Prop :=
  l.progress.slots.Sound l.overlap (l.cases.flatMap CaseLayout.inside)

section Step

variable {l l' : Layout} {c : Case} {ts : List NodeTree}

/-- What serving the requests of a case does to a sound layout. -/
theorem Sound.place (h : l.Sound) (classOf : Shape → StorageClass) (c : Case) :
    (l.place classOf c).2.Sound (c.scope classOf) l.overlap (l.cases.flatMap CaseLayout.inside) ∧
      l.progress.AllPlaced (c.requests classOf) (l.place classOf c).1 (l.place classOf c).2 :=
  (Progress.sound_newCase h l.nodes).placeAll (c.requests classOf)

theorem length_place (classOf : Shape → StorageClass) (l : Layout) (c : Case) :
    (l.place classOf c).1.length = (c.requests classOf).length :=
  Progress.length_placeAll _ _

theorem Sound.overlapLeaves_place (h : l.Sound) (classOf : Shape → StorageClass) (c : Case) :
    (l.place classOf c).2.overlapLeaves
      = fieldsOf Request.isOverlap (c.requests classOf) (l.place classOf c).1 :=
  (h.place classOf c).2.leaves

theorem Sound.claims_place (h : l.Sound) (classOf : Shape → StorageClass) (c : Case) :
    (l.place classOf c).2.slots.claims = (fieldsOf (fun r => !r.isOverlap)
      (c.requests classOf) (l.place classOf c).1).reverse := by
  rw [(h.place classOf c).2.claims]
  exact List.append_nil _

/-- A region is needed exactly if there turn out to be several overlappable leaves. -/
theorem Sound.needsRegion_place (h : l.Sound) (classOf : Shape → StorageClass) (c : Case) :
    (c.scope classOf).needsRegion
      = decide (1 < (l.place classOf c).2.overlapLeaves.length) := by
  rw [Case.needsRegion_scope, h.overlapLeaves_place, length_fieldsOf _ (length_place classOf l c)]

/-- The case owns what it was given in the overlap region. -/
theorem Sound.inside_caseLayout (h : l.Sound) (classOf : Shape → StorageClass) (c : Case)
    (ts : List NodeTree) :
    (l.caseLayout classOf c ts).inside = (l.place classOf c).2.inside ∧
      (l.caseLayout classOf c ts).leafFields = (l.place classOf c).2.overlapLeaves :=
  (h.place classOf c).1.overlapField_eq (h.needsRegion_place classOf c) _

theorem CaseAdded.grows (step : CaseAdded classOf c ts l l') (h : l.Sound) : l.Grows l' where
  slots := by
    rw [progress, progress, step.fields, step.unionFields]
    have hg := (h.place classOf c).2.grows
    exact ⟨hg.slots, hg.field⟩
  nodes := by
    obtain ⟨added, hn, -⟩ := step.nodes
    exact ⟨added, hn.symm⟩

/-- **A sound layout stays sound when a case is stored in it.** -/
theorem CaseAdded.sound (step : CaseAdded classOf c ts l l') (h : l.Sound) : l'.Sound := by
  have hs := (h.place classOf c).1
  have hslots := hs.slots
  rw [← (h.inside_caseLayout classOf c ts).1] at hslots
  rw [Sound, progress, step.fields, step.unionFields, step.overlap, step.cases,
    List.flatMap_append, List.flatMap_singleton]
  exact ⟨hslots.cover, hslots.onUnion, List.nodup_nil, fun _ hid => absurd hid List.not_mem_nil⟩

/-- The leaves that are not overlapped have claimed slots. -/
theorem CaseAdded.slotLeaves (step : CaseAdded classOf c ts l l') (h : l.Sound)
    (hleaves : NodeTree.leavesAll ts
      = List.zipWith Request.node (c.requests classOf) (l.place classOf c).1) {n : Node}
    (hn : n ∈ NodeTree.leavesAll ts) (ho : n.isOverlap = false) :
    ∃ id ∈ l'.unionFields, n.field = some id := by
  have hsplit := filter_zipWith_node (fun s => !(s == StorageClass.overlappable))
    (c.requests classOf) (l.place classOf c).1
  rw [← hleaves] at hsplit
  have hf : n.field ∈ (fieldsOf (fun r => !r.isOverlap) (c.requests classOf)
      (l.place classOf c).1).map some := by
    refine hsplit ▸ List.mem_map_of_mem (List.mem_filter.mpr ⟨hn, ?_⟩)
    simpa [Node.isOverlap] using ho
  obtain ⟨id, hid, hfid⟩ := List.mem_map.mp hf
  refine ⟨id, ?_, hfid.symm⟩
  rw [step.unionFields]
  refine (h.place classOf c).1.slots.claims_subset id ?_
  rw [h.claims_place classOf c]
  exact List.mem_reverse.mpr hid

/-- **A case is held by the layout that it has just been stored in.** -/
theorem CaseAdded.holds (step : CaseAdded classOf c ts l l') (h : l.Sound) :
    Holds classOf l' c (l.caseLayout classOf c ts) ts := by
  have hs := (h.place classOf c).1
  have hlen := length_place classOf l c
  obtain ⟨added, hn, hst⟩ := step.nodes
  have hleaves : NodeTree.leavesAll ts
      = List.zipWith Request.node (c.requests classOf) (l.place classOf c).1 := hst.leaves
  refine ⟨rfl, hn ▸ hst.rooted, hst.stands, ?_, fun n => step.slotLeaves h hleaves, ?_, ?_, ?_⟩
  · rw [hleaves, (h.inside_caseLayout classOf c ts).2, h.overlapLeaves_place]
    exact filter_zipWith_node (· == .overlappable) _ _
  · rw [hleaves, map_field_zipWith_node hlen]
    exact (hs.nodup_ids hlen (h.overlapLeaves_place classOf c) (h.claims_place classOf c)).map
      fun _ _ he => Option.some.inj he
  · intro id hid
    rw [step.fields]
    exact hs.exists_overlapField hid
  · intro id hid
    rw [step.fields]
    exact hs.exists_regionField hid

end Step

/-! ## Finished layouts -/

theorem sound_start (overlapped : Bool) : (start overlapped).Sound := by
  cases overlapped with
  | true =>
    refine ⟨List.Perm.refl _, ?_, List.nodup_nil, fun _ hid => absurd hid List.not_mem_nil⟩
    intro id hid
    have hzero : id = 0 := by simpa [start, progress] using hid
    subst hzero
    exact ⟨_, rfl, rfl, rfl⟩
  | false =>
    refine ⟨List.Perm.refl _, ?_, List.nodup_nil, fun _ hid => absurd hid List.not_mem_nil⟩
    intro id hid
    exact absurd hid (by simp [start, progress])

section Run

variable {overlapped : Bool} {done : List Case} {l : Layout}

/-- **Each field of a layout is in exactly one place.** -/
theorem Built.sound (h : Built classOf overlapped done l) : l.Sound := by
  induction h with
  | start => exact sound_start overlapped
  | case _ step ih => exact step.sound ih

/-- **A layout holds every case that is stored in it.** -/
theorem Built.holds (h : Built classOf overlapped done l) :
    List.Forall₂ (fun c cl => ∃ ts, Holds classOf l c cl ts) done l.cases := by
  induction h with
  | start => exact List.Forall₂.nil
  | case before step ih =>
    rw [step.cases]
    have hold := step.holds before.sound
    refine List.rel_append (ih.imp ?_) (List.Forall₂.cons ⟨_, hold⟩ List.Forall₂.nil)
    rintro c cl ⟨ts, hts⟩
    exact ⟨ts, hts.mono (step.grows before.sound)⟩

theorem Built.holds_at (h : Built classOf overlapped done l) {i : Nat} {c : Case}
    (hc : done[i]? = some c) :
    ∃ cl ts, l.cases[i]? = some cl ∧ Holds classOf l c cl ts := by
  have hlt : i < l.cases.length := h.length_cases ▸ (List.getElem?_eq_some_iff.mp hc).1
  have hcl := List.getElem?_eq_getElem hlt
  obtain ⟨ts, hts⟩ := (List.forall₂_iff_zip.mp h.holds).2
    (List.mem_of_getElem? (List.getElem?_zip_eq_some.mpr ⟨hc, hcl⟩))
  exact ⟨_, ts, hcl, hts⟩

theorem Built.holds_of_mem (h : Built classOf overlapped done l) {cl : CaseLayout}
    (hcl : cl ∈ l.cases) : ∃ c ∈ done, ∃ ts, Holds classOf l c cl ts := by
  obtain ⟨i, hi⟩ := List.getElem?_of_mem hcl
  have hlt : i < done.length := h.length_cases ▸ (List.getElem?_eq_some_iff.mp hi).1
  obtain ⟨cl', ts, hcl', hts⟩ := h.holds_at (List.getElem?_eq_getElem hlt)
  rw [hi, Option.some.injEq] at hcl'
  exact ⟨done[i], List.getElem_mem hlt, ts, hcl' ▸ hts⟩

/-- **Each node of a layout is below exactly one case.** -/
theorem Built.cover_nodes (h : Built classOf overlapped done l) :
    (l.cases.flatMap fun cl => l.preorder cl.roots).Perm (List.range l.nodes.length) := by
  induction h with
  | start => exact List.Perm.refl _
  | @case done l l' c ts before step ih =>
    -- what is below the cases that there are does not change
    have hsame : ∀ cl ∈ l.cases, l'.preorder cl.roots = l.preorder cl.roots := by
      intro cl hcl
      obtain ⟨_, _, us, hus⟩ := before.holds_of_mem hcl
      rw [hus.preorder, (hus.mono (step.grows before.sound)).preorder]
    obtain ⟨added, hn, hst⟩ := step.nodes
    have hrange : List.range l'.nodes.length
        = List.range l.nodes.length ++ List.range' l.nodes.length added.length := by
      rw [hn, List.length_append, List.range_eq_range', List.range_eq_range',
        ← List.range'_append_1, Nat.zero_add]
    rw [step.cases, List.flatMap_append, List.flatMap_singleton, hrange,
      (step.holds before.sound).preorder, List.flatMap_congr hsame]
    exact ih.append hst.ids

/-- The node at a position is below a case. -/
theorem Built.exists_below (h : Built classOf overlapped done l) {id : NodeId} {n : Node}
    (hn : l.nodes[id]? = some n) :
    ∃ c ∈ done, ∃ cl ∈ l.cases, ∃ ts, Holds classOf l c cl ts ∧ id ∈ l.preorder cl.roots := by
  have hmem : id ∈ l.cases.flatMap fun cl => l.preorder cl.roots :=
    h.cover_nodes.mem_iff.mpr (List.mem_range.mpr (List.getElem?_eq_some_iff.mp hn).1)
  obtain ⟨cl, hcl, hid⟩ := List.mem_flatMap.mp hmem
  obtain ⟨c, hc, ts, hts⟩ := h.holds_of_mem hcl
  exact ⟨c, hc, cl, hcl, ts, hts, hid⟩

/-- **Each slot stores a leaf.** -/
theorem Built.used (h : Built classOf overlapped done l) :
    ∀ id ∈ l.unionFields, ∃ cl ∈ l.cases, ∃ n ∈ l.leafNodes cl.roots, n.field = some id := by
  induction h with
  | start => exact fun id hid => absurd hid List.not_mem_nil
  | @case done l l' c ts before step ih =>
    intro id hid
    rw [step.unionFields] at hid
    rcases (before.sound.place classOf c).2.slots id hid with hid | hid
    · obtain ⟨cl, hcl, n, hn, hf⟩ := ih id hid
      obtain ⟨_, _, us, hus⟩ := before.holds_of_mem hcl
      refine ⟨cl, ?_, n, ?_, hf⟩
      · rw [step.cases]
        exact List.mem_append_left _ hcl
      · rwa [(hus.mono (step.grows before.sound)).leafNodes, ← hus.leafNodes]
    · -- a slot that was not there before was declared for a leaf of the case
      have hids : id ∈ (l.place classOf c).1 := by
        rw [before.sound.claims_place, List.mem_reverse] at hid
        exact (fieldsOf_append_perm Request.isOverlap (length_place classOf l c)).subset
          (List.mem_append_right _ hid)
      obtain ⟨added, -, hst⟩ := step.nodes
      have hfield : some id ∈ (NodeTree.leavesAll ts).map (·.field) := by
        rw [hst.leaves]
        exact (map_field_zipWith_node (length_place classOf l c)).symm ▸ List.mem_map_of_mem hids
      obtain ⟨n, hn, hf⟩ := List.mem_map.mp hfield
      refine ⟨l.caseLayout classOf c ts, ?_, n, ?_, hf⟩
      · rw [step.cases]
        exact List.mem_append_right _ (List.mem_singleton.mpr rfl)
      · rwa [(step.holds before.sound).leafNodes]

end Run

end Layout

end SumLayout
