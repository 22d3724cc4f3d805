import SumLayout.Proofs.Stored

/-!
# Well-formed layouts

`Layout.WellFormed` collects what a layout promises to everyone who reads it: where fields are
declared, which nodes have fields, that the leaves of a case do not share fields, that no field is
wasted, and that the way to every leaf is known. **Every layout that allocation gives is well
formed** (`wellFormed_of_allocate`).

The way to the field of a leaf depends on whose it is: a slot is reached directly, the only
overlappable leaf of a case through the overlap region, and one of several through the case's own
region as well (`Layout.Route`).
-/

namespace SumLayout

/-- The number of fields on the way to a field, itself included. -/
def Place.depth : Place → Nat
  | onUnion => 1
  | inOverlap => 2
  | inRegion _ => 3

namespace Layout

/-- What a layout promises. -/
structure WellFormed (l : Layout) : Prop where
  /-- Each field is in exactly one place: it is the overlap region, a slot, the field of one case in
  the overlap region, or one of the fields in the region of one case. -/
  places : (l.overlap.toList ++ l.unionFields ++ l.cases.flatMap CaseLayout.inside).Perm
    (List.range l.fields.length)
  onUnion : ∀ id f, l.fields[id]? = some f →
    (f.place = .onUnion ↔ l.overlap = some id ∨ id ∈ l.unionFields)
  inOverlap : ∀ id f, l.fields[id]? = some f →
    (f.place = .inOverlap ↔ ∃ c ∈ l.cases, c.overlapField = some id)
  inRegion : ∀ id f region, l.fields[id]? = some f →
    (f.place = .inRegion region ↔ ∃ c ∈ l.cases, c.region = some region ∧ id ∈ c.regionFields)
  /-- The constructor has an argument for what is on the union. -/
  argument : ∀ id f, l.fields[id]? = some f →
    (f.argument.isSome = true ↔ l.overlap = some id ∨ id ∈ l.unionFields)
  /-- Each node is below exactly one case. -/
  nodes : (l.cases.flatMap fun c => l.preorder c.roots).Perm (List.range l.nodes.length)
  hasField : ∀ n ∈ l.nodes, n.field.isSome = true ↔ n.storage ≠ .decomposable
  /-- A node's field is a slot or belongs to the node's own case. -/
  own : ∀ c ∈ l.cases, ∀ m ∈ l.preorder c.roots, ∀ n, l.nodes[m]? = some n → ∀ id ∈ n.field,
    id ∈ l.unionFields ∨ c.overlapField = some id ∨ id ∈ c.regionFields
  /-- The leaves of a case do not share fields. -/
  nodup : ∀ c ∈ l.cases, ((l.leafNodes c.roots).map (·.field)).Nodup
  /-- What is not a region stores a leaf. -/
  used : ∀ id < l.fields.length, l.overlap ≠ some id → (∀ c ∈ l.cases, c.region ≠ some id) →
    ∃ c ∈ l.cases, ∃ n ∈ l.leafNodes c.roots, n.field = some id
  /-- The way to a leaf is as long as the place of its field says. -/
  path : ∀ c ∈ l.cases, ∀ n ∈ l.leafNodes c.roots, ∃ id f, n.field = some id ∧
    l.fields[id]? = some f ∧
    ∀ caseName, ∃ path, l.pathTo id caseName = .ok path ∧ path.length = f.place.depth

variable {classOf : Shape → StorageClass} {overlapped : Bool} {done : List Case} {l : Layout}

/-! ## Where a field is declared -/

theorem Built.place_overlapField (h : Built classOf overlapped done l) {cl : CaseLayout}
    (hcl : cl ∈ l.cases) {id : FieldId} (hid : cl.overlapField = some id) {f : Field}
    (hf : l.fields[id]? = some f) : f.place = .inOverlap ∧ f.argument = none := by
  obtain ⟨c, -, ts, hts⟩ := h.holds_of_mem hcl
  obtain ⟨g, hg, ha, hp⟩ := hts.overlapField id hid
  rw [hf, Option.some.injEq] at hg
  subst hg
  exact ⟨hp, ha⟩

theorem Built.place_regionFields (h : Built classOf overlapped done l) {cl : CaseLayout}
    (hcl : cl ∈ l.cases) {id : FieldId} (hid : id ∈ cl.regionFields) {f : Field}
    (hf : l.fields[id]? = some f) :
    ∃ region, cl.region = some region ∧ f.place = .inRegion region ∧ f.argument = none := by
  obtain ⟨c, -, ts, hts⟩ := h.holds_of_mem hcl
  obtain ⟨region, hr, g, hg, ha, hp⟩ := hts.regionFields id hid
  rw [hf, Option.some.injEq] at hg
  subst hg
  exact ⟨region, CaseLayout.region_eq_some_iff.mpr ⟨List.ne_nil_of_mem hid, hr⟩, hp, ha⟩

theorem Built.place_onUnion (h : Built classOf overlapped done l) {id : FieldId}
    (hid : l.overlap = some id ∨ id ∈ l.unionFields) {f : Field} (hf : l.fields[id]? = some f) :
    f.place = .onUnion ∧ f.argument.isSome = true := by
  have hmem : id ∈ l.overlap.toList ++ l.progress.slots.slots := by
    rw [List.mem_append, Option.mem_toList]
    exact hid
  obtain ⟨g, hg, hp, ha⟩ := h.sound.onUnion id hmem
  rw [progress, hf, Option.some.injEq] at hg
  subst hg
  exact ⟨hp, ha⟩

/-- **A field is on the union, in the overlap region or in the region of a case**, and is listed
there. -/
theorem Built.place_cases (h : Built classOf overlapped done l) {id : FieldId} {f : Field}
    (hf : l.fields[id]? = some f) :
    (l.overlap = some id ∨ id ∈ l.unionFields) ∨
      (∃ c ∈ l.cases, c.overlapField = some id) ∨ ∃ c ∈ l.cases, id ∈ c.regionFields := by
  have hid : id ∈ List.range l.fields.length :=
    List.mem_range.mpr (List.getElem?_eq_some_iff.mp hf).1
  have hmem := h.sound.cover.mem_iff.mpr hid
  simp only [progress, List.mem_append, Option.mem_toList, List.mem_flatMap,
    CaseLayout.inside] at hmem
  rcases hmem with hmem | ⟨c, hc, hmem⟩
  · exact Or.inl hmem
  · rcases hmem with hmem | hmem
    · exact Or.inr (Or.inl ⟨c, hc, hmem⟩)
    · exact Or.inr (Or.inr ⟨c, hc, hmem⟩)

theorem Built.place_eq_onUnion_iff (h : Built classOf overlapped done l) {id : FieldId}
    {f : Field} (hf : l.fields[id]? = some f) :
    f.place = .onUnion ↔ l.overlap = some id ∨ id ∈ l.unionFields := by
  refine ⟨fun hp => ?_, fun hid => (h.place_onUnion hid hf).1⟩
  rcases h.place_cases hf with hid | ⟨c, hc, hid⟩ | ⟨c, hc, hid⟩
  · exact hid
  · exact absurd ((h.place_overlapField hc hid hf).1.symm.trans hp) (by simp)
  · obtain ⟨region, -, hq, -⟩ := h.place_regionFields hc hid hf
    exact absurd (hq.symm.trans hp) (by simp)

theorem Built.place_eq_inOverlap_iff (h : Built classOf overlapped done l) {id : FieldId}
    {f : Field} (hf : l.fields[id]? = some f) :
    f.place = .inOverlap ↔ ∃ c ∈ l.cases, c.overlapField = some id := by
  refine ⟨fun hp => ?_, fun ⟨c, hc, hid⟩ => (h.place_overlapField hc hid hf).1⟩
  rcases h.place_cases hf with hid | hid | ⟨c, hc, hid⟩
  · exact absurd ((h.place_onUnion hid hf).1.symm.trans hp) (by simp)
  · exact hid
  · obtain ⟨region, -, hq, -⟩ := h.place_regionFields hc hid hf
    exact absurd (hq.symm.trans hp) (by simp)

theorem Built.place_eq_inRegion_iff (h : Built classOf overlapped done l) {id region : FieldId}
    {f : Field} (hf : l.fields[id]? = some f) : f.place = .inRegion region ↔
      ∃ c ∈ l.cases, c.region = some region ∧ id ∈ c.regionFields := by
  constructor
  · intro hp
    rcases h.place_cases hf with hid | ⟨c, hc, hid⟩ | ⟨c, hc, hid⟩
    · exact absurd ((h.place_onUnion hid hf).1.symm.trans hp) (by simp)
    · exact absurd ((h.place_overlapField hc hid hf).1.symm.trans hp) (by simp)
    · obtain ⟨own, hown, hq, -⟩ := h.place_regionFields hc hid hf
      rw [hp, Place.inRegion.injEq] at hq
      exact ⟨c, hc, hq ▸ hown, hid⟩
  · rintro ⟨c, hc, hown, hid⟩
    obtain ⟨own, hown', hq, -⟩ := h.place_regionFields hc hid hf
    rw [hown, Option.some.injEq] at hown'
    exact hown' ▸ hq

theorem Built.argument_isSome_iff (h : Built classOf overlapped done l) {id : FieldId}
    {f : Field} (hf : l.fields[id]? = some f) :
    f.argument.isSome = true ↔ l.overlap = some id ∨ id ∈ l.unionFields := by
  refine ⟨fun ha => ?_, fun hid => (h.place_onUnion hid hf).2⟩
  rcases h.place_cases hf with hid | ⟨c, hc, hid⟩ | ⟨c, hc, hid⟩
  · exact hid
  · exact absurd ha (by simp [(h.place_overlapField hc hid hf).2])
  · obtain ⟨region, -, -, hnone⟩ := h.place_regionFields hc hid hf
    exact absurd ha (by simp [hnone])

/-! ## The way to a leaf -/

/-- The way to the field of a leaf of a case. -/
inductive Route (l : Layout) (cl : CaseLayout) : FieldId → List FieldId → Prop
  | slot {id : FieldId} (mem : id ∈ l.unionFields) : Route l cl id [id]
  | promoted {id overlap : FieldId} (region : l.overlap = some overlap)
    (noFields : cl.regionFields = []) (field : cl.overlapField = some id) :
    Route l cl id [overlap, id]
  | region {id overlap own : FieldId} (region : l.overlap = some overlap)
    (field : cl.overlapField = some own) (mem : id ∈ cl.regionFields) :
    Route l cl id [overlap, own, id]

/-- The way to a leaf ends at a field. -/
theorem Built.exists_field (h : Built classOf overlapped done l) {cl : CaseLayout}
    (hcl : cl ∈ l.cases) {id : FieldId} {path : List FieldId} (hr : Route l cl id path) :
    ∃ f, l.fields[id]? = some f := by
  have hmem : id ∈ l.overlap.toList ++ l.unionFields ++ l.cases.flatMap CaseLayout.inside := by
    simp only [List.mem_append, List.mem_flatMap, CaseLayout.inside, Option.mem_toList]
    cases hr with
    | slot mem => exact Or.inl (Or.inr mem)
    | promoted _ _ field => exact Or.inr ⟨cl, hcl, Or.inl field⟩
    | region _ _ mem => exact Or.inr ⟨cl, hcl, Or.inr mem⟩
  have hlt : id < l.fields.length := List.mem_range.mp (h.sound.cover.mem_iff.mp hmem)
  exact ⟨_, List.getElem?_eq_getElem hlt⟩

/-- The way that a layout finds is the one there is. -/
theorem Route.pathTo (h : Built classOf overlapped done l) {cl : CaseLayout} (hcl : cl ∈ l.cases)
    {id : FieldId} {path : List FieldId} (hr : Route l cl id path) {f : Field}
    (hf : l.fields[id]? = some f) :
    path.length = f.place.depth ∧ ∀ caseName, l.pathTo id caseName = .ok path := by
  cases hr with
  | slot mem =>
    have hp := (h.place_onUnion (Or.inr mem) hf).1
    simp [Layout.pathTo, pathTo?, hf, hp, mem, Place.depth]
  | promoted region _ field =>
    have hp := (h.place_overlapField hcl field hf).1
    have hany : l.cases.any (·.overlapField == some id) = true :=
      List.any_eq_true.mpr ⟨cl, hcl, by simp [field]⟩
    simp [Layout.pathTo, pathTo?, hf, hp, region, hany, Place.depth]
  | @region overlap own region field mem =>
    obtain ⟨own', hown, hp, -⟩ := h.place_regionFields hcl mem hf
    obtain rfl : own' = own :=
      Option.some.inj ((CaseLayout.region_eq_some_iff.mp hown).2.symm.trans field)
    have hany : l.cases.any (fun c => c.overlapField == some own' && c.regionFields.contains id)
        = true := List.any_eq_true.mpr ⟨cl, hcl, by simp [field, mem]⟩
    simp only [Layout.pathTo, pathTo?, hf, hp, region, hany, Place.depth, Option.map_some,
      Option.bind_some, if_true]
    exact ⟨rfl, fun _ => trivial⟩

end Layout

namespace Value

variable {classOf : Shape → StorageClass} {nodes : List Node}

/-- A node that stands for a part of a value has its class, and has a field unless it is taken
apart. -/
structure FitsClass (classOf : Shape → StorageClass) (n : Node) : Prop where
  storage : n.storage = classOf n.type.shape
  field : n.field.isSome = true ↔ n.storage ≠ .decomposable

theorem StandsAll.fitsClass {path : List String} {vs : List Value} {ts : List NodeTree}
    (h : StandsAll classOf path vs ts) : NodeTree.RootedAll nodes ts →
    ∀ id ∈ NodeTree.idsAll ts, ∃ n, nodes[id]? = some n ∧ FitsClass classOf n := by
  induction h with
  | nil => exact fun _ id hid => absurd hid List.not_mem_nil
  | leaf whole node field _ ih =>
    rintro ⟨⟨hn, -⟩, hrs⟩ id hid
    rw [NodeTree.idsAll, List.mem_append] at hid
    rcases hid with hid | hid
    · rw [List.mem_singleton.mp hid]
      refine ⟨_, hn, by rw [node.storage, node.type], ?_⟩
      rw [node.storage]
      exact iff_of_true field whole
    · exact ih hrs id hid
  | composite parts node field _ _ ihm ih =>
    rintro ⟨⟨hn, -, -, hinner⟩, hrs⟩ id hid
    rw [NodeTree.idsAll, NodeTree.ids, List.mem_append, List.mem_cons] at hid
    rcases hid with (rfl | hid) | hid
    · refine ⟨_, hn, by rw [node.storage, node.type], ?_⟩
      rw [node.storage, field, parts]
      simp
    · exact ihm hinner id hid
    · exact ih hrs id hid

end Value

namespace Layout

variable {classOf : Shape → StorageClass} {overlapped : Bool} {done : List Case} {l : Layout}
  {c : Case} {cl : CaseLayout} {ts : List NodeTree}

theorem Holds.fitsClass (h : Holds classOf l c cl ts) {id : NodeId}
    (hid : id ∈ l.preorder cl.roots) :
    ∃ n, l.nodes[id]? = some n ∧ Value.FitsClass classOf n :=
  h.stands.fitsClass h.rooted id (h.preorder ▸ hid)

theorem Holds.mem_leaves (h : Holds classOf l c cl ts) {n : Node} :
    n ∈ NodeTree.leavesAll ts ↔
      (∃ id ∈ l.preorder cl.roots, l.nodes[id]? = some n) ∧ n.isLeaf = true := by
  rw [← h.rooted.leavesAll_eq, List.mem_filter, List.mem_filterMap, h.preorder]

theorem Holds.fitsClass_of_mem (h : Holds classOf l c cl ts) {n : Node}
    (hn : n ∈ NodeTree.leavesAll ts) : Value.FitsClass classOf n := by
  obtain ⟨⟨id, hid, hnode⟩, -⟩ := h.mem_leaves.mp hn
  obtain ⟨m, hm, hfit⟩ := h.fitsClass hid
  rw [hnode, Option.some.injEq] at hm
  exact hm ▸ hfit

/-- What a layout relies on in a classification: leaves are overlapped only if there is an overlap
region, and what is taken apart can be put together again. -/
structure Suits (classOf : Shape → StorageClass) (l : Layout) : Prop where
  overlap : ∀ s, classOf s = .overlappable → l.overlap.isSome = true
  composite : ∀ s, classOf s = .decomposable → s.isRecord = true ∨ s.isTuple = true

/-- Only leaves of one class lie in the overlap region. -/
theorem Holds.classOf_eq_overlappable (h : Holds classOf l c cl ts) {n : Node}
    (hn : n ∈ NodeTree.leavesAll ts) (ho : n.isOverlap = true) :
    classOf n.type.shape = .overlappable := by
  rw [← (h.fitsClass_of_mem hn).storage]
  simpa [Node.isOverlap] using ho

/-- An overlappable leaf has one of the fields of its case in the overlap region. -/
theorem Holds.exists_leafField (h : Holds classOf l c cl ts) {n : Node}
    (hn : n ∈ NodeTree.leavesAll ts) (ho : n.isOverlap = true) :
    ∃ id ∈ cl.leafFields, n.field = some id := by
  have hmem : n.field ∈ cl.leafFields.map some :=
    h.overlapLeaves ▸ List.mem_map_of_mem (List.mem_filter.mpr ⟨hn, ho⟩)
  obtain ⟨id, hid, hf⟩ := List.mem_map.mp hmem
  exact ⟨id, hid, hf.symm⟩

/-- A field of a case in the overlap region that is not a region has an overlappable leaf. -/
theorem Holds.exists_overlapLeaf (h : Holds classOf l c cl ts) {id : FieldId}
    (hid : id ∈ cl.leafFields) :
    ∃ n ∈ l.leafNodes cl.roots, n.isOverlap = true ∧ n.field = some id := by
  have hmem : some id ∈ ((NodeTree.leavesAll ts).filter Node.isOverlap).map (·.field) :=
    h.overlapLeaves ▸ List.mem_map_of_mem hid
  obtain ⟨n, hn, hf⟩ := List.mem_map.mp hmem
  obtain ⟨hn, ho⟩ := List.mem_filter.mp hn
  exact ⟨n, h.leafNodes ▸ hn, ho, hf⟩

theorem Holds.exists_leaf (h : Holds classOf l c cl ts) {id : FieldId}
    (hid : id ∈ cl.leafFields) : ∃ n ∈ l.leafNodes cl.roots, n.field = some id := by
  obtain ⟨n, hn, -, hf⟩ := h.exists_overlapLeaf hid
  exact ⟨n, hn, hf⟩

/-- **There is a way to every leaf.** -/
theorem Holds.route (h : Holds classOf l c cl ts) (hs : Suits classOf l) {n : Node}
    (hn : n ∈ NodeTree.leavesAll ts) : ∃ id path, n.field = some id ∧ Route l cl id path := by
  cases ho : n.isOverlap with
  | false =>
    obtain ⟨id, hid, hf⟩ := h.slotLeaves n hn ho
    exact ⟨id, [id], hf, .slot hid⟩
  | true =>
    obtain ⟨overlap, hoverlap⟩ :=
      Option.isSome_iff_exists.mp (hs.overlap _ (h.classOf_eq_overlappable hn ho))
    obtain ⟨id, hid, hf⟩ := h.exists_leafField hn ho
    rw [CaseLayout.leafFields] at hid
    split at hid
    · next hempty =>
      exact ⟨id, _, hf, .promoted hoverlap (List.isEmpty_iff.mp hempty)
        (Option.mem_toList.mp hid)⟩
    · obtain ⟨own, hown, -⟩ := h.regionFields id hid
      exact ⟨id, _, hf, .region hoverlap hown hid⟩

/-! ## Well-formedness -/

/-- The field of a node of a case is a slot or lies in the case's part of the overlap region. -/
theorem Holds.own (h : Holds classOf l c cl ts) (hs : Suits classOf l) {m : NodeId}
    (hm : m ∈ l.preorder cl.roots) {n : Node} (hn : l.nodes[m]? = some n) {id : FieldId}
    (hid : n.field = some id) :
    id ∈ l.unionFields ∨ cl.overlapField = some id ∨ id ∈ cl.regionFields := by
  obtain ⟨n', hn', hfit⟩ := h.fitsClass hm
  rw [hn, Option.some.injEq] at hn'
  subst hn'
  -- a node with a field is a leaf, and so there is a way to its field
  have hne := hfit.field.mp (Option.isSome_iff_exists.mpr ⟨id, hid⟩)
  have hleaf : n.isLeaf = true := by simpa [Node.isLeaf] using hne
  obtain ⟨id', path, hf, hroute⟩ := h.route hs (h.mem_leaves.mpr ⟨⟨m, hm, hn⟩, hleaf⟩)
  rw [hf, Option.some.injEq] at hid
  subst hid
  cases hroute with
  | slot mem => exact Or.inl mem
  | promoted _ _ field => exact Or.inr (Or.inl field)
  | region _ _ mem => exact Or.inr (Or.inr mem)

theorem Built.hasField (h : Built classOf overlapped done l) {n : Node} (hn : n ∈ l.nodes) :
    n.field.isSome = true ↔ n.storage ≠ .decomposable := by
  obtain ⟨id, hid⟩ := List.getElem?_of_mem hn
  obtain ⟨c, -, cl, -, ts, hts, hpre⟩ := h.exists_below hid
  obtain ⟨m, hm, hfit⟩ := hts.fitsClass hpre
  rw [hid, Option.some.injEq] at hm
  exact hm ▸ hfit.field

/-- **No field is wasted**: each stores a leaf unless it is a region. -/
theorem Built.exists_leaf (h : Built classOf overlapped done l) {id : FieldId} {f : Field}
    (hf : l.fields[id]? = some f) (hov : l.overlap ≠ some id)
    (hregion : ∀ c ∈ l.cases, c.region ≠ some id) :
    ∃ c ∈ l.cases, ∃ n ∈ l.leafNodes c.roots, n.field = some id := by
  rcases h.place_cases hf with hu | ⟨cl, hcl, hu⟩ | ⟨cl, hcl, hu⟩
  · rcases hu with hu | hu
    · exact absurd hu hov
    · exact h.used id hu
  · obtain ⟨c, -, ts, hts⟩ := h.holds_of_mem hcl
    refine ⟨cl, hcl, hts.exists_leaf ?_⟩
    have hno := hregion cl hcl
    rw [CaseLayout.region] at hno
    rw [CaseLayout.leafFields]
    split at hno
    · next hempty =>
      rw [if_pos hempty, hu]
      exact List.mem_singleton.mpr rfl
    · exact absurd hu hno
  · obtain ⟨c, -, ts, hts⟩ := h.holds_of_mem hcl
    refine ⟨cl, hcl, hts.exists_leaf ?_⟩
    rw [CaseLayout.leafFields, if_neg (by simpa using List.ne_nil_of_mem hu)]
    exact hu

theorem Built.wellFormed (h : Built classOf overlapped done l) (hs : Suits classOf l) :
    l.WellFormed where
  places := h.sound.cover
  onUnion _ _ hf := h.place_eq_onUnion_iff hf
  inOverlap _ _ hf := h.place_eq_inOverlap_iff hf
  inRegion _ _ _ hf := h.place_eq_inRegion_iff hf
  argument _ _ hf := h.argument_isSome_iff hf
  nodes := h.cover_nodes
  hasField _ hn := h.hasField hn
  own cl hcl m hm n hn id hid := by
    obtain ⟨c, -, ts, hts⟩ := h.holds_of_mem hcl
    exact hts.own hs hm hn hid
  nodup cl hcl := by
    obtain ⟨c, -, ts, hts⟩ := h.holds_of_mem hcl
    rw [hts.leafNodes]
    exact hts.nodup
  used id hid hov hregion := h.exists_leaf (List.getElem?_eq_getElem hid) hov hregion
  path cl hcl n hn := by
    obtain ⟨c, -, ts, hts⟩ := h.holds_of_mem hcl
    rw [hts.leafNodes] at hn
    obtain ⟨id, path, hf, hroute⟩ := hts.route hs hn
    obtain ⟨f, hfield⟩ := h.exists_field hcl hroute
    obtain ⟨hlen, hpath⟩ := hroute.pathTo h hcl hfield
    exact ⟨id, f, hf, hfield, fun name => ⟨path, hpath name, hlen⟩⟩

theorem suits_of_allocate {u : Union} {allowOverlap : Bool} (h : allocate u allowOverlap = .ok l) :
    Suits (classes u allowOverlap) l where
  overlap s hs := by
    rw [(built_of_allocate h).2.overlap_eq,
      (StorageClass.ofShape_eq_overlappable_iff.mp hs).2.1]
    rfl
  composite s hs := StorageClass.isRecord_or_isTuple hs

/-- **Every layout that allocation gives is well formed.** -/
theorem wellFormed_of_allocate {u : Union} {allowOverlap : Bool}
    (h : allocate u allowOverlap = .ok l) : l.WellFormed :=
  (built_of_allocate h).2.wellFormed (suits_of_allocate h)

end Layout

/-- A union with all there is to a layout: a region, a leaf directly in the overlap region, a slot
for references that is shared, slots for one type, and a composite that is taken apart. -/
def Union.figures : Union where
  kind := .tags
  name := "Figure"
  typeName := "Figure"
  cases := [
    { name := "Circle", values := [{ name := "radius", type := .double }] },
    { name := "Box", values := [
      { name := "corner", type := { name := "Point", shape := .decomposableLocalRecord },
        members := [{ name := "x", type := .int }, { name := "y", type := .int }] },
      { name := "label", type := .string }] },
    { name := "Text", values := [{ name := "content", type := .string }] },
    { name := "Custom", values := [
      { name := "payload", type := { name := "T", shape := .typeParam } },
      { name := "fallback", type := { name := "T", shape := .typeParam } }] },
    { name := "Empty" }]

namespace Layout

/-- What is computed from a layout is computed from one that there is. -/
theorem exists_layout_of_map {β : Type} {u : Union} {allowOverlap : Bool} {f : Layout → β} {x : β}
    (h : (allocate u allowOverlap).map f = .ok x) :
    ∃ l, allocate u allowOverlap = .ok l ∧ f l = x := by
  cases ha : allocate u allowOverlap with
  | error e =>
    rw [ha] at h
    exact absurd h (by simp [Except.map])
  | ok l =>
    rw [ha] at h
    exact ⟨l, rfl, Except.ok.inj h⟩

theorem allocate_figures : ∃ l, allocate .figures true = .ok l ∧ l.overlap = some 0 := by
  have hsolid : ∀ c ∈ Union.figures.cases, c.hollow? (classes .figures true) = none := by decide
  obtain ⟨l, hl, hb⟩ := allocate_of_solid hsolid
  exact ⟨l, hl, hb.overlap_eq⟩

theorem wellFormed_figures :
    ∃ l, allocate .figures true = .ok l ∧ l.overlap = some 0 ∧ l.WellFormed := by
  obtain ⟨l, hl, ho⟩ := allocate_figures
  exact ⟨l, hl, ho, wellFormed_of_allocate hl⟩

end Layout

end SumLayout
