import SumLayout.Proofs.LeafPaths
import SumLayout.Proofs.OverlapRegion

/-!
# The call for a case covers the constructor

The constructor has one argument for the overlap region, if there is one, and one for each slot.
`Construction.Covers` says of a call that it has one write for each of them, in this order, and that
the writes pass on **each leaf of the case exactly once**, to its own field, and nothing else.

A write may pass on several leaves: the one to the overlap region sets all fields in the region of
the case. What a call passes on, leaf by leaf, is the list of its entries (`Construction.entries`).
The call for a case is made by searching its leaves for the writer of each field, so the entries are
what is found in one search per field (`Holds.entries_call`). Since the fields searched for are
different, and so are the fields of the leaves, no leaf is passed on twice and none is left out.
**The call that allocation leads to covers the constructor** (`construction_covers`).
-/

namespace SumLayout

/-! ## What a call passes on -/

/-- The fields that a write to the field `target` sets, each with the argument for it. -/
def WriteExpr.entries (target : FieldId) : WriteExpr → List (FieldId × List String)
  | .argument path => [(target, path)]
  | .vacant => []
  | .overlap field path => [(field, path)]
  | .region _ fields => fields

/-- The fields that a call sets, each with the argument for it. -/
def Construction.entries (k : Construction) : List (FieldId × List String) :=
  k.writes.flatMap fun w => w.2.entries w.1

namespace Layout

/-- Whether a case has a leaf in a slot or, if the field is the overlap region, within it. -/
def Uses (l : Layout) (cl : CaseLayout) (id : FieldId) : Prop :=
  ∃ n ∈ l.leafNodes cl.roots, ∃ field ∈ n.field,
    field = id ∨ l.overlap = some id ∧ field ∈ cl.inside

/-- What a case has to write to the field `id`. -/
inductive Written (l : Layout) (cl : CaseLayout) (id : FieldId) : WriteExpr → Prop
  /-- A slot is given the leaf that the case stores in it. -/
  | argument {n : Node} (slot : id ∈ l.unionFields) (leaf : n ∈ l.leafNodes cl.roots)
    (stored : n.field = some id) : Written l cl id (.argument n.path)
  /-- The overlap region is given the only leaf that the case has in it. -/
  | overlap {n : Node} {field : FieldId} (region : l.overlap = some id) (single : cl.region = none)
    (own : cl.overlapField = some field) (leaf : n ∈ l.leafNodes cl.roots)
    (stored : n.field = some field) : Written l cl id (.overlap field n.path)
  /-- The overlap region is given the region of the case, all its fields in order. -/
  | region {own : FieldId} {fields : List (FieldId × List String)} (region : l.overlap = some id)
    (several : cl.region = some own) (order : fields.map (·.1) = cl.regionFields)
    (leaves : ∀ e ∈ fields, ∃ n ∈ l.leafNodes cl.roots, n.field = some e.1 ∧ n.path = e.2) :
    Written l cl id (.region own fields)
  /-- What the case does not use is given nothing. -/
  | vacant (unused : ¬l.Uses cl id) : Written l cl id .vacant

end Layout

/-- The call `k` for a case has what the constructor takes, and passes on what the case has. -/
structure Construction.Covers (l : Layout) (cl : CaseLayout) (k : Construction) : Prop where
  length : k.writes.length = l.fieldCount
  /-- The overlap region comes first, and then the slots in order. -/
  order : k.writes.map (·.1) = l.overlap.toList ++ l.unionFields
  /-- The constructor has an argument for each write. -/
  named : ∀ w ∈ k.writes, ∃ f name, l.fields[w.1]? = some f ∧ f.argument = some name ∧
    l.fieldArgument w.1 = name
  /-- Each leaf is passed on to its field, and nothing else is. -/
  leaves : (k.entries.map fun e => (some e.1, e.2)).Perm
    ((l.leafNodes cl.roots).map fun n => (n.field, n.path))
  /-- No field is set twice. -/
  once : (k.entries.map (·.1)).Nodup
  written : ∀ w ∈ k.writes, l.Written cl w.1 w.2
  /-- What the case does not use is given nothing, and nothing else is left out. -/
  vacant : ∀ w ∈ k.writes, w.2 = .vacant ↔ ¬l.Uses cl w.1

namespace Layout

variable {classOf : Shape → StorageClass} {overlapped : Bool} {done : List Case} {l : Layout}
  {c : Case} {cl : CaseLayout} {ts : List NodeTree} {tag : UInt32} {id : FieldId}
  {path : List String} {w : FieldId × WriteExpr}

/-! ## One search per field -/

/-- What is found in a search for the writer of each field. -/
def found (leaves : List Node) (ids : List FieldId) : List (FieldId × List String) :=
  ids.filterMap fun id => (writerOf? leaves id).map (Prod.mk id)

theorem mem_found {leaves : List Node} {ids : List FieldId} :
    (id, path) ∈ found leaves ids ↔ id ∈ ids ∧ writerOf? leaves id = some path := by
  simp [found, List.mem_filterMap]

theorem map_fst_found (leaves : List Node) (ids : List FieldId) :
    (found leaves ids).map (·.1) = ids.filter fun id => (writerOf? leaves id).isSome := by
  induction ids with
  | nil => rfl
  | cons id ids ih =>
    rw [found, List.filterMap_cons, List.filter_cons, ← ih]
    cases writerOf? leaves id <;> rfl

theorem found_append (leaves : List Node) (ids ids' : List FieldId) :
    found leaves (ids ++ ids') = found leaves ids ++ found leaves ids' :=
  List.filterMap_append

/-- In the fields of a case in the overlap region, every search is successful. -/
theorem Holds.found_leafFields (h : Holds classOf l c cl ts) :
    found (l.leafNodes cl.roots) cl.leafFields = cl.leafFields.map fun id =>
      (id, (Layout.writerOf? (l.leafNodes cl.roots) id).getD []) := by
  rw [found, ← List.filterMap_eq_map]
  refine List.filterMap_congr fun id hid => ?_
  obtain ⟨path, hpath⟩ := h.exists_writer hid
  simp [hpath]

/-- A case without a field of its own in the overlap region has nothing there. -/
theorem Holds.inside_eq_nil (h : Holds classOf l c cl ts) (hno : cl.overlapField = none) :
    cl.inside = [] ∧ cl.leafFields = [] := by
  have hfields : cl.regionFields = [] := by
    refine List.eq_nil_iff_forall_not_mem.mpr fun id hid => ?_
    obtain ⟨own, hown, -⟩ := h.regionFields id hid
    rw [hno] at hown
    exact absurd hown (by simp)
  simp [CaseLayout.inside, CaseLayout.leafFields, hfields, hno]

theorem Holds.entries_overlapContent (h : Holds classOf l c cl ts) (overlap : FieldId) :
    (overlapContent (l.leafNodes cl.roots) cl).entries overlap
      = found (l.leafNodes cl.roots) cl.leafFields := by
  rw [h.found_leafFields]
  cases ho : cl.overlapField with
  | none =>
    rw [(h.inside_eq_nil ho).2, overlapContent, ho]
    rfl
  | some own =>
    cases hr : cl.regionFields with
    | nil => simp [overlapContent, CaseLayout.leafFields, WriteExpr.entries, ho, hr]
    | cons id ids => simp [overlapContent, CaseLayout.leafFields, WriteExpr.entries, ho, hr]

theorem entries_slotWrites (leaves : List Node) (ids : List FieldId) :
    (ids.map fun id => (id, slotWrite leaves id)).flatMap (fun w => w.2.entries w.1)
      = found leaves ids := by
  induction ids with
  | nil => rfl
  | cons id ids ih =>
    rw [List.map_cons, List.flatMap_cons, ih, found, found, List.filterMap_cons, slotWrite]
    cases writerOf? leaves id <;> rfl

/-- Without an overlap region no case has anything there. -/
theorem Holds.leafFields_eq_nil (h : Holds classOf l c cl ts) (hs : Suits classOf l)
    (ho : l.overlap = none) : cl.leafFields = [] := by
  refine List.eq_nil_iff_forall_not_mem.mpr fun id hid => ?_
  obtain ⟨n, hn, hover, -⟩ := h.exists_overlapLeaf hid
  have hsome := hs.overlap _ (h.classOf_eq_overlappable (h.leafNodes ▸ hn) hover)
  rw [ho] at hsome
  exact absurd hsome (by simp)

/-- **The call for a case passes on what a search for the writer of each field finds.** -/
theorem Holds.entries_call (h : Holds classOf l c cl ts) (hs : Suits classOf l) (tag : UInt32) :
    (l.call cl tag).entries = found (l.leafNodes cl.roots) (cl.leafFields ++ l.unionFields) := by
  rw [Construction.entries, call, List.flatMap_append, entries_slotWrites, found_append]
  congr 1
  cases ho : l.overlap with
  | none =>
    rw [h.leafFields_eq_nil hs ho]
    rfl
  | some overlap =>
    rw [Option.toList_some, List.map_singleton, List.flatMap_singleton]
    exact h.entries_overlapContent overlap

/-! ## Each leaf exactly once -/

theorem Holds.mem_leafFields_or_unionFields (h : Holds classOf l c cl ts) {n : Node}
    (hn : n ∈ NodeTree.leavesAll ts) :
    ∃ id ∈ cl.leafFields ++ l.unionFields, n.field = some id := by
  cases ho : n.isOverlap with
  | false =>
    obtain ⟨id, hid, hf⟩ := h.slotLeaves n hn ho
    exact ⟨id, List.mem_append_right _ hid, hf⟩
  | true =>
    obtain ⟨id, hid, hf⟩ := h.exists_leafField hn ho
    exact ⟨id, List.mem_append_left _ hid, hf⟩

theorem Holds.nodup_fields (h : Holds classOf l c cl ts) (hb : Built classOf overlapped done l)
    (hcl : cl ∈ l.cases) : (cl.leafFields ++ l.unionFields).Nodup := by
  refine List.nodup_append.mpr ⟨h.nodup_leafFields, hb.sound.nodup_slots, ?_⟩
  rintro id hid _ hslot rfl
  exact hb.inside_notMem_unionFields hcl (cl.leafFields_subset hid) hslot

theorem Holds.nodup_entries (h : Holds classOf l c cl ts) (hb : Built classOf overlapped done l)
    (hs : Suits classOf l) (hcl : cl ∈ l.cases) (tag : UInt32) :
    ((l.call cl tag).entries.map (·.1)).Nodup := by
  rw [h.entries_call hs tag, map_fst_found]
  exact (h.nodup_fields hb hcl).sublist List.filter_sublist

/-- The call for a case passes on the leaves of the case and nothing else. -/
theorem Holds.mem_entries_call (h : Holds classOf l c cl ts) (hs : Suits classOf l) (tag : UInt32) :
    (id, path) ∈ (l.call cl tag).entries ↔
      ∃ n ∈ l.leafNodes cl.roots, n.field = some id ∧ n.path = path := by
  rw [h.entries_call hs tag, mem_found]
  constructor
  · rintro ⟨-, hw⟩
    exact exists_leaf_of_writerOf? hw
  · rintro ⟨n, hn, hf, rfl⟩
    rw [h.leafNodes] at hn
    obtain ⟨id', hid, hf'⟩ := h.mem_leafFields_or_unionFields hn
    obtain rfl : id' = id := Option.some.inj (hf'.symm.trans hf)
    exact ⟨hid, h.writerOf? hn hf⟩

/-- **Each leaf of a case is passed on exactly once.** -/
theorem Holds.entries_perm (h : Holds classOf l c cl ts) (hb : Built classOf overlapped done l)
    (hs : Suits classOf l) (hcl : cl ∈ l.cases) (tag : UInt32) :
    ((l.call cl tag).entries.map fun e => (some e.1, e.2)).Perm
      ((l.leafNodes cl.roots).map fun n => (n.field, n.path)) := by
  have hentries : ((l.call cl tag).entries.map fun e => (some e.1, e.2)).Nodup := by
    refine List.Nodup.map (fun e e' he => ?_) (List.Nodup.of_map _ (h.nodup_entries hb hs hcl tag))
    obtain ⟨hid, hpath⟩ := Prod.mk.inj he
    exact Prod.ext (Option.some.inj hid) hpath
  have hleaves : ((l.leafNodes cl.roots).map fun n => (n.field, n.path)).Nodup := by
    refine List.Nodup.of_map Prod.fst ?_
    rw [List.map_map, h.leafNodes]
    exact h.nodup
  refine (List.perm_ext_iff_of_nodup hentries hleaves).mpr ?_
  rintro ⟨field, path⟩
  rw [List.mem_map, List.mem_map]
  constructor
  · rintro ⟨⟨id, path'⟩, he, heq⟩
    obtain ⟨rfl, rfl⟩ := Prod.mk.inj heq
    obtain ⟨n, hn, hf, hpath⟩ := (h.mem_entries_call hs tag).mp he
    exact ⟨n, hn, Prod.ext hf hpath⟩
  · rintro ⟨n, hn, heq⟩
    obtain ⟨rfl, rfl⟩ := Prod.mk.inj heq
    obtain ⟨id, -, hf⟩ := h.mem_leafFields_or_unionFields (h.leafNodes ▸ hn)
    exact ⟨(id, n.path), (h.mem_entries_call hs tag).mpr ⟨n, hn, hf, rfl⟩, by rw [hf]⟩

/-! ## The writes -/

/-- A write is empty exactly if the case does not use the field. -/
theorem Written.eq_vacant_iff {e : WriteExpr} (h : l.Written cl id e) :
    e = .vacant ↔ ¬l.Uses cl id := by
  cases h with
  | argument _ leaf stored =>
    have huses : l.Uses cl id := ⟨_, leaf, _, stored, Or.inl rfl⟩
    exact iff_of_false (by simp) fun hnone => hnone huses
  | @overlap n field region single own leaf stored =>
    have hin : field ∈ cl.inside := List.mem_append_left _ (Option.mem_toList.mpr own)
    have huses : l.Uses cl id := ⟨n, leaf, field, stored, Or.inr ⟨region, hin⟩⟩
    exact iff_of_false (by simp) fun hnone => hnone huses
  | @region own fields region several order leaves =>
    -- a region has at least one field, and its leaf is used
    obtain ⟨first, hfirst⟩ :=
      List.exists_mem_of_ne_nil _ (CaseLayout.region_eq_some_iff.mp several).1
    obtain ⟨e, he, rfl⟩ := List.mem_map.mp (order ▸ hfirst)
    obtain ⟨n, hn, hf, -⟩ := leaves e he
    have hin : e.1 ∈ cl.inside := List.mem_append_right _ hfirst
    have huses : l.Uses cl id := ⟨n, hn, e.1, hf, Or.inr ⟨region, hin⟩⟩
    exact iff_of_false (by simp) fun hnone => hnone huses
  | vacant unused => exact iff_of_true rfl unused

theorem Built.written_slot (hb : Built classOf overlapped done l) (hid : id ∈ l.unionFields) :
    l.Written cl id (slotWrite (l.leafNodes cl.roots) id) := by
  rw [slotWrite]
  cases hw : writerOf? (l.leafNodes cl.roots) id with
  | some path =>
    obtain ⟨n, hn, hf, rfl⟩ := exists_leaf_of_writerOf? hw
    exact .argument hid hn hf
  | none =>
    refine .vacant ?_
    rintro ⟨n, hn, field, hf, rfl | ⟨ho, -⟩⟩
    · rw [writerOf?, Option.map_eq_none_iff, List.find?_eq_none] at hw
      exact hw n hn (by simpa using hf)
    · exact hb.overlap_not_slot id hid ho

theorem Holds.written_overlap (h : Holds classOf l c cl ts) (hb : Built classOf overlapped done l)
    {overlap : FieldId} (ho : l.overlap = some overlap) :
    l.Written cl overlap (overlapContent (l.leafNodes cl.roots) cl) := by
  rw [overlapContent]
  cases hown : cl.overlapField with
  | none =>
    refine .vacant ?_
    obtain ⟨hinside, hno⟩ := h.inside_eq_nil hown
    rintro ⟨n, hn, field, hf, rfl | ⟨-, hin⟩⟩
    · -- all leaves have slots, and the overlap region is none
      obtain ⟨id, hid, hf'⟩ := h.mem_leafFields_or_unionFields (h.leafNodes ▸ hn)
      rw [hno, List.nil_append] at hid
      obtain rfl : id = field := Option.some.inj (hf'.symm.trans hf)
      exact hb.overlap_not_slot _ hid ho
    · rw [hinside] at hin
      exact absurd hin List.not_mem_nil
  | some own =>
    cases hr : cl.regionFields with
    | nil =>
      have hmem : own ∈ cl.leafFields := by simp [CaseLayout.leafFields, hr, hown]
      obtain ⟨path, hw⟩ := h.exists_writer hmem
      obtain ⟨n, hn, hf, rfl⟩ := exists_leaf_of_writerOf? hw
      simp only [hw, Option.getD_some]
      exact .overlap ho (by simp [CaseLayout.region, hr]) hown hn hf
    | cons first rest =>
      have hne : cl.regionFields ≠ [] := by simp [hr]
      refine .region ho (CaseLayout.region_eq_some_iff.mpr ⟨hne, hown⟩) ?_ ?_
      · rw [List.map_map, hr]
        exact List.map_id _
      · rintro e he
        obtain ⟨id, hid, rfl⟩ := List.mem_map.mp he
        have hmem : id ∈ cl.leafFields := by simpa [CaseLayout.leafFields, hr] using hid
        obtain ⟨path, hw⟩ := h.exists_writer hmem
        simp only [hw, Option.getD_some]
        exact exists_leaf_of_writerOf? hw

theorem map_fst_call (l : Layout) (cl : CaseLayout) (tag : UInt32) :
    (l.call cl tag).writes.map (·.1) = l.overlap.toList ++ l.unionFields := by
  rw [call, List.map_append, List.map_map, List.map_map]
  exact congrArg₂ _ (List.map_id _) (List.map_id _)

theorem Holds.written_call (h : Holds classOf l c cl ts) (hb : Built classOf overlapped done l)
    (hw : w ∈ (l.call cl tag).writes) : l.Written cl w.1 w.2 := by
  rw [call, List.mem_append, List.mem_map, List.mem_map] at hw
  rcases hw with ⟨overlap, ho, rfl⟩ | ⟨id, hid, rfl⟩
  · exact h.written_overlap hb (Option.mem_toList.mp ho)
  · exact hb.written_slot hid

/-- **The call for a case covers the constructor.** -/
theorem Holds.covers (h : Holds classOf l c cl ts) (hb : Built classOf overlapped done l)
    (hs : Suits classOf l) (hcl : cl ∈ l.cases) (tag : UInt32) : (l.call cl tag).Covers l cl where
  length := by
    have hlen := congrArg List.length (map_fst_call l cl tag)
    rw [List.length_map, List.length_append, Nat.add_comm] at hlen
    rw [hlen, fieldCount]
    cases l.overlap <;> rfl
  order := map_fst_call l cl tag
  named w hw := by
    have hmem : w.1 ∈ l.overlap.toList ++ l.unionFields :=
      map_fst_call l cl tag ▸ List.mem_map_of_mem hw
    obtain ⟨f, hf, -, ha⟩ := hb.sound.onUnion w.1 hmem
    obtain ⟨name, hname⟩ := Option.isSome_iff_exists.mp ha
    have hfield : l.fields[w.1]? = some f := hf
    exact ⟨f, name, hfield, hname, by simp [fieldArgument, hfield, hname]⟩
  leaves := h.entries_perm hb hs hcl tag
  once := h.nodup_entries hb hs hcl tag
  written _ hw := h.written_call hb hw
  vacant _ hw := (h.written_call hb hw).eq_vacant_iff

/-! ## The calls for a union -/

/-- **The call for each case covers the constructor**: there is one write for each of its arguments,
each leaf of the case is passed on exactly once, and what the case does not use is given nothing. -/
theorem construction_covers {u : Union} {allowOverlap : Bool} (hl : allocate u allowOverlap = .ok l)
    (tags : List UInt32) :
    ∃ ms, mapCases u l tags = .ok ms ∧ ms.length = min u.cases.length tags.length ∧
      ∀ (i : Nat) (m : CaseMapping), ms[i]? = some m → ∃ (c : Case) (cl : CaseLayout),
        u.cases[i]? = some c ∧ l.cases[i]? = some cl ∧
        (l.leafNodes cl.roots).map (·.path)
          = Value.leafPathsAll (classes u allowOverlap) [] c.values ∧
        m.construction.Covers l cl := by
  have hb := (built_of_allocate hl).2
  have hs := suits_of_allocate hl
  obtain ⟨ms, hms⟩ := hb.exists_mapsAll hs tags
  refine ⟨ms, hms.result, hms.length, fun i m hm => ?_⟩
  obtain ⟨c, hc⟩ := hms.exists_case hm
  obtain ⟨tag, -, hmap⟩ := hms.maps_at hc hm
  obtain ⟨cl, ts, hcl, h⟩ := hb.holds_at hc
  have hcall := (mapCase_eq_ok hmap.result).1
  rw [Nat.zero_add, h.construction hcl, Except.ok.injEq] at hcall
  refine ⟨c, cl, hc, hcl, ?_, ?_⟩
  · rw [h.leafNodes]
    exact h.stands.map_path
  · rw [← hcall]
    exact h.covers hb hs (List.mem_of_getElem? hcl) tag

theorem construction_covers_figures : ∃ l ms m cl, allocate .figures true = .ok l ∧
    mapCases .figures l [1, 2, 3, 4, 5] = .ok ms ∧ ms[1]? = some m ∧ l.cases[1]? = some cl ∧
    (l.leafNodes cl.roots).map (·.path) = [["corner", "x"], ["corner", "y"], ["label"]] ∧
    m.construction.Covers l cl := by
  obtain ⟨l, hl, -⟩ := allocate_figures
  obtain ⟨ms, hms, hlen, hall⟩ := construction_covers hl [1, 2, 3, 4, 5]
  have hone : 1 < ms.length := hlen ▸ by decide
  have hm := List.getElem?_eq_getElem hone
  obtain ⟨c, cl, hc, hcl, hpaths, hcovers⟩ := hall 1 _ hm
  obtain rfl := Option.some.inj hc
  exact ⟨l, ms, _, cl, hl, hms, hm, hcl, hpaths.trans (by decide +kernel), hcovers⟩

end Layout

end SumLayout
