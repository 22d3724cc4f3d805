import SumLayout.Proofs.LeafPaths
import SumLayout.Proofs.Verdict

/-!
# The check catches every misrouted write

A call **goes astray** if one of its writes does (`GoesAstray`): it passes the argument of some
other leaf of the case, or leaves out what it should have written.

Each write of a call is about leaves of its case, and one that goes astray takes at least one leaf's
argument away: where the leaf is read, there is nothing or the argument of another leaf
(`GoesAstray.losesLeaf`). The read of the case looks at every leaf, and different leaves have
different dotted paths, so that the check sees it: **it fails and names the case**
(`verify_of_goesAstray`).
-/

namespace SumLayout

namespace Layout

/-- The path of a leaf that is stored in some other field. -/
def Strays (leaves : List Node) (id : FieldId) (path : List String) : Prop :=
  ∃ n ∈ leaves, n.path = path ∧ n.field ≠ some id

/-- A write to the field `id` on behalf of a case with the given leaves, and one that it should not
have become. -/
inductive WriteStrays (leaves : List Node) (id : FieldId) : WriteExpr → WriteExpr → Prop
  /-- A slot is given the argument of another leaf. -/
  | argument {path stray : List String} (strays : Strays leaves id stray) :
    WriteStrays leaves id (.argument path) (.argument stray)
  /-- The overlap region is given the argument of another leaf. -/
  | overlap {field : FieldId} {path stray : List String} (strays : Strays leaves field stray) :
    WriteStrays leaves id (.overlap field path) (.overlap field stray)
  /-- A field in the region of the case is given the argument of another leaf. -/
  | entry {region field : FieldId} {path stray : List String}
    {before after : List (FieldId × List String)} (strays : Strays leaves field stray) :
    WriteStrays leaves id (.region region (before ++ (field, path) :: after))
      (.region region (before ++ (field, stray) :: after))
  /-- A field in the region of the case is left out. -/
  | dropped {region : FieldId} {entry : FieldId × List String}
    {before after : List (FieldId × List String)} :
    WriteStrays leaves id (.region region (before ++ entry :: after))
      (.region region (before ++ after))
  /-- A slot or the overlap region is given nothing. -/
  | vacated {w : WriteExpr} (used : w ≠ .vacant) : WriteStrays leaves id w .vacant

/-- A call on behalf of a case with the given leaves, and one that differs by a write that goes
astray. -/
inductive GoesAstray (leaves : List Node) : Construction → Construction → Prop
  | write {tag : UInt32} {before after : List (FieldId × WriteExpr)} {id : FieldId}
    {w w' : WriteExpr} (strays : WriteStrays leaves id w w') :
    GoesAstray leaves ⟨tag, before ++ (id, w) :: after⟩ ⟨tag, before ++ (id, w') :: after⟩

end Layout

/-! ## Storage after a write that differs -/

namespace Storage

variable {α : Type} {arg : List String → α}

theorem overlapField_foldl_write (arg : List String → α) (ws : List (FieldId × WriteExpr))
    (s : Storage α) :
    (ws.foldl (write arg) s).overlapField = s.overlapField := by
  induction ws generalizing s with
  | nil => rfl
  | cons w ws ih =>
    rw [List.foldl_cons, ih]
    unfold write
    split
    · rfl
    · split <;> rfl
    · rfl
    · rfl

/-- The last entry of a region for a field is the one that is found. -/
theorem lookup_reverse_append {values : List (FieldId × α)} {id : FieldId} {a : α}
    {before after : List (FieldId × α)} (hv : values = before ++ (id, a) :: after)
    (hafter : id ∉ after.map (·.1)) : values.reverse.lookup id = some a := by
  have hnone : after.reverse.lookup id = none :=
    lookup_eq_none_of_notMem (by rwa [List.map_reverse, List.mem_reverse])
  rw [hv, List.reverse_append, List.reverse_cons, List.append_assoc, List.lookup_append, hnone,
    Option.none_or, List.singleton_append, List.lookup_cons_self]

end Storage

namespace Layout

variable {classOf : Shape → StorageClass} {overlapped : Bool} {done : List Case} {l : Layout}
  {c : Case} {cl : CaseLayout} {ts : List NodeTree} {tag : UInt32} {id : FieldId}
  {w : WriteExpr} {α : Type} {arg : List String → α}

/-- The writes to the slots, on behalf of a case with the given leaves. -/
def slotWrites (leaves : List Node) (ids : List FieldId) : List (FieldId × WriteExpr) :=
  ids.map fun id => (id, slotWrite leaves id)

/-- A write of a call is the one to the overlap region, which comes first, or one to a slot. -/
theorem call_writes_cases {before after : List (FieldId × WriteExpr)}
    (h : (l.call cl tag).writes = before ++ (id, w) :: after) :
    (l.overlap = some id ∧ w = overlapContent (l.leafNodes cl.roots) cl ∧ before = [] ∧
        after = slotWrites (l.leafNodes cl.roots) l.unionFields) ∨
      ∃ us vs, l.unionFields = us ++ id :: vs ∧ w = slotWrite (l.leafNodes cl.roots) id ∧
        after = slotWrites (l.leafNodes cl.roots) vs := by
  have hslots : ∀ before', slotWrites (l.leafNodes cl.roots) l.unionFields
      = before' ++ (id, w) :: after →
      ∃ us vs, l.unionFields = us ++ id :: vs ∧ w = slotWrite (l.leafNodes cl.roots) id ∧
        after = slotWrites (l.leafNodes cl.roots) vs := by
    intro before' hb
    obtain ⟨us, rest, hu, -, hrest⟩ := List.map_eq_append_iff.mp hb
    obtain ⟨id', vs, rfl, hid, hvs⟩ := List.map_eq_cons_iff.mp hrest
    obtain ⟨rfl, rfl⟩ := Prod.mk.inj hid
    exact ⟨us, vs, hu, rfl, hvs.symm⟩
  rw [call] at h
  cases ho : l.overlap with
  | none =>
    rw [ho] at h
    exact Or.inr (hslots before h)
  | some overlap =>
    rw [ho] at h
    cases before with
    | nil =>
      obtain ⟨hw, hafter⟩ := List.cons.inj h
      obtain ⟨rfl, rfl⟩ := Prod.mk.inj hw
      exact Or.inl ⟨rfl, rfl, rfl, hafter.symm⟩
    | cons first before => exact Or.inr (hslots before (List.cons.inj h).2)

/-- What is in the overlap region is what the write to it left there. -/
theorem readPath_construct_overlap {overlap : FieldId} (ho : l.overlap = some overlap)
    (hu : ∀ id ∈ l.unionFields, l.overlap ≠ some id) (leaves : List Node) (w : WriteExpr)
    (rest : List FieldId) :
    (Storage.construct l arg ⟨tag, (overlap, w) :: slotWrites leaves l.unionFields⟩).readPath
        (overlap :: id :: rest)
      = (Storage.write arg ⟨tag, some overlap, [], none⟩
          (overlap, w)).readOverlap (id :: rest) := by
  have hfield := Storage.overlapField_foldl_write arg [(overlap, w)]
    ⟨tag, l.overlap, [], none⟩
  rw [List.foldl_cons, List.foldl_nil] at hfield
  rw [Storage.construct, List.foldl_cons, slotWrites, Storage.foldl_write_slots _ _ _ fun id hid =>
    hfield ▸ hu id hid]
  rw [ho] at hfield ⊢
  exact if_pos hfield

/-- What is in a slot is what the write to it left there. -/
theorem lookup_construct_slot {us vs : List FieldId} (hsplit : l.unionFields = us ++ id :: vs)
    (hnd : l.unionFields.Nodup) (hu : ∀ id ∈ l.unionFields, l.overlap ≠ some id)
    (leaves : List Node) {x : Option α} (hw : ∀ s : Storage α, s.overlapField = l.overlap →
      (s.write arg (id, w)).slots = (id, x) :: s.slots)
    (before : List (FieldId × WriteExpr)) :
    (Storage.construct l arg ⟨tag, before ++ (id, w) :: slotWrites leaves vs⟩).slots.lookup id
      = some x := by
  have hbefore := Storage.overlapField_foldl_write arg before ⟨tag, l.overlap, [], none⟩
  have hfield := Storage.overlapField_foldl_write arg (before ++ [(id, w)])
    ⟨tag, l.overlap, [], none⟩
  rw [List.foldl_append, List.foldl_cons, List.foldl_nil] at hfield
  have hvs : ∀ i ∈ vs, i ∈ l.unionFields := fun i hi => by simp [hsplit, hi]
  have hid : id ∉ vs := by
    rw [hsplit, List.nodup_append] at hnd
    exact (List.nodup_cons.mp hnd.2.1).1
  have hnone : (vs.reverse.map fun id => (id, (writerOf? leaves id).map arg)).lookup id = none :=
    lookup_eq_none_of_notMem (by simpa [Function.comp_def] using hid)
  rw [Storage.construct, List.foldl_append, List.foldl_cons, slotWrites,
    Storage.foldl_write_slots _ _ _ fun i hi => hfield ▸ hu i (hvs i hi), hw _ hbefore]
  simp only [List.lookup_append, hnone, Option.none_or, List.lookup_cons_self]

/-! ## A leaf whose argument is lost -/

/-- What is read where a leaf should be: nothing, or the argument of another leaf. -/
inductive Lost (arg : List String → α) (leaves : List Node) (n : Node) : Content α → Prop
  | vacant : Lost arg leaves n .vacant
  | invalid : Lost arg leaves n .invalid
  | stray {m : Node} (mem : m ∈ leaves) (other : m ≠ n) : Lost arg leaves n (.leaf (arg m.path))

theorem Strays.lost {leaves : List Node} {path : List String} (h : Strays leaves id path)
    {n : Node} (hn : n.field = some id) : Lost arg leaves n (.leaf (arg path)) := by
  obtain ⟨m, hm, rfl, hne⟩ := h
  exact .stray hm fun he => hne (he ▸ hn)

/-- A leaf is read from its field, and what is found there is not what was passed for it. -/
def LosesLeaf (arg : List String → α) (l : Layout) (cl : CaseLayout) (k : Construction) : Prop :=
  ∃ n ∈ l.leafNodes cl.roots, ∃ id way, n.field = some id ∧ Route l cl id way ∧
    Lost arg (l.leafNodes cl.roots) n ((Storage.construct l arg k).readPath way)

/-- A slot is given nothing or the argument of the leaf that is stored in it. -/
theorem slotWrite_cases (leaves : List Node) (id : FieldId) : slotWrite leaves id = .vacant ∨
    ∃ n ∈ leaves, n.field = some id ∧ slotWrite leaves id = .argument n.path := by
  rw [slotWrite]
  cases hw : writerOf? leaves id with
  | none => exact Or.inl rfl
  | some path =>
    obtain ⟨n, hn, hf, rfl⟩ := exists_leaf_of_writerOf? hw
    exact Or.inr ⟨n, hn, hf, rfl⟩

/-- A write to a slot that goes astray loses the leaf in the slot. -/
theorem Built.losesLeaf_of_slot (hb : Built classOf overlapped done l) {us vs : List FieldId}
    (hsplit : l.unionFields = us ++ id :: vs)
    (hw : WriteStrays (l.leafNodes cl.roots) id (slotWrite (l.leafNodes cl.roots) id) w)
    (before : List (FieldId × WriteExpr)) :
    LosesLeaf arg l cl ⟨tag, before ++ (id, w) :: slotWrites (l.leafNodes cl.roots) vs⟩ := by
  have hnd : l.unionFields.Nodup := hb.sound.nodup_slots
  have hu := hb.overlap_not_slot
  have hid : id ∈ l.unionFields := by simp [hsplit]
  rcases slotWrite_cases (l.leafNodes cl.roots) id with hs | ⟨n, hn, hf, hs⟩
  · rw [hs] at hw
    cases hw with
    | vacated used => exact absurd rfl used
  · refine ⟨n, hn, id, [id], hf, .slot hid, ?_⟩
    rw [hs] at hw
    rw [Storage.readPath, Storage.readSlot]
    cases hw with
    | argument strays =>
      rw [lookup_construct_slot hsplit hnd hu _ fun _ _ => rfl]
      exact strays.lost hf
    | vacated =>
      rw [lookup_construct_slot hsplit hnd hu _ fun s ho => by
        rw [Storage.write, if_neg (ho ▸ hu id hid)]]
      exact .vacant

/-- A case has in the overlap region nothing, a single leaf, or a region with leaves. -/
theorem overlapContent_cases (leaves : List Node) (cl : CaseLayout) :
    overlapContent leaves cl = .vacant ∨
    (∃ own path, cl.overlapField = some own ∧ cl.regionFields = [] ∧
      overlapContent leaves cl = .overlap own path) ∨
    ∃ own fields, cl.overlapField = some own ∧ cl.regionFields ≠ [] ∧
      fields.map (·.1) = cl.regionFields ∧ overlapContent leaves cl = .region own fields := by
  unfold overlapContent
  cases cl.overlapField with
  | none => exact Or.inl rfl
  | some own =>
    cases cl.regionFields with
    | nil => exact Or.inr (Or.inl ⟨own, _, rfl, rfl, rfl⟩)
    | cons id ids =>
      refine Or.inr (Or.inr ⟨own, _, rfl, by simp, ?_, rfl⟩)
      rw [List.map_map]
      exact List.map_id _

/-- What is found in the region of a case at a field that it lists. -/
theorem readOverlap_region {overlap own field : FieldId} {path : List String}
    {before after : List (FieldId × List String)}
    (hafter : field ∉ after.map (·.1)) :
    (Storage.write arg ⟨tag, some overlap, [], none⟩
      (overlap, .region own (before ++ (field, path) :: after))).readOverlap [own, field]
        = .leaf (arg path) := by
  have hlook : ((before ++ (field, path) :: after).map fun f => (f.1, arg f.2)).reverse.lookup field
      = some (arg path) :=
    Storage.lookup_reverse_append List.map_append (by simpa [Function.comp_def] using hafter)
  simp only [Storage.write, Storage.readOverlap, if_true, hlook]

/-- Nothing is found in the region of a case at a field that it does not list. -/
theorem readOverlap_region_of_notMem {overlap own field : FieldId}
    {fields : List (FieldId × List String)} (h : field ∉ fields.map (·.1)) :
    (Storage.write arg ⟨tag, some overlap, [], none⟩ (overlap, .region own fields)).readOverlap
        [own, field] = .invalid := by
  have hlook : (fields.map fun f => (f.1, arg f.2)).reverse.lookup field = none :=
    lookup_eq_none_of_notMem (by simpa [Function.comp_def] using h)
  simp only [Storage.write, Storage.readOverlap, if_true, hlook]

/-- The only leaf of a case in the overlap region is lost by a write to it that goes astray. -/
theorem Holds.losesLeaf_of_promoted (h : Holds classOf l c cl ts)
    (hu : ∀ id ∈ l.unionFields, l.overlap ≠ some id) {overlap own : FieldId}
    (ho : l.overlap = some overlap) (hown : cl.overlapField = some own)
    (hno : cl.regionFields = []) {path : List String}
    (hw : WriteStrays (l.leafNodes cl.roots) overlap (.overlap own path) w) :
    LosesLeaf arg l cl
      ⟨tag, (overlap, w) :: slotWrites (l.leafNodes cl.roots) l.unionFields⟩ := by
  have hmem : own ∈ cl.leafFields := by simp [CaseLayout.leafFields, hno, hown]
  obtain ⟨n, hn, hf⟩ := h.exists_leaf hmem
  refine ⟨n, hn, own, [overlap, own], hf, .promoted ho hno hown, ?_⟩
  rw [readPath_construct_overlap ho hu]
  cases hw with
  | overlap strays =>
    simp only [Storage.write, Storage.readOverlap, if_true]
    exact strays.lost hf
  | vacated =>
    simp only [Storage.write, Storage.readOverlap, if_true]
    exact .invalid

/-- A leaf in the region of a case is lost if it is lost in what the write left there. -/
theorem Holds.losesLeaf_of_readOverlap (h : Holds classOf l c cl ts)
    (hu : ∀ id ∈ l.unionFields, l.overlap ≠ some id) {overlap own field : FieldId}
    (ho : l.overlap = some overlap) (hown : cl.overlapField = some own)
    (hfield : field ∈ cl.regionFields)
    (hlost : ∀ n ∈ l.leafNodes cl.roots, n.field = some field →
      Lost arg (l.leafNodes cl.roots) n
        ((Storage.write arg ⟨tag, some overlap, [], none⟩ (overlap, w)).readOverlap [own, field])) :
    LosesLeaf arg l cl
      ⟨tag, (overlap, w) :: slotWrites (l.leafNodes cl.roots) l.unionFields⟩ := by
  have hne : cl.regionFields ≠ [] := List.ne_nil_of_mem hfield
  have hmem : field ∈ cl.leafFields := by simpa [CaseLayout.leafFields, hne] using hfield
  obtain ⟨n, hn, hf⟩ := h.exists_leaf hmem
  refine ⟨n, hn, field, [overlap, own, field], hf, .region ho hown hfield, ?_⟩
  rw [readPath_construct_overlap ho hu]
  exact hlost n hn hf

/-- A leaf in the region of a case is lost by a write to the region that goes astray. -/
theorem Holds.losesLeaf_of_region (h : Holds classOf l c cl ts)
    (hu : ∀ id ∈ l.unionFields, l.overlap ≠ some id) {overlap own : FieldId}
    (ho : l.overlap = some overlap) (hown : cl.overlapField = some own)
    (hne : cl.regionFields ≠ []) {fields : List (FieldId × List String)}
    (hkeys : fields.map (·.1) = cl.regionFields)
    (hw : WriteStrays (l.leafNodes cl.roots) overlap (.region own fields) w) :
    LosesLeaf arg l cl
      ⟨tag, (overlap, w) :: slotWrites (l.leafNodes cl.roots) l.unionFields⟩ := by
  have hnd : (fields.map (·.1)).Nodup := by
    rw [hkeys]
    simpa [CaseLayout.leafFields, hne] using h.nodup_leafFields
  cases hw with
  | @entry _ field _ _ before after strays =>
    refine h.losesLeaf_of_readOverlap hu ho hown (hkeys ▸ by simp : field ∈ _) fun n hn hf => ?_
    rw [List.map_append, List.map_cons, List.nodup_append, List.nodup_cons] at hnd
    rw [readOverlap_region hnd.2.1.1]
    exact strays.lost hf
  | @dropped _ entry before after =>
    refine h.losesLeaf_of_readOverlap hu ho hown (hkeys ▸ by simp : entry.1 ∈ _) fun n hn hf => ?_
    have hkey : entry.1 ∉ (before ++ after).map (·.1) := by
      rw [List.map_append, List.map_cons] at hnd
      rw [List.map_append]
      exact (List.nodup_middle.mp hnd).notMem
    rw [readOverlap_region_of_notMem hkey]
    exact .invalid
  | vacated =>
    obtain ⟨field, hfield⟩ := List.exists_mem_of_ne_nil _ hne
    refine h.losesLeaf_of_readOverlap hu ho hown hfield fun n hn hf => ?_
    simp only [Storage.write, Storage.readOverlap, if_true]
    exact .invalid

/-- A write to the overlap region that goes astray loses a leaf in it. -/
theorem Holds.losesLeaf_of_overlap (h : Holds classOf l c cl ts)
    (hu : ∀ id ∈ l.unionFields, l.overlap ≠ some id) {overlap : FieldId}
    (ho : l.overlap = some overlap)
    (hw : WriteStrays (l.leafNodes cl.roots) overlap (overlapContent (l.leafNodes cl.roots) cl) w) :
    LosesLeaf arg l cl
      ⟨tag, (overlap, w) :: slotWrites (l.leafNodes cl.roots) l.unionFields⟩ := by
  rcases overlapContent_cases (l.leafNodes cl.roots) cl with
    hs | ⟨own, path, hown, hno, hs⟩ | ⟨own, fields, hown, hne, hkeys, hs⟩
  · rw [hs] at hw
    cases hw with
    | vacated used => exact absurd rfl used
  · exact h.losesLeaf_of_promoted hu ho hown hno (hs ▸ hw)
  · exact h.losesLeaf_of_region hu ho hown hne hkeys (hs ▸ hw)

/-- **A call that goes astray loses a leaf.** -/
theorem GoesAstray.losesLeaf {k : Construction} (h : Holds classOf l c cl ts)
    (hb : Built classOf overlapped done l)
    (hk : GoesAstray (l.leafNodes cl.roots) (l.call cl tag) k) : LosesLeaf arg l cl k := by
  generalize hcall : l.call cl tag = k₀ at hk
  cases hk with
  | @write tag' before after id w w' strays =>
    rcases call_writes_cases (congrArg Construction.writes hcall) with
      ⟨ho, rfl, rfl, rfl⟩ | ⟨us, vs, hsplit, rfl, rfl⟩
    · exact h.losesLeaf_of_overlap hb.overlap_not_slot ho strays
    · exact hb.losesLeaf_of_slot hsplit strays before

/-! ## What the check sees -/

theorem GoesAstray.tag_eq {leaves : List Node} {k k' : Construction} (h : GoesAstray leaves k k') :
    k'.tag = k.tag := by
  cases h
  rfl

/-- **The read of a case looks at every leaf.** -/
theorem Holds.mem_paths_caseRead (h : Holds classOf l c cl ts) {i : Nat}
    (hcl : l.cases[i]? = some cl) {r : CaseRead} (hr : l.caseRead i c tag c.bundle = .ok r)
    {n : Node} (hn : n ∈ NodeTree.leavesAll ts) (hf : n.field = some id) {way : List FieldId}
    (hp : l.pathTo id c.name = .ok way) : ∃ value, r = .guarded tag value ∧ way ∈ value.paths := by
  have hmem : ∀ {rs}, NodeTree.readExprs l c.name ts = .ok rs → way ∈ ReadExpr.pathsAll rs :=
    fun hrs => h.stands.mem_paths hrs n hn id way hf hp
  rw [Layout.caseRead, caseAt_eq hcl, h.forest] at hr
  rcases ts with _ | ⟨t, _ | ⟨u, ts⟩⟩
  · exact absurd hn List.not_mem_nil
  · cases ht : t.readExpr l c.name with
    | error e => simp [ht, Except.map] at hr
    | ok value =>
      simp only [ht, Except.map, Except.ok.injEq] at hr
      have hone := hmem (NodeTree.readExprs_cons ht rfl)
      rw [ReadExpr.pathsAll, ReadExpr.pathsAll, List.append_nil] at hone
      exact ⟨value, hr.symm, hone⟩
  · cases hrs : NodeTree.readExprs l c.name (t :: u :: ts) with
    | error e =>
      simp only [hrs, Except.map] at hr
      split at hr <;> exact absurd hr (by simp)
    | ok rs =>
      simp only [hrs, Except.map] at hr
      split at hr
      all_goals exact ⟨_, (Except.ok.inj hr).symm, hmem hrs⟩

/-- A loss shows in the read, if different leaves have different arguments. -/
theorem Lost.ne_leaf {leaves : List Node} {n : Node} {x : Content α} (h : Lost arg leaves n x)
    (hinj : ∀ m ∈ leaves, arg m.path = arg n.path → m = n) : x ≠ .leaf (arg n.path) := by
  intro he
  cases h with
  | vacant | invalid => exact absurd he (by simp)
  | stray mem other => exact other (hinj _ mem (Content.leaf.inj he))

/-- **A case whose call goes astray is not read back as it should be**, if different leaves have
different arguments. -/
theorem Built.read_ne (hb : Built classOf overlapped done l) {i : Nat}
    (hc : done[i]? = some c) {m : CaseMapping} (hm : l.Maps i c tag m)
    (hinj : ∀ n ∈ l.leafNodes (l.caseAt i).roots, ∀ n' ∈ l.leafNodes (l.caseAt i).roots,
      arg n'.path = arg n.path → n' = n)
    {k : Construction} (hk : GoesAstray (l.leafNodes (l.caseAt i).roots) m.construction k) :
    (Storage.construct l arg k).read m.read
      ≠ (Storage.construct l arg m.construction).read m.read := by
  obtain ⟨cl, ts, hcl, h⟩ := hb.holds_at hc
  rw [caseAt_eq hcl] at hinj hk
  obtain ⟨hcall, hread⟩ := mapCase_eq_ok hm.result
  rw [h.construction hcl, Except.ok.injEq] at hcall
  rw [← hcall] at hk ⊢
  have hloses : LosesLeaf arg l cl k := hk.losesLeaf h hb
  obtain ⟨n, hn, id, way, hf, hroute, hlost⟩ := hloses
  have hmem := List.mem_of_getElem? hcl
  obtain ⟨f, hfield⟩ := hb.exists_field hmem hroute
  obtain ⟨value, hvalue, hway⟩ := h.mem_paths_caseRead hcl hread (h.leafNodes ▸ hn) hf
    ((hroute.pathTo hb hmem hfield).2 c.name)
  have htag : tag = (l.call cl tag).tag := rfl
  rw [hvalue, Storage.read, Storage.read, Storage.tag_construct, Storage.tag_construct, hk.tag_eq,
    if_pos htag, if_pos htag]
  intro heval
  refine hlost.ne_leaf (hinj n hn) ?_
  rw [Storage.readPath_of_eval_eq value heval way hway]
  exact h.readPath_construct hb.overlap_not_slot (h.leafNodes ▸ hn) hf hroute tag

/-! ## The verdict -/

variable {u : Union} {tags : List UInt32} {ms : List CaseMapping} {i : Nat} {m : CaseMapping}

/-- The cases before the one at hand are not affected by its call. -/
theorem MapsAll.mismatch?_of_lt (h : l.MapsAll 0 u.cases tags ms) (htags : tags.Nodup)
    (hm : ms[i]? = some m) (k : Construction) {own : Entry}
    (ho : own ∈ entries u (ms.set i { m with construction := k })) (hlt : own.position < i) :
    l.mismatch? (entries u (ms.set i { m with construction := k })) own = none := by
  obtain ⟨hc, hown⟩ := mem_entries.mp ho
  rw [List.getElem?_set_ne (Nat.ne_of_gt hlt)] at hown
  rw [h.mismatch?_eq (mem_entries.mpr ⟨hc, hown⟩), List.findSome?_eq_none_iff]
  intro other hother
  obtain ⟨tag, ht, hmap⟩ := h.maps_at hc hown
  rw [leak?_eq_none_iff, Storage.tag_construct, hmap.constructionTag, or_iff_not_imp_left]
  intro hne htag
  -- the reads, and so the tags that they check for, are as they were
  have hread : ∃ m', ms[other.position]? = some m' ∧ m'.read = other.mapping.read := by
    obtain ⟨-, hm'⟩ := mem_entries.mp hother
    rw [List.getElem?_set] at hm'
    split at hm'
    · next he =>
      have hlen : i < ms.length := (List.getElem?_eq_some_iff.mp hm).1
      rw [if_pos hlen, Option.some.injEq] at hm'
      exact ⟨m, he ▸ hm, by rw [← hm']⟩
    · exact ⟨_, hm', rfl⟩
  obtain ⟨m', hm', hr⟩ := hread
  obtain ⟨d, hd⟩ := h.exists_case hm'
  obtain ⟨tag', ht', hmap'⟩ := h.maps_at hd hm'
  rw [← hr, hmap'.readTag] at htag
  subst htag
  exact hne ((List.getElem?_inj (List.getElem?_eq_some_iff.mp ht').1 htags).mp (ht'.trans ht.symm))

end Layout

/-- No name of a value contains a dot. -/
def Union.Undotted (u : Union) : Prop :=
  ∀ c ∈ u.cases, Value.NamedAll (fun name => '.' ∉ name.toList) c.values

namespace Layout

/-- **The check catches every misrouted write.** Under different tags the check passes; but if the
call for one case goes astray, the check fails and names that case. -/
theorem verify_of_goesAstray {u : Union} {allowOverlap : Bool} {l : Layout} {tags : List UInt32}
    (hu : u.DistinctSiblings) (hdot : u.Undotted) (hl : allocate u allowOverlap = .ok l)
    (htags : tags.Nodup) :
    ∃ ms, mapCases u l tags = .ok ms ∧ ms.length = min u.cases.length tags.length ∧
      verify u l ms = .ok () ∧
      ∀ i c m k, u.cases[i]? = some c → ms[i]? = some m →
        GoesAstray (l.leafNodes (l.caseAt i).roots) m.construction k →
        ∃ wanted seen, verify u l (ms.set i { m with construction := k })
          = .error (.roundTrip c.name wanted seen) := by
  obtain ⟨-, hb⟩ := built_of_allocate hl
  obtain ⟨ms, hms⟩ := hb.exists_mapsAll (suits_of_allocate hl) tags
  refine ⟨ms, hms.result, hms.length, hms.verify_of_nodup htags, ?_⟩
  intro i c m k hc hm hk
  have hmem := List.mem_of_getElem? hc
  obtain ⟨tag, ht, hmap⟩ := hms.maps_at hc hm
  rw [Nat.zero_add] at hmap
  have hinj : ∀ n ∈ l.leafNodes (l.caseAt i).roots, ∀ n' ∈ l.leafNodes (l.caseAt i).roots,
      Text.dotted n'.path = Text.dotted n.path → n' = n := by
    obtain ⟨cl, ts, hcl, h⟩ := hb.holds_at hc
    rw [caseAt_eq hcl, h.leafNodes]
    exact fun n hn n' hn' he => h.dotted_inj (hu c hmem) (hdot c hmem) hn' hn he
  have hne := hb.read_ne hc hmap hinj hk
  rw [hmap.inverse] at hne
  have hlen : i < ms.length := (List.getElem?_eq_some_iff.mp hm).1
  have hown : (entries u (ms.set i { m with construction := k }))[i]?
      = some ⟨i, c, { m with construction := k }⟩ :=
    getElem?_entries.mpr ⟨rfl, hc, List.getElem?_set_self hlen⟩
  exact ⟨_, _, verify_eq_error hown (if_neg hne) fun d hd hlt =>
    hms.mismatch?_of_lt htags hm k hd hlt⟩

/-- The call for a case with a leaf in a slot and some other leaf can go astray. -/
theorem Holds.exists_goesAstray (h : Holds classOf l c cl ts) {n n' : Node}
    (hn : n ∈ NodeTree.leavesAll ts) (hn' : n' ∈ NodeTree.leavesAll ts) (hne : n' ≠ n)
    (ho : n.isOverlap = false) (tag : UInt32) :
    ∃ k, GoesAstray (l.leafNodes cl.roots) (l.call cl tag) k := by
  obtain ⟨id, hid, hf⟩ := h.slotLeaves n hn ho
  have hwrite : (id, WriteExpr.argument n.path) ∈ (l.call cl tag).writes := by
    refine List.mem_append_right _ (List.mem_map.mpr ⟨id, hid, ?_⟩)
    rw [slotWrite, h.writerOf? hn hf]
  obtain ⟨before, after, hsplit⟩ := List.append_of_mem hwrite
  have hstrays : Strays (l.leafNodes cl.roots) id n'.path :=
    ⟨n', h.leafNodes ▸ hn', rfl, fun he =>
      hne (List.inj_on_of_nodup_map h.nodup hn' hn (he.trans hf.symm))⟩
  have hcall : l.call cl tag = ⟨tag, before ++ (id, .argument n.path) :: after⟩ := by
    rw [← hsplit]
    rfl
  rw [hcall]
  exact ⟨_, .write (.argument hstrays)⟩

theorem verify_figures_goesAstray : ∃ l ms m k, allocate .figures true = .ok l ∧
    mapCases .figures l [1, 2, 3, 4, 5] = .ok ms ∧ ms[3]? = some m ∧
    GoesAstray (l.leafNodes (l.caseAt 3).roots) m.construction k ∧
    ∃ wanted seen, verify .figures l (ms.set 3 { m with construction := k })
      = .error (.roundTrip "Custom" wanted seen) := by
  obtain ⟨l, hl, -⟩ := allocate_figures
  have hdot : Union.figures.Undotted := by
    simp [Union.Undotted, Union.figures, Value.NamedAll, Value.Named]
  obtain ⟨ms, hms, hlen, -, hall⟩ := verify_of_goesAstray distinctSiblings_figures hdot hl
    (show ([1, 2, 3, 4, 5] : List UInt32).Nodup by decide)
  have hthree : 3 < ms.length := hlen ▸ by decide
  have hm := List.getElem?_eq_getElem hthree
  have hc : Union.figures.cases[3]? = some Union.figures.cases[3] := rfl
  have hb := (built_of_allocate hl).2
  obtain ⟨cl, ts, hcl, h⟩ := hb.holds_at hc
  -- both values of the fourth case are stored in slots
  obtain ⟨n, n', hn, hn', hne, ho⟩ : ∃ n n', n ∈ NodeTree.leavesAll ts ∧
      n' ∈ NodeTree.leavesAll ts ∧ n' ≠ n ∧ n.isOverlap = false := by
    cases h.stands with
    | composite parts => exact absurd parts (by decide)
    | @leaf _ _ _ _ _ _ n _ whole node _ rest =>
      cases rest with
      | composite parts => exact absurd parts (by decide)
      | @leaf _ _ _ _ _ _ n' _ whole' node' =>
        refine ⟨n, n', ?_, ?_, fun he => ?_, by rw [Node.isOverlap, node.storage]; decide⟩
        · simp [NodeTree.leavesAll, NodeTree.leaves, Node.isLeaf, node.storage, whole]
        · simp [NodeTree.leavesAll, NodeTree.leaves, Node.isLeaf, node'.storage, whole']
        · exact absurd (node'.name.symm.trans ((congrArg Node.name he).trans node.name)) (by decide)
  obtain ⟨ms', hms'⟩ := hb.exists_mapsAll (suits_of_allocate hl) [1, 2, 3, 4, 5]
  obtain rfl : ms' = ms := Except.ok.inj (hms'.result.symm.trans hms)
  obtain ⟨tag, -, hmap⟩ := hms'.maps_at hc hm
  obtain ⟨k, hk⟩ := h.exists_goesAstray hn hn' hne ho tag
  have hcall := (mapCase_eq_ok hmap.result).1
  rw [Nat.zero_add, h.construction hcl, Except.ok.injEq] at hcall
  rw [hcall, ← caseAt_eq hcl] at hk
  exact ⟨l, ms', ms'[3], k, hl, hms, hm, hk, hall 3 _ _ k hc hm hk⟩

end Layout

end SumLayout
