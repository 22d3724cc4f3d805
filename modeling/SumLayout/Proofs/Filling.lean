import SumLayout.Proofs.WellFormed
import SumLayout.Storage

/-!
# What a constructor call leaves in storage

The call for a case is a list of writes. Each writes a field of its own, so the storage afterwards
can be told from the list without running it (`construct_call`). Since the leaves of a case do not
share fields, the leaf found as the writer of a field is the one that is stored there
(`writerOf?_eq`).

**Reading the way to a leaf gives what was passed for the leaf** (`Holds.readPath_construct`).
-/

namespace SumLayout

theorem lookup_map_of_mem {α β : Type} [BEq α] [LawfulBEq α] {ids : List α} {g : α → β} {id : α}
    (h : id ∈ ids) : (ids.map fun i => (i, g i)).lookup id = some (g id) := by
  induction ids with
  | nil => exact absurd h List.not_mem_nil
  | cons i ids ih =>
    rw [List.map_cons, List.lookup_cons]
    cases hi : id == i with
    | true => rw [eq_of_beq hi]
    | false => exact ih ((List.mem_cons.mp h).resolve_left fun he => by simp [he] at hi)

theorem lookup_eq_none_of_notMem {α β : Type} [BEq α] [LawfulBEq α] {xs : List (α × β)} {k : α}
    (h : k ∉ xs.map (·.1)) : xs.lookup k = none := by
  rw [List.lookup_eq_none_iff]
  rintro p hp
  exact bne_iff_ne.mpr fun he => h (he ▸ List.mem_map_of_mem hp)

namespace Storage

variable {α : Type} {arg : List String → α}

theorem tag_foldl_write (ws : List (FieldId × WriteExpr)) (s : Storage α) :
    (ws.foldl (write arg) s).tag = s.tag := by
  induction ws generalizing s with
  | nil => rfl
  | cons w ws ih =>
    rw [List.foldl_cons, ih]
    unfold write
    split
    · rfl
    · split <;> rfl
    · rfl
    · rfl

/-- The storage has the tag of the call that filled it. -/
theorem tag_construct (l : Layout) (k : Construction) : (construct l arg k).tag = k.tag :=
  tag_foldl_write k.writes _

/-- Writing the slots fills them one by one and leaves the overlap region alone. -/
theorem foldl_write_slots (leaves : List Node) (ids : List FieldId) (s : Storage α)
    (h : ∀ id ∈ ids, s.overlapField ≠ some id) :
    (ids.map fun id => (id, Layout.slotWrite leaves id)).foldl (write arg) s
      = { s with slots := (ids.reverse.map fun id =>
            (id, (Layout.writerOf? leaves id).map arg)) ++ s.slots } := by
  induction ids generalizing s with
  | nil => rfl
  | cons id ids ih =>
    have hone : write arg s (id, Layout.slotWrite leaves id)
        = { s with slots := (id, (Layout.writerOf? leaves id).map arg) :: s.slots } := by
      unfold Layout.slotWrite write
      cases Layout.writerOf? leaves id with
      | some path => rfl
      | none => exact if_neg (h id List.mem_cons_self)
    have hrest := ih { s with slots := (id, (Layout.writerOf? leaves id).map arg) :: s.slots }
      fun i hi => h i (List.mem_cons_of_mem _ hi)
    rw [List.map_cons, List.foldl_cons, hone, hrest, List.reverse_cons, List.map_append,
      List.append_assoc]
    rfl

end Storage

namespace Layout

variable {classOf : Shape → StorageClass} {overlapped : Bool} {done : List Case} {l : Layout}
  {c : Case} {cl : CaseLayout} {ts : List NodeTree}

/-- The writer of a field is a leaf that is stored in it. -/
theorem exists_leaf_of_writerOf? {leaves : List Node} {id : FieldId} {path : List String}
    (h : writerOf? leaves id = some path) : ∃ n ∈ leaves, n.field = some id ∧ n.path = path := by
  obtain ⟨n, hfind, hpath⟩ := Option.map_eq_some_iff.mp h
  exact ⟨n, List.mem_of_find?_eq_some hfind, by simpa using List.find?_some hfind, hpath⟩

/-- The writer of a leaf's field is the leaf. -/
theorem writerOf?_eq {leaves : List Node} (hnd : (leaves.map (·.field)).Nodup) {n : Node}
    (hn : n ∈ leaves) {id : FieldId} (hf : n.field = some id) :
    writerOf? leaves id = some n.path := by
  have hfind : leaves.find? (·.field == some id) = some n := by
    induction leaves with
    | nil => exact absurd hn List.not_mem_nil
    | cons m leaves ih =>
      rw [List.map_cons, List.nodup_cons] at hnd
      rw [List.find?_cons]
      rcases List.mem_cons.mp hn with rfl | hn
      · simp [hf]
      · have hne : (m.field == some id) = false := by
          rw [beq_eq_false_iff_ne, ← hf]
          exact fun he => hnd.1 (he ▸ List.mem_map_of_mem hn)
        rw [hne]
        exact ih hnd.2 hn
  rw [writerOf?, hfind, Option.map_some]

theorem writers_eq (l : Layout) (caseName : String) (leaves : List Node) (ids : List FieldId)
    (path : FieldId → List String) (h : ∀ id ∈ ids, writerOf? leaves id = some (path id)) :
    l.writers caseName leaves ids = .ok (ids.map fun id => (id, path id)) := by
  induction ids with
  | nil => rfl
  | cons id ids ih =>
    rw [writers, h id List.mem_cons_self]
    simp only [ih fun i hi => h i (List.mem_cons_of_mem _ hi), List.map_cons]

theorem Holds.writerOf? (h : Holds classOf l c cl ts) {n : Node} (hn : n ∈ NodeTree.leavesAll ts)
    {id : FieldId} (hf : n.field = some id) :
    Layout.writerOf? (l.leafNodes cl.roots) id = some n.path := by
  rw [h.leafNodes]
  exact writerOf?_eq h.nodup hn hf

theorem Holds.exists_writer (h : Holds classOf l c cl ts) {id : FieldId}
    (hid : id ∈ cl.leafFields) :
    ∃ path, Layout.writerOf? (l.leafNodes cl.roots) id = some path := by
  obtain ⟨n, hn, hf⟩ := h.exists_leaf hid
  exact ⟨n.path, h.writerOf? (h.leafNodes ▸ hn) hf⟩

/-! ## The call for a case -/

/-- What the case writes to the overlap region. -/
def overlapContent (leaves : List Node) (cl : CaseLayout) : WriteExpr :=
  match cl.overlapField, cl.regionFields with
  | none, _ => .vacant
  | some id, [] => .overlap id ((writerOf? leaves id).getD [])
  | some region, ids@(_ :: _) =>
    .region region (ids.map fun id => (id, (writerOf? leaves id).getD []))

theorem Holds.overlapWrite (h : Holds classOf l c cl ts) (caseName : String) :
    l.overlapWrite caseName cl (l.leafNodes cl.roots)
      = .ok (overlapContent (l.leafNodes cl.roots) cl) := by
  unfold Layout.overlapWrite overlapContent
  cases ho : cl.overlapField with
  | none => rfl
  | some own =>
    cases hr : cl.regionFields with
    | nil =>
      have hid : own ∈ cl.leafFields := by simp [CaseLayout.leafFields, hr, ho]
      obtain ⟨path, hp⟩ := h.exists_writer hid
      simp [CaseLayout.region, hr, hp]
    | cons id ids =>
      have hall : ∀ i ∈ cl.regionFields, Layout.writerOf? (l.leafNodes cl.roots) i
          = some ((Layout.writerOf? (l.leafNodes cl.roots) i).getD []) := by
        intro i hi
        have hid : i ∈ cl.leafFields := by simpa [CaseLayout.leafFields, hr] using hi
        obtain ⟨path, hp⟩ := h.exists_writer hid
        rw [hp, Option.getD_some]
      have hw := writers_eq l caseName _ _ _ hall
      simp only [CaseLayout.region, hr, ho, List.isEmpty_cons, Bool.false_eq_true, if_false]
      rw [← hr, hw]
      rfl

/-- The call for a case: the region first, if there is one, and then the slots. -/
def call (l : Layout) (cl : CaseLayout) (tag : UInt32) : Construction where
  tag := tag
  writes := (l.overlap.toList.map fun id => (id, overlapContent (l.leafNodes cl.roots) cl))
    ++ l.unionFields.map fun id => (id, slotWrite (l.leafNodes cl.roots) id)

theorem caseAt_eq {i : Nat} (h : l.cases[i]? = some cl) : l.caseAt i = cl := by
  rw [caseAt, List.getD_eq_getElem?_getD, h, Option.getD_some]

/-- **The call for a case always exists.** -/
theorem Holds.construction (h : Holds classOf l c cl ts) {i : Nat} (hcl : l.cases[i]? = some cl)
    (caseName : String) (tag : UInt32) : l.construction i caseName tag = .ok (l.call cl tag) := by
  rw [Layout.construction, caseAt_eq hcl, call]
  cases l.overlap with
  | none => rfl
  | some overlap =>
    simp only [h.overlapWrite]
    rfl

/-! ## The storage it leaves behind -/

variable {α : Type} {arg : List String → α} {tag : UInt32}

/-- What the overlap region holds after the call for a case. -/
def alternative (arg : List String → α) (leaves : List Node) (cl : CaseLayout) :
    Option (Alternative α) :=
  match cl.overlapField, cl.regionFields with
  | none, _ => none
  | some id, [] => some (.leaf id (arg ((writerOf? leaves id).getD [])))
  | some region, ids@(_ :: _) =>
    some (.region region (ids.reverse.map fun id => (id, arg ((writerOf? leaves id).getD []))))

theorem write_overlapContent (s : Storage α) (leaves : List Node) (cl : CaseLayout)
    {overlap : FieldId} (h : s.overlapField = some overlap) :
    s.write arg (overlap, overlapContent leaves cl)
      = { s with overlap := alternative arg leaves cl } := by
  unfold overlapContent alternative
  cases cl.overlapField with
  | none => exact if_pos h
  | some own =>
    cases cl.regionFields with
    | nil => rfl
    | cons id ids =>
      simp only [Storage.write, ← List.map_reverse, List.map_map]
      rfl

/-- **What storage holds after the call for a case**: in each slot the argument that the case writes
to it, if any, and in the overlap region what the case has there. -/
theorem construct_call (l : Layout) (cl : CaseLayout) (arg : List String → α) (tag : UInt32)
    (h : ∀ id ∈ l.unionFields, l.overlap ≠ some id) :
    Storage.construct l arg (l.call cl tag) =
      { tag := tag
        overlapField := l.overlap
        slots := l.unionFields.reverse.map fun id =>
          (id, (writerOf? (l.leafNodes cl.roots) id).map arg)
        overlap := l.overlap.bind fun _ => alternative arg (l.leafNodes cl.roots) cl } := by
  rw [Storage.construct, call, List.foldl_append]
  cases ho : l.overlap with
  | none =>
    rw [ho] at h
    rw [Option.toList_none, List.map_nil, List.foldl_nil, Storage.foldl_write_slots _ _ _ h,
      List.append_nil]
    rfl
  | some overlap =>
    rw [ho] at h
    rw [Option.toList_some, List.map_singleton, List.foldl_cons, List.foldl_nil,
      write_overlapContent _ _ _ rfl, Storage.foldl_write_slots _ _ _ h, List.append_nil]
    rfl

/-! ## Reading a leaf -/

theorem Built.overlap_not_slot (h : Built classOf overlapped done l) :
    ∀ id ∈ l.unionFields, l.overlap ≠ some id := by
  intro id hid ho
  have hnd := (List.nodup_append.mp h.sound.nodup).1
  rw [ho] at hnd
  exact (List.nodup_cons.mp hnd).1 hid

/-- **Reading the way to a leaf gives what was passed for the leaf.** -/
theorem Holds.readPath_construct (h : Holds classOf l c cl ts)
    (hu : ∀ id ∈ l.unionFields, l.overlap ≠ some id) {n : Node}
    (hn : n ∈ NodeTree.leavesAll ts) {id : FieldId} (hf : n.field = some id)
    {path : List FieldId} (hr : Route l cl id path) (tag : UInt32) :
    (Storage.construct l arg (l.call cl tag)).readPath path = .leaf (arg n.path) := by
  have hw := h.writerOf? hn hf
  -- every field is written once, so that it does not matter that the last write is found first
  rw [construct_call l cl arg tag hu]
  cases hr with
  | slot mem =>
    rw [Storage.readPath, Storage.readSlot,
      lookup_map_of_mem (List.mem_reverse.mpr mem), hw, Option.map_some]
  | promoted region noFields field =>
    simp [Storage.readPath, Storage.readOverlap, region, alternative, field, noFields, hw]
  | region region field mem =>
    have hlook := lookup_map_of_mem (g := fun id =>
      arg ((Layout.writerOf? (l.leafNodes cl.roots) id).getD [])) (List.mem_reverse.mpr mem)
    cases hfs : cl.regionFields with
    | nil => simp [hfs] at mem
    | cons i ids =>
      rw [hfs, hw] at hlook
      simp only [Storage.readPath, Storage.readOverlap, region, alternative, field, hfs,
        Option.bind_some, if_true, hlook, Option.getD_some]

end Layout

end SumLayout
