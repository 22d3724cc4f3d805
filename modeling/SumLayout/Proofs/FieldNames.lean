import SumLayout.Proofs.LeafPaths
import SumLayout.Proofs.Naming

/-!
# Names tell who uses a field

The name of a field that a single leaf is stored in is made from the name of its case and the
leaf's path (`Case.leafName`), where the name of a lone parameter is left out as long as something
is left (`Case.trace`). A slot that several cases use is named after its position.

`Layout.SlotTitle` says this of a slot, and it holds of every slot of a finished layout
(`Built.slotTitle`). In the overlap region names do not change once they are given
(`Built.regionNames`). **The names of all fields of a layout tell who uses them**
(`namedByUse_of_allocate`).
-/

namespace SumLayout

theorem getElem?_concat_eq_some_iff {α : Type} {xs : List α} {x y : α} {j : Nat} :
    (xs ++ [x])[j]? = some y ↔ xs[j]? = some y ∨ j = xs.length ∧ y = x := by
  rcases Nat.lt_trichotomy j xs.length with hlt | rfl | hgt
  · rw [List.getElem?_append_left hlt]
    exact ⟨Or.inl, fun h => h.resolve_right fun he => Nat.ne_of_lt hlt he.1⟩
  · simp [eq_comm]
  · rw [List.getElem?_append_right (Nat.le_of_lt hgt), List.getElem?_eq_none (Nat.le_of_lt hgt),
      List.getElem?_eq_none (by simp; omega)]
    exact ⟨fun h => absurd h (by simp), fun h => h.elim (fun h => absurd h (by simp)) fun he =>
      absurd he.1 (Nat.ne_of_gt hgt)⟩

/-- What was in a list of different elements before it grew has kept its position. -/
theorem getElem?_of_prefix {α : Type} {xs ys : List α} (h : xs <+: ys) (hnd : ys.Nodup) {x : α}
    (hx : x ∈ xs) {i : Nat} (hi : ys[i]? = some x) : xs[i]? = some x := by
  obtain ⟨j, hj⟩ := List.getElem?_of_mem hx
  obtain ⟨more, rfl⟩ := h
  obtain rfl : i = j := (List.getElem?_inj (List.getElem?_eq_some_iff.mp hi).1 hnd).mp
    (hi.trans (NodeTree.getElem?_append_of_some hj).symm)
  exact hj

/-! ## Traces -/

namespace CaseScope

/-- What the names of the values in a path come to: without the first one if the case has a single
parameter. -/
def stemTrace (c : CaseScope) (path : List String) : List String :=
  if c.isLone then path.tail else path

theorem memberStem_eq (c : CaseScope) (path : List String) (name : String) :
    c.memberStem path.isEmpty (Text.underscored (c.stemTrace path)) name
      = Text.underscored (c.stemTrace (path ++ [name])) := by
  rw [memberStem, Text.underscored_underscored_cons, stemTrace, stemTrace]
  cases c.isLone with
  | false => simp
  | true => cases path <;> simp

end CaseScope

namespace Case

/-- What tells a leaf apart from the others of its case: its path, without the name of a lone
parameter if something is left. -/
def trace (c : Case) (path : List String) : List String :=
  if c.values.length = 1 ∧ 2 ≤ path.length then path.tail else path

/-- The name of a leaf among those of all cases. -/
def leafName (c : Case) (path : List String) : String :=
  Text.underscored (c.name :: c.trace path)

theorem trace_concat (classOf : Shape → StorageClass) (c : Case) (path : List String)
    (name : String) : c.trace (path ++ [name]) = (c.scope classOf).stemTrace path ++ [name] := by
  rw [trace, CaseScope.stemTrace, scope]
  by_cases h : c.values.length = 1
  · cases path <;> simp [h]
  · simp [h]

end Case

namespace Value

variable {classOf : Shape → StorageClass} {c : Case} {r : Request}

/-- **The stem of a request and its own name make its trace.** -/
theorem underscored_stem (vs : List Value) : ∀ path : List String,
    r ∈ requestsAll (c.scope classOf)
      (Text.underscored ((c.scope classOf).stemTrace path)) path vs →
    Text.underscored [r.stem, r.value.name] = Text.underscored (c.trace r.path) := by
  induction vs using forest_induction with
  | nil => exact fun _ hr => absurd hr List.not_mem_nil
  | cons name type members vs ihm ih =>
    intro path hr
    by_cases hk : (c.scope classOf).classOf type.shape = .decomposable
    · rw [requestsAll_cons_composite hk, List.mem_append, CaseScope.memberStem_eq] at hr
      exact hr.elim (ihm _) (ih path)
    · rw [requestsAll_cons_leaf hk, List.mem_cons] at hr
      rcases hr with rfl | hr
      · rw [Text.underscored_underscored_cons, c.trace_concat classOf]
      · exact ih path hr

end Value

namespace Case

variable {classOf : Shape → StorageClass} {c : Case} {r : Request}

theorem underscored_stem (hr : r ∈ c.requests classOf) :
    Text.underscored [r.stem, r.value.name] = Text.underscored (c.trace r.path) := by
  have hroot : Text.underscored ((c.scope classOf).stemTrace []) = "" := by
    rw [CaseScope.stemTrace]
    split <;> rfl
  rw [requests, ← hroot] at hr
  exact Value.underscored_stem c.values [] hr

theorem mem_of_mem_trace {a : String} {path : List String} (ha : a ∈ c.trace path) : a ∈ path := by
  rw [trace] at ha
  split at ha
  · exact List.mem_of_mem_tail ha
  · exact ha

theorem trace_ne_nil (hr : r ∈ c.requests classOf) : c.trace r.path ≠ [] := by
  obtain ⟨v, -, rest, he⟩ := Value.exists_path_eq c.values "" [] hr
  rw [trace, he]
  split
  · next hlong => cases rest <;> simp at hlong ⊢
  · simp

/-- **Leaves of one case have different traces.** -/
theorem trace_inj {r' : Request} (hr : r ∈ c.requests classOf) (hr' : r' ∈ c.requests classOf)
    (he : c.trace r.path = c.trace r'.path) : r.path = r'.path := by
  rw [trace, trace] at he
  by_cases hlone : c.values.length = 1
  · obtain ⟨⟨name, type, members⟩, hv⟩ := List.length_eq_one_iff.mp hlone
    rw [requests, hv] at hr hr'
    by_cases hk : (c.scope classOf).classOf type.shape = .decomposable
    · -- each path goes on after the name of the parameter, and that name is what is left out
      have hpath : ∀ {r}, r ∈ Value.requestsAll (c.scope classOf) "" [] [⟨name, type, members⟩] →
          2 ≤ r.path.length ∧ name :: r.path.tail = r.path := by
        intro r hr
        rw [Value.requestsAll_cons_composite hk, List.mem_append] at hr
        obtain ⟨w, -, rest, hrest⟩ := Value.exists_path_eq members _ _
          (hr.resolve_right List.not_mem_nil)
        simp [hrest]
      rw [if_pos ⟨hlone, (hpath hr).1⟩, if_pos ⟨hlone, (hpath hr').1⟩] at he
      rw [← (hpath hr).2, ← (hpath hr').2, he]
    · -- the parameter is the only leaf
      rw [Value.requestsAll_cons_leaf hk] at hr hr'
      rw [List.mem_singleton.mp hr, List.mem_singleton.mp hr']
  · rwa [if_neg fun h => hlone h.1, if_neg fun h => hlone h.1] at he

theorem slotName_eq (hr : r ∈ c.requests classOf) :
    r.slotName (c.scope classOf) = c.leafName r.path :=
  Text.underscored_cons_congr c.name (underscored_stem hr)

theorem overlapName_eq (hr : r ∈ c.requests classOf) :
    r.overlapName (c.scope classOf) = if (c.scope classOf).needsRegion
      then Text.underscored (c.trace r.path) else c.leafName r.path := by
  rw [Request.overlapName, underscored_stem hr]
  congr 1
  refine Text.underscored_cons_congr c.name ?_
  rw [Text.underscored_underscored_cons, List.append_nil]

end Case

theorem CaseLayout.leafFields_subset (c : CaseLayout) : c.leafFields ⊆ c.inside := by
  rw [leafFields, inside]
  split
  · exact List.subset_append_left ..
  · exact List.subset_append_right ..

namespace Layout

variable {classOf : Shape → StorageClass} {overlapped : Bool} {done : List Case} {l l' : Layout}
  {c : Case} {cl : CaseLayout} {ts : List NodeTree} {j : Nat} {n : Node} {id : FieldId}

/-- The case at position `j` stores the leaf `n` in the field `id`. -/
def Stores (l : Layout) (j : Nat) (n : Node) (id : FieldId) : Prop :=
  ∃ cl, l.cases[j]? = some cl ∧ n ∈ l.leafNodes cl.roots ∧ n.field = some id

/-- How a slot is named, where `cs` are the cases that are stored. -/
inductive SlotTitle (cs : List Case) (l : Layout) (position : Nat) (id : FieldId) : Prop
  /-- After its leaf, if it is the only one. -/
  | single {j : Nat} {c : Case} {n : Node} (subject : cs[j]? = some c) (user : l.Stores j n id)
    (only : ∀ {j' n'}, l.Stores j' n' id → j' = j)
    (named : l.progress.slots.Named id (Text.lowerFirst (c.leafName n.path)))
  /-- After its position, if several cases have a leaf in it. -/
  | shared {j j' : Nat} {n n' : Node} (ne : j ≠ j') (user : l.Stores j n id)
    (other : l.Stores j' n' id) (named : l.progress.slots.Named id (Slots.sharedName position))

/-! ## One more case -/

/-- What storing a case does to names. -/
theorem Sound.names_place (h : l.Sound) (classOf : Shape → StorageClass) (c : Case) :
    l.progress.Names (c.scope classOf) (c.requests classOf) (l.place classOf c).1
      (l.place classOf c).2 := by
  refine (Progress.sound_newCase h l.nodes).names_placeAll (c.requests classOf) ?_
  exact (h.place classOf c).1.nodup_ids (length_place classOf l c)
    (h.overlapLeaves_place classOf c) (h.claims_place classOf c)

theorem CaseAdded.named (step : CaseAdded classOf c ts l l') {a : String}
    (h : (l.place classOf c).2.slots.Named id a) : l'.progress.slots.Named id a :=
  h.of_frame fun _ hf => (congrArg (·[id]?) step.fields).trans hf

theorem CaseAdded.frame (step : CaseAdded classOf c ts l l') (h : l.Sound) {f : Field}
    (hf : l.fields[id]? = some f) (hid : id ∉ (l.place classOf c).1) :
    l'.fields[id]? = some f := by
  rw [step.fields]
  exact (h.names_place classOf c).frame hf hid

/-- The leaves of the case come from its requests. -/
theorem CaseAdded.mem_leaves (step : CaseAdded classOf c ts l l') {r : Request}
    (hr : (r, id) ∈ (c.requests classOf).zip (l.place classOf c).1) :
    r.node id ∈ NodeTree.leavesAll ts := by
  obtain ⟨added, -, hst⟩ := step.nodes
  rw [hst.leaves, ← List.map_uncurry_zip_eq_zipWith]
  exact List.mem_map_of_mem hr

theorem CaseAdded.exists_request (step : CaseAdded classOf c ts l l')
    (hn : n ∈ NodeTree.leavesAll ts) :
    ∃ r id, (r, id) ∈ (c.requests classOf).zip (l.place classOf c).1 ∧ n = r.node id := by
  obtain ⟨added, -, hst⟩ := step.nodes
  rw [hst.leaves, ← List.map_uncurry_zip_eq_zipWith, List.mem_map] at hn
  obtain ⟨⟨r, id⟩, hmem, rfl⟩ := hn
  exact ⟨r, id, hmem, rfl⟩

theorem CaseAdded.exists_leaf (step : CaseAdded classOf c ts l l')
    (hid : id ∈ (l.place classOf c).1) : ∃ n ∈ NodeTree.leavesAll ts, n.field = some id := by
  have hzip : id ∈ ((c.requests classOf).zip (l.place classOf c).1).map (·.2) := by
    rwa [List.map_snd_zip (Nat.le_of_eq (length_place classOf l c))]
  obtain ⟨⟨r, i⟩, hr, rfl⟩ := List.mem_map.mp hzip
  exact ⟨_, step.mem_leaves hr, rfl⟩

/-- The leaves of the cases that there are stay the same. -/
theorem CaseAdded.leafNodes_eq (step : CaseAdded classOf c ts l l')
    (before : Built classOf overlapped done l) (hcl : cl ∈ l.cases) :
    l'.leafNodes cl.roots = l.leafNodes cl.roots := by
  obtain ⟨_, _, us, hus⟩ := before.holds_of_mem hcl
  rw [hus.leafNodes, (hus.mono (step.grows before.sound)).leafNodes]

/-- What a case stores is decided when it is added. -/
theorem CaseAdded.stores_iff (step : CaseAdded classOf c ts l l')
    (before : Built classOf overlapped done l) : l'.Stores j n id ↔
      l.Stores j n id ∨ j = l.cases.length ∧ n ∈ NodeTree.leavesAll ts ∧ n.field = some id := by
  have hsame : ∀ cl ∈ l.cases, l'.leafNodes cl.roots = l.leafNodes cl.roots :=
    fun _ hcl => step.leafNodes_eq before hcl
  have hnew := (step.holds before.sound).leafNodes
  simp only [Stores, step.cases, getElem?_concat_eq_some_iff]
  constructor
  · rintro ⟨cl, hcl | ⟨rfl, rfl⟩, hn, hf⟩
    · exact Or.inl ⟨cl, hcl, hsame cl (List.mem_of_getElem? hcl) ▸ hn, hf⟩
    · exact Or.inr ⟨rfl, hnew ▸ hn, hf⟩
  · rintro (⟨cl, hcl, hn, hf⟩ | ⟨rfl, hn, hf⟩)
    · exact ⟨cl, Or.inl hcl, (hsame cl (List.mem_of_getElem? hcl)).symm ▸ hn, hf⟩
    · exact ⟨_, Or.inr ⟨rfl, rfl⟩, hnew.symm ▸ hn, hf⟩

/-- The leaves of the case have the fields that its requests were met by. -/
theorem CaseAdded.mem_place (step : CaseAdded classOf c ts l l') (hn : n ∈ NodeTree.leavesAll ts)
    (hf : n.field = some id) : id ∈ (l.place classOf c).1 := by
  obtain ⟨r, i, hr, rfl⟩ := step.exists_request hn
  obtain rfl : i = id := Option.some.inj hf
  exact (List.of_mem_zip hr).2

theorem Holds.mem_leafFields (h : Holds classOf l c cl ts) (hn : n ∈ NodeTree.leavesAll ts)
    (ho : n.isOverlap = true) (hf : n.field = some id) : id ∈ cl.leafFields := by
  obtain ⟨id', hid, hf'⟩ := h.exists_leafField hn ho
  rwa [← Option.some.inj (hf'.symm.trans hf)]

/-- A leaf that has a slot of the layout with one more case has a slot already. -/
theorem CaseAdded.mem_unionFields (step : CaseAdded classOf c ts l l')
    (before : Built classOf overlapped done l) (hs : l.Stores j n id)
    (hid : id ∈ l'.unionFields) : id ∈ l.unionFields := by
  obtain ⟨cl, hcl, hn, hf⟩ := hs
  have hmem := List.mem_of_getElem? hcl
  obtain ⟨d, -, us, hus⟩ := before.holds_of_mem hmem
  rw [hus.leafNodes] at hn
  cases ho : n.isOverlap with
  | false =>
    obtain ⟨i, hi, hfi⟩ := hus.slotLeaves n hn ho
    rw [hf, Option.some.injEq] at hfi
    exact hfi ▸ hi
  | true =>
    -- what is inside the overlap region is not a slot
    have hleaf := hus.mem_leafFields hn ho hf
    have hinside : id ∈ l'.cases.flatMap CaseLayout.inside := List.mem_flatMap.mpr
      ⟨cl, step.cases ▸ List.mem_append_left _ hmem, cl.leafFields_subset hleaf⟩
    have hnd := (before.case step).sound.nodup
    exact absurd rfl ((List.nodup_append.mp hnd).2.2 id (List.mem_append_right _ hid) id hinside)

/-- **How a slot is named when a case is added.** -/
theorem CaseAdded.slotTitle (step : CaseAdded classOf c ts l l')
    (before : Built classOf overlapped done l)
    (ih : ∀ position, l.unionFields[position]? = some id → SlotTitle done l position id)
    {position : Nat} (hpos : l'.unionFields[position]? = some id) :
    SlotTitle (done ++ [c]) l' position id := by
  have hnames := before.sound.names_place classOf c
  have hid := List.mem_of_getElem? hpos
  by_cases hold : id ∈ l.unionFields
  · -- a slot that was there has kept its position
    have hpos' : l.unionFields[position]? = some id :=
      getElem?_of_prefix (step.grows before.sound).slots.slots
        (before.case step).sound.nodup_slots hold hpos
    by_cases hids : id ∈ (l.place classOf c).1
    · -- the case has joined those that use it
      obtain ⟨n, hn, hf⟩ := step.exists_leaf hids
      have hnew : l'.Stores l.cases.length n id := (step.stores_iff before).mpr (.inr ⟨rfl, hn, hf⟩)
      obtain ⟨j, n', hstores⟩ : ∃ j n', l.Stores j n' id := by
        cases ih position hpos' with
        | single _ user => exact ⟨_, _, user⟩
        | shared _ user => exact ⟨_, _, user⟩
      have hne : j ≠ l.cases.length := by
        obtain ⟨cl, hcl, -⟩ := hstores
        exact Nat.ne_of_lt (List.getElem?_eq_some_iff.mp hcl).1
      exact .shared hne ((step.stores_iff before).mpr (.inl hstores)) hnew
        (step.named (hnames.shared hpos' hids))
    · -- nothing has changed for it
      have hframe : ∀ {a}, l.progress.slots.Named id a → l'.progress.slots.Named id a :=
        fun hnamed => hnamed.of_frame fun f hf => step.frame before.sound hf hids
      have hsame : ∀ {j n}, l'.Stores j n id ↔ l.Stores j n id := by
        intro j n
        rw [step.stores_iff before]
        exact or_iff_left fun hnew => hids (step.mem_place hnew.2.1 hnew.2.2)
      cases ih position hpos' with
      | single subject user only named =>
        exact .single (getElem?_concat_eq_some_iff.mpr (.inl subject)) (hsame.mpr user)
          (fun hs => only (hsame.mp hs)) (hframe named)
      | shared ne user other named =>
        exact .shared ne (hsame.mpr user) (hsame.mpr other) (hframe named)
  · -- a new slot is named after the leaf that it was declared for
    obtain ⟨r, hr, hnamed⟩ := hnames.fresh (step.unionFields ▸ hid) hold
    rw [Case.slotName_eq (List.of_mem_zip hr).1] at hnamed
    refine .single (n := r.node id) (getElem?_concat_eq_some_iff.mpr (.inr ⟨rfl, rfl⟩)) ?_ ?_ ?_
    · rw [← before.length_cases]
      exact (step.stores_iff before).mpr (.inr ⟨rfl, step.mem_leaves hr, rfl⟩)
    · intro j' n' hs
      rw [← before.length_cases]
      exact ((step.stores_iff before).mp hs).elim
        (fun hs => absurd (step.mem_unionFields before hs hid) hold) fun hnew => hnew.1
    · exact step.named hnamed

theorem Built.slotTitle (h : Built classOf overlapped done l) {position : Nat}
    (hpos : l.unionFields[position]? = some id) : SlotTitle done l position id := by
  induction h generalizing position with
  | start => exact absurd hpos (by simp [Layout.start])
  | case before step ih => exact step.slotTitle before (fun _ => ih) hpos

/-! ## The overlap region -/

/-- No request is met by the overlap region. -/
theorem Sound.overlap_notMem_place (h : l.Sound) (classOf : Shape → StorageClass) (c : Case)
    (ho : l.overlap = some id) : id ∉ (l.place classOf c).1 := by
  intro hid
  have hs := (h.place classOf c).1
  have hmem : id ∈ (l.place classOf c).2.slots.slots ++
      (l.cases.flatMap CaseLayout.inside ++ (l.place classOf c).2.inside) := by
    have hsplit :=
      (fieldsOf_append_perm Request.isOverlap (length_place classOf l c)).mem_iff.mpr hid
    rw [← h.overlapLeaves_place, List.mem_append] at hsplit
    rcases hsplit with hleaf | hclaim
    · simp [Progress.inside, hleaf]
    · refine List.mem_append_left _ (hs.slots.claims_subset id ?_)
      rwa [h.claims_place, List.mem_reverse]
  have hnd := hs.slots.nodup
  rw [ho, Option.toList_some, List.append_assoc] at hnd
  exact (List.nodup_cons.mp hnd).1 hmem

theorem Built.overlapRegion (h : Built classOf overlapped done l) (ho : l.overlap = some id) :
    l.fields[id]? = some .overlapRegion := by
  induction h with
  | start =>
    cases overlapped with
    | true =>
      obtain rfl : 0 = id := Option.some.inj ho
      rfl
    | false => exact absurd ho (by simp [Layout.start])
  | case before step ih =>
    rw [step.overlap] at ho
    exact step.frame before.sound (ih ho) (before.sound.overlap_notMem_place classOf _ ho)

/-! ## In the overlap region -/

/-- How the fields of a case in the overlap region are named. -/
structure RegionNames (l : Layout) (c : Case) (cl : CaseLayout) : Prop where
  /-- The region of a case is named after it. -/
  region : ∀ id ∈ cl.region, l.fieldName id = c.name
  /-- The only leaf of a case is told from the leaves of other cases, and one of several from the
  others of the case. -/
  leaf : ∀ n ∈ l.leafNodes cl.roots, n.isOverlap = true → ∀ id ∈ n.field, l.fieldName id
    = if cl.regionFields = [] then c.leafName n.path else Text.underscored (c.trace n.path)

/-- A field inside the overlap region keeps its name. -/
theorem Grows.fieldName_eq (hg : l.Grows l') {f : Field} (hf : l.fields[id]? = some f)
    (hp : f.place ≠ .onUnion) : l'.fieldName id = l.fieldName id := by
  have hf' : l'.fields[id]? = some f := hg.slots.inside hf hp
  rw [fieldName, fieldName, hf, hf']

/-- What a case has inside the overlap region is declared there. -/
theorem Holds.exists_inside (h : Holds classOf l c cl ts) (hid : id ∈ cl.inside) :
    ∃ f, l.fields[id]? = some f ∧ f.place ≠ .onUnion := by
  rw [CaseLayout.inside, List.mem_append, Option.mem_toList] at hid
  rcases hid with hid | hid
  · obtain ⟨f, hf, -, hp⟩ := h.overlapField id hid
    exact ⟨f, hf, by simp [hp]⟩
  · obtain ⟨region, -, f, hf, -, hp⟩ := h.regionFields id hid
    exact ⟨f, hf, by simp [hp]⟩

theorem RegionNames.mono (h : RegionNames l c cl) (hh : Holds classOf l c cl ts)
    (hg : l.Grows l') : RegionNames l' c cl where
  region id hid := by
    have hover : cl.overlapField = some id := (CaseLayout.region_eq_some_iff.mp hid).2
    have hinside : id ∈ cl.inside := by simp [CaseLayout.inside, hover]
    obtain ⟨f, hf, hp⟩ := hh.exists_inside hinside
    rw [hg.fieldName_eq hf hp, h.region id hid]
  leaf n hn ho id hf := by
    rw [(hh.mono hg).leafNodes] at hn
    obtain ⟨f, hfield, hp⟩ := hh.exists_inside (cl.leafFields_subset (hh.mem_leafFields hn ho hf))
    rw [hg.fieldName_eq hfield hp, h.leaf n (hh.leafNodes ▸ hn) ho id hf]

/-- A case has fields in a region of its own exactly if it needs one. -/
theorem Sound.regionFields_eq_nil_iff (h : l.Sound) (classOf : Shape → StorageClass) (c : Case) :
    (l.place classOf c).2.regionFields = [] ↔ (c.scope classOf).needsRegion = false := by
  rw [(h.place classOf c).1.regionFields, h.needsRegion_place]
  cases (l.place classOf c).2.overlapLeaves <;> simp

/-- **How the fields of a case in the overlap region are named when it is added.** -/
theorem CaseAdded.regionNames (step : CaseAdded classOf c ts l l') (h : l.Sound) :
    RegionNames l' c (l.caseLayout classOf c ts) where
  region id hid := by
    have hs := (h.place classOf c).1
    obtain ⟨hfields, hover⟩ := CaseLayout.region_eq_some_iff.mp hid
    have hneed : (c.scope classOf).needsRegion = true := by
      simpa using mt (h.regionFields_eq_nil_iff classOf c).mpr hfields
    have hleaves : (l.place classOf c).2.overlapLeaves ≠ [] := by
      intro hnil
      refine hfields (hs.regionFields.trans ?_)
      rw [if_pos hneed, hnil]
    obtain ⟨region, hr⟩ := Option.isSome_iff_exists.mp (hs.opened hneed hleaves)
    have hover' : Layout.overlapField (l.place classOf c).2 = some region := by
      rw [Layout.overlapField, hr]
    obtain rfl : region = id := Option.some.inj (hover'.symm.trans hover)
    have hf := ((h.names_place classOf c).region hr).resolve_left (by simp [progress])
    rw [fieldName, step.fields, hf]
    rfl
  leaf n hn ho id hf := by
    rw [(step.holds h).leafNodes] at hn
    obtain ⟨r, i, hr, rfl⟩ := step.exists_request hn
    obtain rfl : i = id := Option.some.inj hf
    obtain ⟨f, hfield, hname⟩ := (h.names_place classOf c).leaves hr ho
    rw [Case.overlapName_eq (List.of_mem_zip hr).1] at hname
    rw [fieldName, step.fields, hfield, Option.map_some, Option.getD_some, hname]
    have hiff := h.regionFields_eq_nil_iff classOf c
    rw [caseLayout]
    cases hneed : (c.scope classOf).needsRegion with
    | true =>
      rw [if_pos rfl, if_neg fun he => absurd (hiff.mp he) (by simp [hneed])]
      rfl
    | false =>
      rw [if_neg (by simp), if_pos (hiff.mpr hneed)]
      rfl

/-- **How the fields of each case in the overlap region are named.** -/
theorem Built.regionNames (h : Built classOf overlapped done l) (hc : done[j]? = some c)
    (hcl : l.cases[j]? = some cl) : RegionNames l c cl := by
  induction h with
  | start => exact absurd hc (by simp)
  | case before step ih =>
    rw [step.cases, getElem?_concat_eq_some_iff] at hcl
    rw [getElem?_concat_eq_some_iff, ← before.length_cases] at hc
    rcases hcl with hcl | ⟨rfl, rfl⟩
    · have hlt := (List.getElem?_eq_some_iff.mp hcl).1
      have hc := hc.resolve_right fun he => Nat.ne_of_lt hlt he.1
      obtain ⟨cl', ts, hcl', hold⟩ := before.holds_at hc
      obtain rfl : cl' = cl := Option.some.inj (hcl'.symm.trans hcl)
      exact (ih hc hcl).mono hold (step.grows before.sound)
    · rcases hc with hc | ⟨-, rfl⟩
      · exact absurd (List.getElem?_eq_some_iff.mp hc).1 (by simp [before.length_cases])
      · exact step.regionNames before.sound

/-! ## Finished layouts -/

/-- The names of the fields tell who uses them, where `cs` are the cases that are stored. -/
structure NamedByUse (cs : List Case) (l : Layout) : Prop where
  /-- A slot with a single leaf is named after it. -/
  single : ∀ (i : Nat) id j c n, l.unionFields[i]? = some id → cs[j]? = some c → l.Stores j n id →
    (∀ j' n', l.Stores j' n' id → j' = j ∧ n' = n) →
    l.progress.slots.Named id (Text.lowerFirst (c.leafName n.path))
  /-- A slot with leaves of several cases is named after its position. -/
  shared : ∀ (i : Nat) id j j' n n', l.unionFields[i]? = some id → l.Stores j n id →
    l.Stores j' n' id → j ≠ j' → l.progress.slots.Named id (Slots.sharedName i)
  /-- A leaf directly in the overlap region is named after its case and itself. -/
  promoted : ∀ (j : Nat) c n id f, cs[j]? = some c → l.Stores j n id → l.fields[id]? = some f →
    f.place = .inOverlap → f.name = c.leafName n.path
  /-- A leaf in the region of its case is named after itself alone. -/
  inRegion : ∀ (j : Nat) c n id f region, cs[j]? = some c → l.Stores j n id →
    l.fields[id]? = some f → f.place = .inRegion region → f.name = Text.underscored (c.trace n.path)
  /-- The region of a case is named after the case. -/
  region : ∀ (j : Nat) c cl id, cs[j]? = some c → l.cases[j]? = some cl → cl.region = some id →
    ∃ f, l.fields[id]? = some f ∧ f.name = c.name

/-- A slot with a single leaf is named after it. -/
theorem SlotTitle.named_of_single {position : Nat} (h : SlotTitle done l position id)
    (hc : done[j]? = some c) (hs : l.Stores j n id)
    (hone : ∀ j' n', l.Stores j' n' id → j' = j ∧ n' = n) :
    l.progress.slots.Named id (Text.lowerFirst (c.leafName n.path)) := by
  cases h with
  | single hc' user _ named =>
    obtain ⟨rfl, rfl⟩ := hone _ _ user
    obtain rfl := Option.some.inj (hc.symm.trans hc')
    exact named
  | shared hne user other _ => exact absurd ((hone _ _ user).1.trans (hone _ _ other).1.symm) hne

/-- A slot with leaves of several cases is named after its position. -/
theorem SlotTitle.named_of_shared {position j' : Nat} {n' : Node}
    (h : SlotTitle done l position id) (hs : l.Stores j n id) (hs' : l.Stores j' n' id)
    (hne : j ≠ j') : l.progress.slots.Named id (Slots.sharedName position) := by
  cases h with
  | single _ _ only _ => exact absurd ((only hs).trans (only hs').symm) hne
  | shared _ _ _ named => exact named

theorem fieldName_eq_name {f : Field} (hf : l.fields[id]? = some f) : l.fieldName id = f.name := by
  rw [fieldName, hf]
  rfl

/-- A leaf whose field is not on the union is an overlappable one. -/
theorem Holds.isOverlap_of_place (h : Holds classOf l c cl ts)
    (hb : Built classOf overlapped done l) (hn : n ∈ NodeTree.leavesAll ts)
    (hid : n.field = some id) {f : Field} (hf : l.fields[id]? = some f)
    (hp : f.place ≠ .onUnion) : n.isOverlap = true := by
  cases ho : n.isOverlap with
  | true => rfl
  | false =>
    obtain ⟨id', hslot, hid'⟩ := h.slotLeaves n hn ho
    obtain rfl : id = id' := Option.some.inj (hid.symm.trans hid')
    exact absurd (hb.place_onUnion (Or.inr hslot) hf).1 hp

/-- How a leaf in the overlap region is named. -/
theorem Built.name_inside (hb : Built classOf overlapped done l) (hc : done[j]? = some c)
    (hs : l.Stores j n id) {f : Field} (hf : l.fields[id]? = some f) (hp : f.place ≠ .onUnion) :
    ∃ cl ∈ l.cases, id ∈ cl.leafFields ∧
      f.name = if cl.regionFields = [] then c.leafName n.path
        else Text.underscored (c.trace n.path) := by
  obtain ⟨cl, hcl, hn, hid⟩ := hs
  obtain ⟨cl', ts, hcl', h⟩ := hb.holds_at hc
  obtain rfl : cl = cl' := Option.some.inj (hcl.symm.trans hcl')
  have hleaf : n ∈ NodeTree.leavesAll ts := h.leafNodes ▸ hn
  have ho := h.isOverlap_of_place hb hleaf hid hf hp
  refine ⟨cl, List.mem_of_getElem? hcl, h.mem_leafFields hleaf ho hid, ?_⟩
  rw [← fieldName_eq_name hf]
  exact (hb.regionNames hc hcl).leaf n hn ho id hid

/-- A leaf directly in the overlap region is named after its case and itself. -/
theorem Built.name_promoted (hb : Built classOf overlapped done l) (hc : done[j]? = some c)
    (hs : l.Stores j n id) {f : Field} (hf : l.fields[id]? = some f) (hp : f.place = .inOverlap) :
    f.name = c.leafName n.path := by
  obtain ⟨cl, hcl, hleaf, hname⟩ := hb.name_inside hc hs hf (by simp [hp])
  by_cases hnil : cl.regionFields = []
  · rw [hname, if_pos hnil]
  · -- the leaves of a case that has a region are all in it
    rw [CaseLayout.leafFields, if_neg (by simpa using hnil)] at hleaf
    obtain ⟨region, -, hp', -⟩ := hb.place_regionFields hcl hleaf hf
    exact absurd (hp.symm.trans hp') (by simp)

/-- A leaf in the region of its case is named after itself alone. -/
theorem Built.name_inRegion (hb : Built classOf overlapped done l) (hc : done[j]? = some c)
    (hs : l.Stores j n id) {f : Field} {region : FieldId} (hf : l.fields[id]? = some f)
    (hp : f.place = .inRegion region) : f.name = Text.underscored (c.trace n.path) := by
  obtain ⟨cl, hcl, hleaf, hname⟩ := hb.name_inside hc hs hf (by simp [hp])
  by_cases hnil : cl.regionFields = []
  · have hfield : cl.overlapField = some id := by
      simpa [CaseLayout.leafFields, hnil, eq_comm] using hleaf
    exact absurd (hp.symm.trans (hb.place_overlapField hcl hfield hf).1) (by simp)
  · rw [hname, if_neg hnil]

/-- The region of a case is named after the case. -/
theorem Built.name_region (hb : Built classOf overlapped done l) (hc : done[j]? = some c)
    (hcl : l.cases[j]? = some cl) (hr : cl.region = some id) :
    ∃ f, l.fields[id]? = some f ∧ f.name = c.name := by
  obtain ⟨cl', ts, hcl', hh⟩ := hb.holds_at hc
  obtain rfl : cl = cl' := Option.some.inj (hcl.symm.trans hcl')
  obtain ⟨f, hf, -⟩ := hh.overlapField id (CaseLayout.region_eq_some_iff.mp hr).2
  refine ⟨f, hf, ?_⟩
  rw [← fieldName_eq_name hf]
  exact (hb.regionNames hc hcl).region id hr

/-- **The names of the fields of a layout tell who uses them.** -/
theorem namedByUse_of_allocate {u : Union} {allowOverlap : Bool}
    (h : allocate u allowOverlap = .ok l) : l.NamedByUse u.cases := by
  have hb := (built_of_allocate h).2
  exact
    { single := fun _ _ _ _ _ hi hc hs hone => (hb.slotTitle hi).named_of_single hc hs hone
      shared := fun _ _ _ _ _ _ hi hs hs' hne => (hb.slotTitle hi).named_of_shared hs hs' hne
      promoted := fun _ _ _ _ _ hc hs hf hp => hb.name_promoted hc hs hf hp
      inRegion := fun _ _ _ _ _ _ hc hs hf hp => hb.name_inRegion hc hs hf hp
      region := fun _ _ _ _ hc hcl hr => hb.name_region hc hcl hr }

theorem namedByUse_figures : ∃ l, allocate .figures true = .ok l ∧
    l.fields.map (·.name) = ["_overlapped", "Circle_radius", "Box", "corner_x", "corner_y",
      "_data_shared1", "_data_custom_payload", "_data_custom_fallback"] ∧
    l.NamedByUse Union.figures.cases := by
  have hrun : (allocate .figures true).map (fun l => l.fields.map (·.name))
      = .ok ["_overlapped", "Circle_radius", "Box", "corner_x", "corner_y", "_data_shared1",
        "_data_custom_payload", "_data_custom_fallback"] := by decide +kernel
  obtain ⟨l, hl, hnames⟩ := exists_layout_of_map hrun
  exact ⟨l, hl, hnames, namedByUse_of_allocate hl⟩

end Layout

end SumLayout
