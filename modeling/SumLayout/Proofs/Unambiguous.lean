import SumLayout.Proofs.FieldNames
import SumLayout.Proofs.PlanOutcome

/-!
# When names tell fields apart

Names are joined from segments with underscores, so that segments with underscores of their own may
come to the same name. **If no name contains one, then fields next to each other have different
names** (`unambiguous_of_plan`). On the union, where names start with a small letter, cases must not
differ in their first letter alone.

Neither condition can be dropped (`ambiguous_underscore`, `ambiguous_firstLetter`).
-/

namespace SumLayout

/-- A name that is a segment of a joined name as a whole. -/
def Plain (name : String) : Prop := name ≠ "" ∧ '_' ∉ name.toList

/-- Names of cases and of values are plain. -/
structure Union.PlainlyNamed (u : Union) : Prop where
  cases : ∀ c ∈ u.cases, Plain c.name
  values : ∀ c ∈ u.cases, Value.NamedAll Plain c.values

namespace Slots

variable {s : Slots} {id : FieldId} {a b : String} {i j : Nat}

theorem Named.unique (h : s.Named id a) (h' : s.Named id b) : a = b := by
  obtain ⟨f, hf, ha, -⟩ := h
  obtain ⟨f', hf', hb, -⟩ := h'
  rw [hf, Option.some.injEq] at hf'
  subst hf'
  exact Option.some.inj (ha.symm.trans hb)

theorem sharedName_inj (h : sharedName i = sharedName j) : i = j := by
  have hlist := congrArg String.toList h
  rw [sharedName, sharedName, String.toList_append, String.toList_append,
    List.append_cancel_left_eq, String.toList_inj] at hlist
  have hnum := congrArg (fun s => Nat.ofDigitChars 10 s.toList 0) hlist
  simpa [Nat.toString_eq_ofList_toDigits] using hnum

theorem underscore_notMem_sharedName (i : Nat) : '_' ∉ (sharedName i).toList := by
  rw [sharedName, String.toList_append, List.mem_append, not_or]
  refine ⟨by decide, fun h => ?_⟩
  rw [Nat.toString_eq_ofList_toDigits, String.toList_ofList] at h
  exact absurd (Nat.isDigit_of_mem_toDigits (by decide) (by decide) h) (by decide)

end Slots

/-! ## Names of leaves -/

theorem Plain.lowerFirst {name : String} (h : Plain name) : Plain (Text.lowerFirst name) :=
  ⟨Text.lowerFirst_ne_empty h.1, Text.underscore_notMem_lowerFirst h.2⟩

namespace Layout

variable {classOf : Shape → StorageClass} {overlapped : Bool} {done : List Case} {l : Layout}
  {c c' : Case} {j j' i i' : Nat} {n n' : Node} {x y : FieldId} {a : String}

/-- Fields next to each other inside the overlap region have different names. -/
structure UnambiguousInside (l : Layout) : Prop where
  inOverlap : ((l.cases.filterMap CaseLayout.overlapField).map l.fieldName).Nodup
  inRegion : ∀ c ∈ l.cases, (c.regionFields.map l.fieldName).Nodup

/-- Fields next to each other have different names, and those on the union different arguments. -/
structure Unambiguous (l : Layout) : Prop extends UnambiguousInside l where
  onUnion : ((l.overlap.toList ++ l.unionFields).map l.fieldName).Nodup
  arguments : ((l.overlap.toList ++ l.unionFields).map l.fieldArgument).Nodup

/-- A leaf that a case stores comes from one of its requests. -/
theorem Stores.exists_request (h : l.Stores j n x) (hb : Built classOf overlapped done l)
    (hc : done[j]? = some c) : ∃ r ∈ c.requests classOf, r.path = n.path := by
  obtain ⟨cl, hcl, hn, -⟩ := h
  obtain ⟨cl', ts, hcl', hh⟩ := hb.holds_at hc
  obtain rfl : cl' = cl := Option.some.inj (hcl'.symm.trans hcl)
  exact hh.exists_request (hh.leafNodes ▸ hn)

/-- **The field of a leaf is told by its case and its trace.** -/
theorem Stores.field_eq (h : l.Stores j n x) (h' : l.Stores j n' y)
    (hb : Built classOf overlapped done l) (hc : done[j]? = some c)
    (hd : Value.DistinctAll c.values) (he : c.trace n.path = c.trace n'.path) : x = y := by
  obtain ⟨r, hr, hpath⟩ := h.exists_request hb hc
  obtain ⟨r', hr', hpath'⟩ := h'.exists_request hb hc
  rw [← hpath, ← hpath'] at he
  have hsame : n.path = n'.path := by rw [← hpath, ← hpath', Case.trace_inj hr hr' he]
  obtain ⟨cl, hcl, hn, hf⟩ := h
  obtain ⟨cl', hcl', hn', hf'⟩ := h'
  obtain rfl : cl' = cl := Option.some.inj (hcl'.symm.trans hcl)
  obtain ⟨cl'', ts, hcl'', hh⟩ := hb.holds_at hc
  obtain rfl : cl'' = cl' := Option.some.inj (hcl''.symm.trans hcl)
  rw [hh.leafNodes] at hn hn'
  have hnodup : ((NodeTree.leavesAll ts).map (·.path)).Nodup :=
    hh.map_path ▸ Value.nodup_path c.values "" [] hd
  rw [List.inj_on_of_nodup_map hnodup hn hn' hsame, hf'] at hf
  exact (Option.some.inj hf).symm

/-- **The trace of a leaf has plain segments**, and at least one. -/
theorem Stores.plain_trace (h : l.Stores j n x) (hb : Built classOf overlapped done l)
    (hc : done[j]? = some c) (hv : Value.NamedAll Plain c.values) :
    c.trace n.path ≠ [] ∧ ∀ a ∈ c.trace n.path, Plain a := by
  obtain ⟨r, hr, hpath⟩ := h.exists_request hb hc
  rw [← hpath]
  exact ⟨Case.trace_ne_nil hr, fun a ha =>
    (Value.mem_path c.values "" [] hv hr (Case.mem_of_mem_trace ha)).resolve_left List.not_mem_nil⟩

/-! ## On the union -/

/-- The argument of a slot with a single leaf, as it is joined. -/
theorem lowerFirst_leafName (hc : c.name ≠ "") (path : List String) :
    Text.lowerFirst (c.leafName path)
      = Text.underscored (Text.lowerFirst c.name :: c.trace path) :=
  Text.lowerFirst_underscored hc (Text.lowerFirst_ne_empty hc) _

/-- Names of cases and of values are plain, and siblings have different names. -/
structure Tells (cs : List Case) : Prop where
  cases : ∀ c ∈ cs, Plain c.name
  values : ∀ c ∈ cs, Value.NamedAll Plain c.values
  distinct : ∀ c ∈ cs, Value.DistinctAll c.values

/-- A slot with a single leaf has an underscore in its argument. No other argument has one. -/
theorem Stores.underscore_mem (h : l.Stores j n x) (hb : Built classOf overlapped done l)
    (ht : Tells done) (hc : done[j]? = some c) :
    '_' ∈ (Text.lowerFirst (c.leafName n.path)).toList := by
  have hmem := List.mem_of_getElem? hc
  have hname := (ht.cases c hmem).1
  obtain ⟨hne, hplain⟩ := h.plain_trace hb hc (ht.values c hmem)
  rw [lowerFirst_leafName hname]
  refine Text.mem_underscored (Text.lowerFirst_ne_empty hname) fun hempty => hne ?_
  rwa [Text.underscored_eq_empty, List.filter_eq_self.mpr] at hempty
  exact fun a ha => by simpa using (hplain a ha).1

/-- **The argument of a slot with a single leaf tells the slot.** -/
theorem Stores.eq_of_lowerFirst (h : l.Stores j n x) (h' : l.Stores j' n' y)
    (hb : Built classOf overlapped done l) (ht : Tells done)
    (hlow : (done.map fun c => Text.lowerFirst c.name).Nodup) (hc : done[j]? = some c)
    (hc' : done[j']? = some c')
    (he : Text.lowerFirst (c.leafName n.path) = Text.lowerFirst (c'.leafName n'.path)) :
    x = y := by
  have hmem := List.mem_of_getElem? hc
  have hmem' := List.mem_of_getElem? hc'
  obtain ⟨-, hplain⟩ := h.plain_trace hb hc (ht.values c hmem)
  obtain ⟨-, hplain'⟩ := h'.plain_trace hb hc' (ht.values c' hmem')
  rw [lowerFirst_leafName (ht.cases c hmem).1, lowerFirst_leafName (ht.cases c' hmem').1] at he
  have hsegments := Text.underscored_inj
    (List.forall_mem_cons.mpr ⟨(ht.cases c hmem).lowerFirst, hplain⟩)
    (List.forall_mem_cons.mpr ⟨(ht.cases c' hmem').lowerFirst, hplain'⟩) he
  obtain ⟨hfirst, htrace⟩ := List.cons.inj hsegments
  -- the first segments are the cases', so that both leaves are in one case
  have hat : (done.map fun c => Text.lowerFirst c.name)[j]? = some (Text.lowerFirst c.name) := by
    rw [List.getElem?_map, hc, Option.map_some]
  have hat' : (done.map fun c => Text.lowerFirst c.name)[j']? = some (Text.lowerFirst c'.name) := by
    rw [List.getElem?_map, hc', Option.map_some]
  have hj : j = j' := (List.getElem?_inj (List.getElem?_eq_some_iff.mp hat).1 hlow).mp
    (hat.trans (hfirst ▸ hat'.symm))
  subst hj
  obtain rfl : c = c' := Option.some.inj (hc.symm.trans hc')
  exact h.field_eq h' hb hc (ht.distinct c hmem) htrace

/-- **Slots with one argument are one slot.** -/
theorem Built.slot_inj (hb : Built classOf overlapped done l) (ht : Tells done)
    (hlow : (done.map fun c => Text.lowerFirst c.name).Nodup)
    (hx : x ∈ l.unionFields) (hy : y ∈ l.unionFields) (hxa : l.progress.slots.Named x a)
    (hya : l.progress.slots.Named y a) : x = y := by
  obtain ⟨i, hi⟩ := List.getElem?_of_mem hx
  obtain ⟨i', hi'⟩ := List.getElem?_of_mem hy
  cases hb.slotTitle hi with
  | single hc user _ named =>
    cases hb.slotTitle hi' with
    | single hc' user' _ named' =>
      exact user.eq_of_lowerFirst user' hb ht hlow hc hc'
        ((named.unique hxa).trans (hya.unique named'))
    | shared _ _ _ named' =>
      have he := (named.unique hxa).trans (hya.unique named')
      exact absurd (he ▸ user.underscore_mem hb ht hc) (Slots.underscore_notMem_sharedName i')
  | shared _ _ _ named =>
    cases hb.slotTitle hi' with
    | single hc' user' _ named' =>
      have he := (named'.unique hya).trans (hxa.unique named)
      exact absurd (he ▸ user'.underscore_mem hb ht hc') (Slots.underscore_notMem_sharedName i)
    | shared _ _ _ named' =>
      obtain rfl := Slots.sharedName_inj ((named.unique hxa).trans (hya.unique named'))
      exact Option.some.inj (hi.symm.trans hi')

/-- Every slot has an argument, and it is not that of the overlap region. -/
theorem Built.exists_named (hb : Built classOf overlapped done l) (ht : Tells done)
    (hx : x ∈ l.unionFields) : ∃ a, l.progress.slots.Named x a ∧ a ≠ "overlapped" := by
  obtain ⟨i, hi⟩ := List.getElem?_of_mem hx
  cases hb.slotTitle hi with
  | single hc user _ named =>
    refine ⟨_, named, fun he => ?_⟩
    exact absurd (he ▸ user.underscore_mem hb ht hc) (by decide)
  | shared _ _ _ named =>
    refine ⟨_, named, fun he => ?_⟩
    have hfirst := congrArg (·.toList.head?) he
    simp [Slots.sharedName] at hfirst

theorem fieldName_of_named (h : l.progress.slots.Named x a) :
    l.fieldName x = Field.dataName a ∧ l.fieldArgument x = a := by
  obtain ⟨f, hf, harg, hname⟩ := h
  have hf : l.fields[x]? = some f := hf
  rw [fieldArgument, fieldName, hf, Option.map_some, Option.getD_some, Option.bind_some, harg]
  exact ⟨hname, rfl⟩

theorem dataName_inj {a b : String} (h : Field.dataName a = Field.dataName b) : a = b := by
  have hlist := congrArg String.toList h
  rwa [Field.dataName, Field.dataName, String.toList_append, String.toList_append,
    List.append_cancel_left_eq, String.toList_inj] at hlist

theorem dataName_ne_overlapped (a : String) : Field.dataName a ≠ "_overlapped" := by
  intro h
  have hlist := congrArg (·.toList[1]?) h
  simp [Field.dataName] at hlist

/-- What is different for different slots, and for the overlap region, is different on the union. -/
theorem Built.nodup_onUnion {β : Type} (hb : Built classOf overlapped done l)
    (f : FieldId → β) (hslots : ∀ x ∈ l.unionFields, ∀ y ∈ l.unionFields, f x = f y → x = y)
    (hover : ∀ o, l.overlap = some o → ∀ x ∈ l.unionFields, f o ≠ f x) :
    ((l.overlap.toList ++ l.unionFields).map f).Nodup := by
  rw [List.map_append, List.nodup_append]
  refine ⟨?_, List.Nodup.map_on hslots hb.sound.nodup_slots, ?_⟩
  · cases l.overlap <;> simp
  · intro b hb b' hb'
    obtain ⟨o, ho, rfl⟩ := List.mem_map.mp hb
    obtain ⟨x, hx, rfl⟩ := List.mem_map.mp hb'
    exact hover o (Option.mem_toList.mp ho) x hx

/-- **Fields on the union have different arguments and different names.** -/
theorem Built.onUnion (hb : Built classOf overlapped done l) (ht : Tells done)
    (hlow : (done.map fun c => Text.lowerFirst c.name).Nodup) :
    ((l.overlap.toList ++ l.unionFields).map l.fieldArgument).Nodup ∧
      ((l.overlap.toList ++ l.unionFields).map l.fieldName).Nodup := by
  have hover : ∀ o, l.overlap = some o →
      l.fieldArgument o = "overlapped" ∧ l.fieldName o = "_overlapped" := by
    intro o ho
    rw [fieldArgument, fieldName, hb.overlapRegion ho]
    exact ⟨rfl, rfl⟩
  constructor
  · refine hb.nodup_onUnion _ (fun x hx y hy he => ?_) fun o ho x hx he => ?_
    · obtain ⟨a, hxa, -⟩ := hb.exists_named ht hx
      obtain ⟨b, hyb, -⟩ := hb.exists_named ht hy
      rw [(fieldName_of_named hxa).2, (fieldName_of_named hyb).2] at he
      exact hb.slot_inj ht hlow hx hy hxa (he ▸ hyb)
    · obtain ⟨a, hxa, hne⟩ := hb.exists_named ht hx
      rw [(fieldName_of_named hxa).2, (hover o ho).1] at he
      exact hne he.symm
  · refine hb.nodup_onUnion _ (fun x hx y hy he => ?_) fun o ho x hx he => ?_
    · obtain ⟨a, hxa, -⟩ := hb.exists_named ht hx
      obtain ⟨b, hyb, -⟩ := hb.exists_named ht hy
      rw [(fieldName_of_named hxa).1, (fieldName_of_named hyb).1] at he
      exact hb.slot_inj ht hlow hx hy hxa (dataName_inj he ▸ hyb)
    · obtain ⟨a, hxa, -⟩ := hb.exists_named ht hx
      rw [(fieldName_of_named hxa).1, (hover o ho).2] at he
      exact dataName_ne_overlapped a he.symm

/-! ## In the overlap region -/

/-- What a case has directly in the overlap region is named after the case. -/
theorem Built.fieldName_overlapField (hb : Built classOf overlapped done l) {cl : CaseLayout}
    (hc : done[j]? = some c) (hcl : l.cases[j]? = some cl) (hx : cl.overlapField = some x)
    (hv : Value.NamedAll Plain c.values) :
    ∃ t, l.fieldName x = Text.underscored (c.name :: t) ∧ ∀ a ∈ t, Plain a := by
  have hnames := hb.regionNames hc hcl
  obtain ⟨cl', ts, hcl', hh⟩ := hb.holds_at hc
  obtain rfl : cl' = cl := Option.some.inj (hcl'.symm.trans hcl)
  by_cases hr : cl'.regionFields = []
  · have hleaf : x ∈ cl'.leafFields := by simp [CaseLayout.leafFields, hr, hx]
    obtain ⟨n, hn, ho, hf⟩ := hh.exists_overlapLeaf hleaf
    have hstores : l.Stores j n x := ⟨cl', hcl, hn, hf⟩
    refine ⟨c.trace n.path, ?_, (hstores.plain_trace hb hc hv).2⟩
    rw [hnames.leaf n hn ho x hf, if_pos hr, Case.leafName]
  · have hregion : cl'.region = some x := by
      rw [CaseLayout.region, if_neg (by simpa using hr), hx]
    refine ⟨[], ?_, fun a ha => absurd ha List.not_mem_nil⟩
    rw [hnames.region x hregion, Text.underscored_singleton]

/-- **Fields directly in the overlap region have different names.** -/
theorem Built.inOverlap (hb : Built classOf overlapped done l) (ht : Tells done)
    (hnames : (done.map Case.name).Nodup) :
    ((l.cases.filterMap CaseLayout.overlapField).map l.fieldName).Nodup := by
  rw [List.Nodup, List.pairwise_map, List.pairwise_filterMap, List.pairwise_iff_getElem]
  intro j j' hj hj' hlt x hx y hy he
  have hcl := List.getElem?_eq_getElem hj
  have hcl' := List.getElem?_eq_getElem hj'
  rw [hb.length_cases] at hj hj'
  have hc := List.getElem?_eq_getElem hj
  have hc' := List.getElem?_eq_getElem hj'
  obtain ⟨t, hname, hplain⟩ :=
    hb.fieldName_overlapField hc hcl hx (ht.values _ (List.getElem_mem hj))
  obtain ⟨t', hname', hplain'⟩ :=
    hb.fieldName_overlapField hc' hcl' hy (ht.values _ (List.getElem_mem hj'))
  rw [hname, hname'] at he
  have hsegments := Text.underscored_inj
    (List.forall_mem_cons.mpr ⟨ht.cases _ (List.getElem_mem hj), hplain⟩)
    (List.forall_mem_cons.mpr ⟨ht.cases _ (List.getElem_mem hj'), hplain'⟩) he
  -- one name at two positions would be a repetition
  refine List.nodup_iff_getElem?_ne_getElem?.mp hnames j j' hlt (by simpa using hj') ?_
  rw [List.getElem?_map, List.getElem?_map, hc, hc', Option.map_some, Option.map_some,
    (List.cons.inj hsegments).1]

/-- **Fields in the region of a case have different names.** -/
theorem Built.inRegion (hb : Built classOf overlapped done l) (ht : Tells done) {cl : CaseLayout}
    (hcl : cl ∈ l.cases) : (cl.regionFields.map l.fieldName).Nodup := by
  obtain ⟨j, hcl⟩ := List.getElem?_of_mem hcl
  have hlt : j < done.length := hb.length_cases ▸ (List.getElem?_eq_some_iff.mp hcl).1
  have hc := List.getElem?_eq_getElem hlt
  obtain ⟨cl', ts, hcl', hh⟩ := hb.holds_at hc
  obtain rfl : cl' = cl := Option.some.inj (hcl'.symm.trans hcl)
  by_cases hr : cl'.regionFields = []
  · rw [hr]
    exact List.nodup_nil
  · have hfields : cl'.leafFields = cl'.regionFields := by simp [CaseLayout.leafFields, hr]
    have hleaf : ∀ x ∈ cl'.regionFields, ∃ n, l.Stores j n x ∧
        l.fieldName x = Text.underscored (done[j].trace n.path) := by
      intro x hx
      obtain ⟨n, hn, ho, hf⟩ := hh.exists_overlapLeaf (hfields ▸ hx)
      have hname := (hb.regionNames hc hcl).leaf n hn ho x hf
      exact ⟨n, ⟨cl', hcl, hn, hf⟩, hname.trans (if_neg hr)⟩
    refine List.Nodup.map_on (fun x hx y hy he => ?_) (hfields ▸ hh.nodup_leafFields)
    obtain ⟨n, hstores, hname⟩ := hleaf x hx
    obtain ⟨n', hstores', hname'⟩ := hleaf y hy
    have hmem := List.getElem_mem hlt
    rw [hname, hname'] at he
    exact hstores.field_eq hstores' hb hc (ht.distinct _ hmem) (Text.underscored_inj
      (hstores.plain_trace hb hc (ht.values _ hmem)).2
      (hstores'.plain_trace hb hc (ht.values _ hmem)).2 he)

/-! ## All together -/

/-- **A union that can be planned has unambiguous names inside its overlap region** if siblings have
different plain names. It has unambiguous names on the union as well if cases differ in more than
whether they start with a small letter. -/
theorem unambiguous_of_plan {u : Union} {p : Plan} (hp : u.plan = .ok p) (hd : u.DistinctSiblings)
    (hplain : u.PlainlyNamed) (allowOverlap : Bool) :
    ∃ l, allocate u allowOverlap = .ok l ∧ l.UnambiguousInside ∧
      ((u.cases.map fun c => Text.lowerFirst c.name).Nodup → l.Unambiguous) := by
  obtain ⟨hc, ⟨plain, hallocate⟩, -⟩ := Union.plannable_of_plan hp
  obtain ⟨l, hl⟩ := allocate_of_plain hallocate allowOverlap
  obtain ⟨-, hb⟩ := built_of_allocate hl
  have ht : Tells u.cases := ⟨hplain.cases, hplain.values, hd⟩
  have hinside : l.UnambiguousInside :=
    ⟨hb.inOverlap ht (Union.not_contradictory_iff.mp hc).1, fun _ => hb.inRegion ht⟩
  refine ⟨l, hl, hinside, fun hlow => ?_⟩
  obtain ⟨harguments, hnames⟩ := hb.onUnion ht hlow
  exact { hinside with onUnion := hnames, arguments := harguments }

theorem unambiguous_figures : ∃ p l, Union.figures.plan = .ok p ∧
    allocate .figures true = .ok l ∧ l.Unambiguous := by
  obtain ⟨p, hp⟩ := Union.exists_plan (u := .figures) ⟨by decide, by decide⟩ (by decide) (by decide)
  have hplain : Union.figures.PlainlyNamed := by
    constructor <;> simp [Union.figures, Value.NamedAll, Value.Named, Plain]
  obtain ⟨l, hl, -, h⟩ := unambiguous_of_plan hp distinctSiblings_figures hplain true
  exact ⟨p, l, hp, hl, h (by decide)⟩

end Layout

/-! ## Ambiguous names -/

/-- A union with two cases whose names differ in whether they start with a small letter. -/
def Union.letters : Union where
  kind := .tags
  name := "Letter"
  typeName := "Letter"
  cases := [
    { name := "A", values := [{ name := "x", type := { name := "T", shape := .typeParam } }] },
    { name := "a", values := [{ name := "x", type := { name := "U", shape := .typeParam } }] }]

/-- A union with two cases whose names and values come to one name with an underscore. -/
def Union.frames : Union where
  kind := .tags
  name := "Frame"
  typeName := "Frame"
  cases := [
    { name := "Box_corner", values := [{ name := "x", type := .int }] },
    { name := "Box", values := [{ name := "corner_x", type := .int }] }]

namespace Layout

/-- **Cases that differ in their first letter alone have one name for two slots.** -/
theorem ambiguous_firstLetter : ∃ p l, Union.letters.plan = .ok p ∧
    Union.letters.DistinctSiblings ∧
    (∀ c ∈ Union.letters.cases, c.name ≠ "" ∧ Value.NamedAll (· ≠ "") c.values) ∧
    allocate .letters false = .ok l ∧
    l.unionFields.map l.fieldName = ["_data_a_x", "_data_a_x"] ∧ ¬l.Unambiguous := by
  obtain ⟨p, hp⟩ := Union.exists_plan (u := .letters) ⟨by decide, by decide⟩ (by decide) (by decide)
  have hd : Union.letters.DistinctSiblings := by
    simp [Union.DistinctSiblings, Union.letters, Value.DistinctAll, Value.Distinct]
  have hnames : ∀ c ∈ Union.letters.cases, c.name ≠ "" ∧ Value.NamedAll (· ≠ "") c.values := by
    simp [Union.letters, Value.NamedAll, Value.Named]
  have hrun : (allocate .letters false).map (fun l => l.unionFields.map l.fieldName)
      = .ok ["_data_a_x", "_data_a_x"] := by decide
  obtain ⟨l, hl, htwice⟩ := exists_layout_of_map hrun
  refine ⟨p, l, hp, hd, hnames, hl, htwice, fun h => ?_⟩
  have hslots := h.onUnion
  rw [List.map_append, List.nodup_append, htwice] at hslots
  exact absurd hslots.2.1 (by decide)

/-- **Names with underscores come to one name for two fields in the overlap region.** -/
theorem ambiguous_underscore : ∃ p l, Union.frames.plan = .ok p ∧
    Union.frames.DistinctSiblings ∧
    (∀ c ∈ Union.frames.cases, c.name ≠ "" ∧ Value.NamedAll (· ≠ "") c.values) ∧
    allocate .frames true = .ok l ∧
    (l.cases.filterMap CaseLayout.overlapField).map l.fieldName = ["Box_corner_x", "Box_corner_x"] ∧
    ¬l.UnambiguousInside := by
  obtain ⟨p, hp⟩ := Union.exists_plan (u := .frames) ⟨by decide, by decide⟩ (by decide) (by decide)
  have hd : Union.frames.DistinctSiblings := by
    simp [Union.DistinctSiblings, Union.frames, Value.DistinctAll, Value.Distinct]
  have hnames : ∀ c ∈ Union.frames.cases, c.name ≠ "" ∧ Value.NamedAll (· ≠ "") c.values := by
    simp [Union.frames, Value.NamedAll, Value.Named]
  have hrun : (allocate .frames true).map
      (fun l => (l.cases.filterMap CaseLayout.overlapField).map l.fieldName)
      = .ok ["Box_corner_x", "Box_corner_x"] := by decide
  obtain ⟨l, hl, htwice⟩ := exists_layout_of_map hrun
  refine ⟨p, l, hp, hd, hnames, hl, htwice, fun h => ?_⟩
  exact absurd (htwice ▸ h.inOverlap) (by decide)

end Layout

end SumLayout
