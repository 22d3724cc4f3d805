import SumLayout.Proofs.FieldTypes

/-!
# What allocation does not look at

A request is met by looking at the storage class and the type of its leaf and at the kinds and the
types of slots. Names are given to fields and never looked at. So **if the requests of two
declarations agree one by one, their layouts agree in everything but the names of fields**, and if
the names that the requests ask for agree as well, they agree in those, too (`Built.alike`).

Both are one statement about what is seen of a field (`Field.seen`), with its names or without. Each
operation on slots is shown to respect it, and then the runs are compared request by request and
case by case.
-/

namespace SumLayout

/-- What is seen of a field, with its names or without. -/
def Field.seen (named : Bool) (f : Field) : Field :=
  if named then f else { f with name := "", argument := none }

theorem Field.seen_true : Field.seen true = id := rfl

theorem map_modify {α β : Type} {f : α → α} {f' : β → β} {g : α → β}
    (h : ∀ x, g (f x) = f' (g x)) (xs : List α) (i : Nat) :
    (xs.modify i f).map g = (xs.map g).modify i f' := by
  refine List.ext_getElem? fun j => ?_
  by_cases hij : i = j
  · subst hij
    cases hx : xs[i]? <;> simp [hx, h]
  · simp [hij]

theorem exists_concat_of_forall₂ {α β : Type} {R : α → β → Prop} {xs : List α} {x : α}
    {zs : List β} (h : List.Forall₂ R (xs ++ [x]) zs) :
    ∃ ys y, zs = ys ++ [y] ∧ List.Forall₂ R xs ys ∧ R x y := by
  have hrev := List.rel_reverse h
  rw [List.reverse_append, List.reverse_singleton, List.singleton_append,
    List.forall₂_cons_left_iff] at hrev
  obtain ⟨y, ys, hy, hys, he⟩ := hrev
  have hxs := List.rel_reverse hys
  rw [List.reverse_reverse] at hxs
  refine ⟨ys.reverse, y, ?_, hxs, hy⟩
  rw [← List.reverse_cons, ← he, List.reverse_reverse]

namespace Slots

variable {named : Bool} {s s' : Slots} {kind : FieldKind} {argument argument' typeName : String}
  {id : FieldId}

theorem suits_seen (kind : FieldKind) (typeName : String) (f : Field) :
    suits kind typeName (f.seen named) = suits kind typeName f := by
  cases named <;> rfl

theorem shareAs_seen (typeName : String) (position : Nat) (f : Field) :
    (shareAs typeName position (f.seen named)).seen named
      = (shareAs typeName position f).seen named := by
  cases named <;> rfl

/-- Slots that look the same. -/
structure Alike (named : Bool) (s s' : Slots) : Prop where
  fields : s.fields.map (Field.seen named) = s'.fields.map (Field.seen named)
  slots : s.slots = s'.slots
  claims : s.claims = s'.claims

theorem Alike.length_eq (h : s.Alike named s') : s.fields.length = s'.fields.length := by
  simpa using congrArg List.length h.fields

/-- The same slots suit a request. -/
theorem Alike.isMatch_eq (h : s.Alike named s') (kind : FieldKind) (typeName : String)
    (id : FieldId) : s.isMatch kind typeName id = s'.isMatch kind typeName id := by
  have hany : ∀ s : Slots, (s.fields[id]?).any (suits kind typeName)
      = ((s.fields.map (Field.seen named))[id]?).any (suits kind typeName) := by
    intro s
    rw [List.getElem?_map, Option.any_map]
    exact congrArg (s.fields[id]?).any (funext fun f => (suits_seen kind typeName f).symm)
  rw [isMatch, isMatch, h.claims, hany s, hany s', h.fields]

theorem Alike.push (h : s.Alike named s') {f f' : Field} (hf : f.seen named = f'.seen named) :
    (s.push f).1 = (s'.push f').1 ∧ (s.push f).2.Alike named (s'.push f').2 := by
  refine ⟨h.length_eq, ?_, h.slots, h.claims⟩
  rw [Slots.push, Slots.push, List.map_append, List.map_append, h.fields, List.map_singleton,
    List.map_singleton, hf]

theorem Alike.claim (h : s.Alike named s') (typeName : String) (position : Nat) (id : FieldId) :
    (s.claim typeName position id).Alike named (s'.claim typeName position id) where
  fields := by
    have hseen : ∀ xs : List Field,
        (xs.modify id (shareAs typeName position)).map (Field.seen named)
          = (xs.map (Field.seen named)).modify id
            fun f => (shareAs typeName position f).seen named :=
      fun xs => map_modify (fun f => (shareAs_seen typeName position f).symm) xs id
    rw [Slots.claim, Slots.claim, hseen, hseen, h.fields]
  slots := h.slots
  claims := congrArg (id :: ·) h.claims

theorem Alike.declare (h : s.Alike named s') (kind : FieldKind) (typeName : String)
    (ha : named = true → argument = argument') :
    (s.declare kind argument typeName).1 = (s'.declare kind argument' typeName).1 ∧
      (s.declare kind argument typeName).2.Alike named (s'.declare kind argument' typeName).2 := by
  have hf : (Field.onUnion kind (Text.lowerFirst argument) typeName).seen named
      = (Field.onUnion kind (Text.lowerFirst argument') typeName).seen named := by
    cases named with
    | true => rw [ha rfl]
    | false => rfl
  refine ⟨h.length_eq, ?_, ?_, ?_⟩
  · rw [Slots.declare, Slots.declare, List.map_append, List.map_append, h.fields,
      List.map_singleton, List.map_singleton, hf]
  · rw [Slots.declare, Slots.declare, h.slots, h.length_eq]
  · rw [Slots.declare, Slots.declare, h.claims, h.length_eq]

/-- **Slots that look the same meet a request in the same way.** -/
theorem Alike.findOrDeclare (h : s.Alike named s') (kind : FieldKind) (typeName : String)
    (ha : named = true → argument = argument') :
    (s.findOrDeclare kind argument typeName).1 = (s'.findOrDeclare kind argument' typeName).1 ∧
      (s.findOrDeclare kind argument typeName).2.Alike named
        (s'.findOrDeclare kind argument' typeName).2 := by
  have hmatch : (fun p : FieldId × Nat => s.isMatch kind typeName p.1)
      = fun p => s'.isMatch kind typeName p.1 := funext fun p => h.isMatch_eq kind typeName p.1
  unfold Slots.findOrDeclare
  rw [hmatch, h.slots]
  split
  · exact ⟨rfl, h.claim typeName _ _⟩
  · exact h.declare kind typeName ha

end Slots

/-- Leaves that ask for the same, with the names that they ask for or without. -/
structure Request.Alike (named : Bool) (r r' : Request) : Prop where
  storage : r.storage = r'.storage
  value : r.value = r'.value
  stem : named = true → r.stem = r'.stem

/-- Cases whose requests are served alike. -/
structure CaseScope.Alike (c c' : CaseScope) : Prop where
  caseName : c.caseName = c'.caseName
  needsRegion : c.needsRegion = c'.needsRegion

namespace Progress

variable {named : Bool} {c c' : CaseScope} {p p' : Progress} {r r' : Request}

/-- What has been stored looks the same. -/
structure Alike (named : Bool) (p p' : Progress) : Prop where
  slots : p.slots.Alike named p'.slots
  region : p.region = p'.region
  regionFields : p.regionFields = p'.regionFields
  overlapLeaves : p.overlapLeaves = p'.overlapLeaves

theorem Alike.ensureRegion (h : p.Alike named p') (hc : c.Alike c') :
    (p.ensureRegion c).1 = (p'.ensureRegion c').1 ∧
      (p.ensureRegion c).2.Alike named (p'.ensureRegion c').2 := by
  unfold Progress.ensureRegion
  rw [← h.region]
  cases hr : p.region with
  | some region => exact ⟨rfl, h⟩
  | none =>
    have hf : (Field.caseRegion c.caseName).seen named
        = (Field.caseRegion c'.caseName).seen named := by
      rw [hc.caseName]
    obtain ⟨hid, hs⟩ := h.slots.push hf
    exact ⟨hid, hs, congrArg some hid, h.regionFields, h.overlapLeaves⟩

theorem seen_overlapLeaf {name name' : String} (h : named = true → name = name')
    (typeName : String) (place : Place) :
    (Field.overlapLeaf name typeName place).seen named
      = (Field.overlapLeaf name' typeName place).seen named := by
  cases named with
  | true => rw [h rfl]
  | false => rfl

theorem Alike.placeOverlap (h : p.Alike named p') (hc : c.Alike c') (hr : r.Alike named r') :
    (p.placeOverlap c r.stem r.value).1 = (p'.placeOverlap c' r'.stem r'.value).1 ∧
      (p.placeOverlap c r.stem r.value).2.Alike named
        (p'.placeOverlap c' r'.stem r'.value).2 := by
  unfold Progress.placeOverlap
  rw [← hc.needsRegion, ← hc.caseName, ← hr.value]
  split
  · obtain ⟨hregion, hp⟩ := h.ensureRegion hc
    have hf : (Field.overlapLeaf (Text.underscored [r.stem, r.value.name]) r.value.type.name
          (.inRegion (p.ensureRegion c).1)).seen named
        = (Field.overlapLeaf (Text.underscored [r'.stem, r.value.name]) r.value.type.name
          (.inRegion (p'.ensureRegion c').1)).seen named := by
      rw [← hregion]
      exact seen_overlapLeaf (fun hn => by rw [hr.stem hn]) _ _
    obtain ⟨hid, hs⟩ := hp.slots.push hf
    refine ⟨hid, hs, hp.region, ?_, ?_⟩
    · exact congrArg₂ (fun fs id => fs ++ [id]) hp.regionFields hid
    · exact congrArg₂ (fun fs id => fs ++ [id]) hp.overlapLeaves hid
  · have hf : (Field.overlapLeaf (Text.underscored [c.caseName,
          Text.underscored [r.stem, r.value.name]]) r.value.type.name .inOverlap).seen named
        = (Field.overlapLeaf (Text.underscored [c.caseName,
          Text.underscored [r'.stem, r.value.name]]) r.value.type.name .inOverlap).seen named :=
      seen_overlapLeaf (fun hn => by rw [hr.stem hn]) _ _
    obtain ⟨hid, hs⟩ := h.slots.push hf
    exact ⟨hid, hs, h.region, h.regionFields,
      congrArg₂ (fun fs id => fs ++ [id]) h.overlapLeaves hid⟩

theorem Alike.placeShared (h : p.Alike named p') (hc : c.Alike c') (hr : r.Alike named r')
    (kind : FieldKind) :
    (p.placeShared c kind r.stem r.value).1 = (p'.placeShared c' kind r'.stem r'.value).1 ∧
      (p.placeShared c kind r.stem r.value).2.Alike named
        (p'.placeShared c' kind r'.stem r'.value).2 := by
  have harg : named = true → Text.underscored [c.caseName, r.stem, r.value.name]
      = Text.underscored [c'.caseName, r'.stem, r'.value.name] := by
    intro hn
    rw [hc.caseName, hr.stem hn, hr.value]
  obtain ⟨hid, hs⟩ := h.slots.findOrDeclare kind r.value.type.name harg
  unfold Progress.placeShared
  rw [← hr.value] at hid hs ⊢
  exact ⟨hid, hs, h.region, h.regionFields, h.overlapLeaves⟩

/-- **A request is served alike.** -/
theorem Alike.placeLeaf (h : p.Alike named p') (hc : c.Alike c') (hr : r.Alike named r') :
    (p.placeLeaf c r.storage r.stem r.value).1
        = (p'.placeLeaf c' r'.storage r'.stem r'.value).1 ∧
      (p.placeLeaf c r.storage r.stem r.value).2.Alike named
        (p'.placeLeaf c' r'.storage r'.stem r'.value).2 := by
  rw [← hr.storage]
  by_cases ho : r.storage = .overlappable
  · rw [ho]
    exact h.placeOverlap hc hr
  · rw [placeLeaf_of_slot ho, placeLeaf_of_slot ho]
    exact h.placeShared hc hr _

/-- **So are all requests of a case.** -/
theorem Alike.placeAll (hc : c.Alike c') {rs rs' : List Request}
    (hrs : List.Forall₂ (Request.Alike named) rs rs') : ∀ {p p' : Progress}, p.Alike named p' →
    (p.placeAll c rs).1 = (p'.placeAll c' rs').1 ∧
      (p.placeAll c rs).2.Alike named (p'.placeAll c' rs').2 := by
  induction hrs with
  | nil => exact fun h => ⟨rfl, h⟩
  | cons hr _ ih =>
    intro p p' h
    obtain ⟨hid, hp⟩ := h.placeLeaf hc hr
    obtain ⟨hids, hp'⟩ := ih hp
    exact ⟨congrArg₂ List.cons hid hids, hp'⟩

end Progress

/-! ## Layouts -/

/-- A leaf with the field that it is stored in. -/
structure StoredLeaf where
  name : String
  type : ValueType
  storage : StorageClass
  field : Option FieldId

def Node.stored (n : Node) : StoredLeaf := ⟨n.name, n.type, n.storage, n.field⟩

/-- What one case owns: its part of the overlap region, and the fields of its leaves, in order of
declaration. -/
structure CaseShare where
  overlapField : Option FieldId
  regionFields : List FieldId
  leaves : List StoredLeaf

theorem map_stored_zipWith {named : Bool} {rs rs' : List Request}
    (h : List.Forall₂ (Request.Alike named) rs rs') : ∀ ids : List FieldId,
    (List.zipWith Request.node rs ids).map Node.stored
      = (List.zipWith Request.node rs' ids).map Node.stored := by
  induction h with
  | nil => exact fun _ => rfl
  | cons hr _ ih =>
    intro ids
    cases ids with
    | nil => rfl
    | cons id ids =>
      simp only [List.zipWith_cons_cons, List.map_cons, ih ids, Request.node, Node.stored,
        hr.storage, hr.value]

/-- Cases that make the same requests. -/
structure Case.Alike (classOf : Shape → StorageClass) (named : Bool) (c c' : Case) : Prop where
  name : c.name = c'.name
  requests : List.Forall₂ (Request.Alike named) (c.requests classOf) (c'.requests classOf)

theorem Case.Alike.refl (classOf : Shape → StorageClass) (named : Bool) (c : Case) :
    c.Alike classOf named c :=
  ⟨rfl, List.forall₂_same.mpr fun _ _ => ⟨rfl, rfl, fun _ => rfl⟩⟩

theorem Case.Alike.scope {classOf : Shape → StorageClass} {named : Bool} {c c' : Case}
    (h : c.Alike classOf named c') : (c.scope classOf).Alike (c'.scope classOf) where
  caseName := h.name
  needsRegion := by
    have hcount : ∀ {rs rs' : List Request}, List.Forall₂ (Request.Alike named) rs rs' →
        rs.countP Request.isOverlap = rs'.countP Request.isOverlap := by
      intro rs rs' hrs
      induction hrs with
      | nil => rfl
      | cons hr _ ih =>
        rw [List.countP_cons, List.countP_cons, ih, Request.isOverlap, Request.isOverlap,
          hr.storage]
    rw [needsRegion_scope, needsRegion_scope, hcount h.requests]

namespace Layout

variable {classOf : Shape → StorageClass} {overlapped named : Bool} {done done' : List Case}
  {l l' m m' : Layout} {c c' : Case} {ts us : List NodeTree}

/-- What each case owns. -/
def shares (l : Layout) : List CaseShare :=
  l.cases.map fun cl => ⟨cl.overlapField, cl.regionFields, (l.leafNodes cl.roots).map Node.stored⟩

/-- Layouts that look the same, with the names of fields or without. -/
structure Alike (named : Bool) (l l' : Layout) : Prop where
  fields : l.fields.map (Field.seen named) = l'.fields.map (Field.seen named)
  unionFields : l.unionFields = l'.unionFields
  overlap : l.overlap = l'.overlap
  shares : l.shares = l'.shares

theorem Alike.refl (named : Bool) (l : Layout) : l.Alike named l := ⟨rfl, rfl, rfl, rfl⟩

theorem Alike.fields_eq (h : l.Alike true l') : l.fields = l'.fields := by
  simpa [Field.seen_true] using h.fields

theorem Alike.progress (h : l.Alike named l') : l.progress.Alike named l'.progress :=
  ⟨⟨h.fields, h.unionFields, rfl⟩, rfl, rfl, rfl⟩

/-- What a case owns is decided when it is added. -/
theorem CaseAdded.shares (step : CaseAdded classOf c ts l l')
    (before : Built classOf overlapped done l) :
    l'.shares = l.shares ++ [⟨overlapField (l.place classOf c).2,
      (l.place classOf c).2.regionFields,
      (List.zipWith Request.node (c.requests classOf) (l.place classOf c).1).map Node.stored⟩] := by
  obtain ⟨added, -, hst⟩ := step.nodes
  have hnew : l'.leafNodes (l.caseLayout classOf c ts).roots
      = List.zipWith Request.node (c.requests classOf) (l.place classOf c).1 :=
    (step.holds before.sound).leafNodes.trans hst.leaves
  rw [Layout.shares, Layout.shares, step.cases, List.map_append, List.map_singleton, hnew]
  refine congrArg (· ++ _) (List.map_congr_left fun cl hcl => ?_)
  rw [step.leafNodes_eq before hcl]

/-- **Layouts that look the same still do when cases with the same requests are stored in them.** -/
theorem CaseAdded.alike (step : CaseAdded classOf c ts l m) (step' : CaseAdded classOf c' us l' m')
    (before : Built classOf overlapped done l) (before' : Built classOf overlapped done' l')
    (h : l.Alike named l') (hc : c.Alike classOf named c') : m.Alike named m' := by
  have hplace : (l.place classOf c).1 = (l'.place classOf c').1 ∧
      (l.place classOf c).2.Alike named (l'.place classOf c').2 :=
    h.progress.placeAll hc.scope hc.requests
  obtain ⟨hids, hp⟩ := hplace
  refine ⟨?_, ?_, ?_, ?_⟩
  · rw [step.fields, step'.fields, hp.slots.fields]
  · rw [step.unionFields, step'.unionFields, hp.slots.slots]
  · rw [step.overlap, step'.overlap, h.overlap]
  · have hover : overlapField (l.place classOf c).2 = overlapField (l'.place classOf c').2 := by
      rw [overlapField, overlapField, hp.region, hp.overlapLeaves]
    rw [step.shares before, step'.shares before', h.shares, hover, hp.regionFields, hids,
      map_stored_zipWith hc.requests]

/-- The last case of a layout that is built. -/
theorem Built.exists_step (h : Built classOf overlapped (done ++ [c]) l) :
    ∃ k ts, Built classOf overlapped done k ∧ CaseAdded classOf c ts k l := by
  generalize hcs : done ++ [c] = cs at h
  cases h with
  | start => exact absurd hcs (by simp)
  | case before step =>
    obtain ⟨rfl, hlast⟩ := List.append_inj' hcs rfl
    obtain rfl := List.singleton_inj.mp hlast
    exact ⟨_, _, before, step⟩

/-- Without cases there is only the empty layout. -/
theorem Built.eq_start (h : Built classOf overlapped [] l) : l = Layout.start overlapped := by
  generalize hcs : ([] : List Case) = cs at h
  cases h with
  | start => rfl
  | case => exact absurd hcs.symm (by simp)

/-- **Cases with the same requests are laid out alike.** -/
theorem Built.alike (h : Built classOf overlapped done l) : ∀ {done' l'},
    Built classOf overlapped done' l' → List.Forall₂ (Case.Alike classOf named) done done' →
    l.Alike named l' := by
  induction h with
  | start =>
    intro done' l' h' hcs
    rw [List.forall₂_nil_left_iff.mp hcs] at h'
    rw [h'.eq_start]
    exact Alike.refl named _
  | @case done l m c ts before step ih =>
    intro done' m' h' hcs
    obtain ⟨done₀, c', rfl, hbefore, hlast⟩ := exists_concat_of_forall₂ hcs
    obtain ⟨l', us, before', step'⟩ := h'.exists_step
    exact step.alike step' before before' (ih before' hbefore) hlast

end Layout

end SumLayout
