import SumLayout.Proofs.Placement

/-!
# What serving the requests of a case does to names

A request changes no field but the one that it is met by. A slot that there was already is renamed
after its position, and a new one is named after the leaf (`Slots.Named`). Leaves in the overlap
region have names of their own, and the region of a case is named after the case.

`Progress.Names` says this of any number of requests that are met by different fields
(`Sound.names_placeAll`).
-/

namespace SumLayout

namespace Slots

variable {s s' : Slots} {id : FieldId} {a : String} {overlap : Option FieldId}
  {inside : List FieldId}

/-- The field belongs to the constructor's argument `a` and is named after it. -/
def Named (s : Slots) (id : FieldId) (a : String) : Prop :=
  ∃ f, s.fields[id]? = some f ∧ f.argument = some a ∧ f.name = Field.dataName a

theorem Named.of_frame (h : s.Named id a)
    (hf : ∀ f, s.fields[id]? = some f → s'.fields[id]? = some f) : s'.Named id a := by
  obtain ⟨f, hid, harg, hname⟩ := h
  exact ⟨f, hf f hid, harg, hname⟩

theorem Sound.exists_field (h : s.Sound overlap inside) (hid : id ∈ s.slots) :
    ∃ f, s.fields[id]? = some f := by
  obtain ⟨f, hf, -⟩ := h.onUnion id (List.mem_append_right _ hid)
  exact ⟨f, hf⟩

/-- What a request for a slot does to names. -/
structure Names (s : Slots) (argument : String) (id : FieldId) (s' : Slots) : Prop where
  frame : ∀ {i : FieldId} {f : Field}, s.fields[i]? = some f → i ≠ id → s'.fields[i]? = some f
  shared : ∀ {position : Nat}, s.slots[position]? = some id → s'.Named id (sharedName position)
  fresh : id ∉ s.slots → s'.Named id (Text.lowerFirst argument)

/-- **A slot is renamed when it is met again.** -/
theorem Sound.names_claim (h : s.Sound overlap inside) {position : Nat}
    (hpos : s.slots[position]? = some id) (argument typeName : String) :
    s.Names argument id (s.claim typeName position id) where
  frame {i f} hf hne := (List.getElem?_modify_ne _ _ hne.symm).trans hf
  shared {position'} hpos' := by
    have hlt := (List.getElem?_eq_some_iff.mp hpos).1
    have he : position = position' :=
      (List.getElem?_inj hlt h.nodup_slots).mp (hpos.trans hpos'.symm)
    subst he
    obtain ⟨f, hf⟩ := h.exists_field (List.mem_of_getElem? hpos)
    refine ⟨shareAs typeName position f, ?_, rfl, rfl⟩
    exact (List.getElem?_modify_eq _ _ _).trans (congrArg (Option.map _) hf)
  fresh hid := absurd (List.mem_of_getElem? hpos) hid

theorem Sound.names_declare (h : s.Sound overlap inside) (kind : FieldKind)
    (argument typeName : String) :
    s.Names argument s.fields.length (s.declare kind argument typeName).2 where
  frame {i f} hf _ := by
    rw [Slots.declare, List.getElem?_append_left (List.getElem?_eq_some_iff.mp hf).1, hf]
  shared hpos := by
    -- the new field was not a slot before
    obtain ⟨f, hf⟩ := h.exists_field (List.mem_of_getElem? hpos)
    simp at hf
  fresh _ := ⟨_, List.getElem?_concat_length, rfl, rfl⟩

/-- **A request for a slot renames a slot that there is or names a new one.** -/
theorem Sound.names_findOrDeclare (h : s.Sound overlap inside) (kind : FieldKind)
    (argument typeName : String) :
    s.Names argument (s.findOrDeclare kind argument typeName).1
      (s.findOrDeclare kind argument typeName).2 := by
  rcases findOrDeclare_cases s kind argument typeName with ⟨position, id, f, hpos, -, -, -, he⟩ |
    ⟨-, he⟩
  · rw [he]
    exact h.names_claim hpos argument typeName
  · rw [he]
    exact h.names_declare kind argument typeName

end Slots

namespace Request

/-- The name of the leaf among those of all cases. -/
def slotName (c : CaseScope) (r : Request) : String :=
  Text.underscored [c.caseName, r.stem, r.value.name]

/-- The name of the leaf in the overlap region. In the region of its case it need not tell the case.
-/
def overlapName (c : CaseScope) (r : Request) : String :=
  if c.needsRegion then Text.underscored [r.stem, r.value.name]
  else Text.underscored [c.caseName, Text.underscored [r.stem, r.value.name]]

end Request

namespace Progress

variable {c : CaseScope} {overlap : Option FieldId} {placed : List FieldId} {p p' p'' : Progress}
  {r : Request} {rs : List Request} {id : FieldId} {ids : List FieldId}

/-- What serving some requests of a case does to names, where `ids` are the fields that they are met
by. -/
structure Names (c : CaseScope) (p : Progress) (rs : List Request) (ids : List FieldId)
    (p' : Progress) : Prop where
  frame : ∀ {i : FieldId} {f : Field}, p.slots.fields[i]? = some f → i ∉ ids →
    p'.slots.fields[i]? = some f
  shared : ∀ {position : Nat} {i : FieldId}, p.slots.slots[position]? = some i → i ∈ ids →
    p'.slots.Named i (Slots.sharedName position)
  fresh : ∀ {i : FieldId}, i ∈ p'.slots.slots → i ∉ p.slots.slots →
    ∃ r, (r, i) ∈ rs.zip ids ∧ p'.slots.Named i (Text.lowerFirst (r.slotName c))
  leaves : ∀ {r : Request} {i : FieldId}, (r, i) ∈ rs.zip ids → r.isOverlap = true →
    ∃ f, p'.slots.fields[i]? = some f ∧ f.name = r.overlapName c
  region : ∀ {i : FieldId}, p'.region = some i →
    p.region = some i ∨ p'.slots.fields[i]? = some (.caseRegion c.caseName)

/-! ## One request -/

theorem Sound.names_placeShared (h : p.Sound c overlap placed) (kind : FieldKind)
    {storage : StorageClass} (hs : storage ≠ .overlappable) (stem : String) (path : List String)
    (v : Value) :
    p.Names c [⟨storage, stem, path, v⟩] [(p.placeShared c kind stem v).1]
      (p.placeShared c kind stem v).2 := by
  have hnames := h.slots.names_findOrDeclare kind
    (Text.underscored [c.caseName, stem, v.name]) v.type.name
  obtain ⟨-, hmet⟩ := h.slots.findOrDeclare kind
    (Text.underscored [c.caseName, stem, v.name]) v.type.name
  refine ⟨fun hf hi => hnames.frame hf fun he => hi (List.mem_singleton.mpr he),
    fun hpos hi => ?_, fun hi hno => ?_, fun hr ho => ?_, Or.inl⟩
  · obtain rfl := List.mem_singleton.mp hi
    exact hnames.shared hpos
  · obtain rfl := (hmet.slots _ hi).resolve_left hno
    exact ⟨_, List.mem_singleton.mpr rfl, hnames.fresh hno⟩
  · obtain ⟨rfl, -⟩ := Prod.mk.inj (List.mem_singleton.mp hr)
    exact absurd (beq_iff_eq.mp ho) hs

/-- Declaring the region of the case adds a field at most. -/
theorem ensureRegion_cases (c : CaseScope) (p : Progress) :
    (∃ region, p.region = some region ∧ p.ensureRegion c = (region, p)) ∨
    p.ensureRegion c = (p.slots.fields.length, { p with
      slots := (p.slots.push (.caseRegion c.caseName)).2
      region := some p.slots.fields.length }) := by
  rw [ensureRegion]
  cases p.region with
  | some region => exact Or.inl ⟨region, rfl, rfl⟩
  | none => exact Or.inr rfl

/-- A new field that is not a slot, and is named as the leaf asks. -/
theorem Sound.names_push (h : p.Sound c overlap placed) (hr : r.isOverlap = true)
    (more : List Field) {f : Field} (hname : f.name = r.overlapName c)
    (hfields : p'.slots.fields = p.slots.fields ++ more ++ [f])
    (hid : id = (p.slots.fields ++ more).length) (hslots : p'.slots.slots = p.slots.slots)
    (hregion : ∀ {i}, p'.region = some i →
      p.region = some i ∨ p'.slots.fields[i]? = some (.caseRegion c.caseName)) :
    p.Names c [r] [id] p' where
  frame {i f'} hf _ := by
    rw [hfields, List.append_assoc,
      List.getElem?_append_left (List.getElem?_eq_some_iff.mp hf).1, hf]
  shared {position i} hpos hi := by
    -- a slot that there is has been declared before
    obtain ⟨f', hf'⟩ := h.slots.exists_field (List.mem_of_getElem? hpos)
    have hlt := (List.getElem?_eq_some_iff.mp hf').1
    rw [List.mem_singleton.mp hi, hid, List.length_append] at hlt
    omega
  fresh hi hno := absurd (hslots ▸ hi) hno
  leaves {r' i} hmem _ := by
    obtain ⟨rfl, rfl⟩ := Prod.mk.inj (List.mem_singleton.mp hmem)
    exact ⟨f, by rw [hfields, hid, List.getElem?_concat_length], hname⟩
  region := hregion

theorem Sound.names_placeOverlap (h : p.Sound c overlap placed) (stem : String)
    (path : List String) (v : Value) :
    p.Names c [⟨.overlappable, stem, path, v⟩] [(p.placeOverlap c stem v).1]
      (p.placeOverlap c stem v).2 := by
  unfold Progress.placeOverlap
  cases hn : c.needsRegion with
  | false =>
    have hname : (Field.overlapLeaf (Text.underscored [c.caseName, Text.underscored [stem, v.name]])
        v.type.name .inOverlap).name = Request.overlapName c ⟨.overlappable, stem, path, v⟩ := by
      simp [Request.overlapName, hn, Field.overlapLeaf]
    rw [if_neg (by simp)]
    exact h.names_push rfl [] hname (by simp [Slots.push]) (by simp [Slots.push]) rfl Or.inl
  | true =>
    have hname : ∀ region, (Field.overlapLeaf (Text.underscored [stem, v.name])
        v.type.name (.inRegion region)).name
          = Request.overlapName c ⟨.overlappable, stem, path, v⟩ := by
      simp [Request.overlapName, hn, Field.overlapLeaf]
    rw [if_pos rfl]
    rcases ensureRegion_cases c p with ⟨region, hr, he⟩ | he
    · rw [he]
      exact h.names_push rfl [] (hname region) (by simp [Slots.push]) (by simp [Slots.push]) rfl
        Or.inl
    · rw [he]
      refine h.names_push rfl [.caseRegion c.caseName] (hname _) rfl rfl rfl fun hi => Or.inr ?_
      rw [← Option.some.inj hi]
      simp [Slots.push]

/-- **A request renames a slot that there is or names a new field.** -/
theorem Sound.names_placeLeaf (h : p.Sound c overlap placed) (r : Request) :
    p.Names c [r] [(p.placeLeaf c r.storage r.stem r.value).1]
      (p.placeLeaf c r.storage r.stem r.value).2 := by
  obtain ⟨storage, stem, path, v⟩ := r
  cases storage with
  | overlappable => exact h.names_placeOverlap stem path v
  | sameType => exact h.names_placeShared .sameType (by simp) stem path v
  | reference => exact h.names_placeShared .reference (by simp) stem path v
  | unique | decomposable => exact h.names_placeShared .unique (by simp) stem path v

/-! ## All requests of a case -/

theorem Names.cons (h : p.Names c [r] [id] p') (hrest : p'.Names c rs ids p'')
    (hg : p.slots.Grows p'.slots) (hg' : p'.slots.Grows p''.slots) (hid : id ∉ ids) :
    p.Names c (r :: rs) (id :: ids) p'' where
  frame hf hi := by
    rw [List.mem_cons, not_or] at hi
    exact hrest.frame (h.frame hf (by simpa using hi.1)) hi.2
  shared {position i} hpos hi := by
    by_cases hin : i ∈ ids
    · -- it has kept its position
      obtain ⟨more, hmore⟩ := hg.slots
      have hpos' : p'.slots.slots[position]? = some i := by
        rw [← hmore, List.getElem?_append_left (List.getElem?_eq_some_iff.mp hpos).1, hpos]
      exact hrest.shared hpos' hin
    · have hnamed := h.shared hpos (by simpa using (List.mem_cons.mp hi).resolve_right hin)
      exact hnamed.of_frame fun f hf => hrest.frame hf hin
  fresh {i} hi hno := by
    by_cases hi' : i ∈ p'.slots.slots
    · obtain ⟨r', hr', hnamed⟩ := h.fresh hi' hno
      have he : i = id := (Prod.mk.inj (List.mem_singleton.mp hr')).2
      refine ⟨r', List.mem_cons.mpr (Or.inl (List.mem_singleton.mp hr')), ?_⟩
      exact hnamed.of_frame fun f hf => hrest.frame hf (he ▸ hid)
    · obtain ⟨r', hr', hnamed⟩ := hrest.fresh hi hi'
      exact ⟨r', List.mem_cons_of_mem _ hr', hnamed⟩
  leaves {r' i} hmem ho := by
    rcases List.mem_cons.mp hmem with he | hmem
    · obtain ⟨f, hf, hname⟩ := h.leaves (List.mem_singleton.mpr he) ho
      exact ⟨f, hrest.frame hf ((Prod.mk.inj he).2 ▸ hid), hname⟩
    · exact hrest.leaves hmem ho
  region hi := by
    rcases hrest.region hi with hi | hi
    · exact (h.region hi).imp_right fun hf => hg'.inside hf (by simp [Field.caseRegion])
    · exact Or.inr hi

/-- **What serving the requests of a case does to names.** -/
theorem Sound.names_placeAll (rs : List Request) : ∀ {p : Progress}, p.Sound c overlap placed →
    (p.placeAll c rs).1.Nodup → p.Names c rs (p.placeAll c rs).1 (p.placeAll c rs).2 := by
  induction rs with
  | nil =>
    intro p _ _
    exact ⟨fun hf _ => hf, fun _ hi => absurd hi List.not_mem_nil,
      fun hi hno => absurd hi hno, fun hmem => absurd hmem List.not_mem_nil, Or.inl⟩
  | cons r rs ih =>
    intro p h hnd
    obtain ⟨hs, hone⟩ := h.placeLeaf r
    obtain ⟨-, hall⟩ := hs.placeAll rs
    obtain ⟨hid, hrest⟩ := List.nodup_cons.mp hnd
    exact (h.names_placeLeaf r).cons (ih hs hrest) hone.grows hall.grows hid

end Progress

end SumLayout
