import SumLayout.Proofs.FieldNames

/-!
# The types of fields

A slot that is claimed for a reference of another type is widened, and that may happen long after
other leaves were stored in it. So what the type of a field has to do with its leaves is said of the
field and of **all leaves stored so far** (`Field.Fits`), which are recorded beside the slots
(`Slots.Fitted`): a field has the type of its leaves as long as they agree, and is widened as soon
as two of them differ. A leaf that is shared by its type may find itself in a widened field, but
only next to references, one of its own type and one of another.

Every request keeps this (`Progress.fitted_placeLeaf`), and so does a case as a whole
(`Progress.fitted_placeAll`). In a layout the leaves recorded are those that its cases store
(`Built.fits`).
-/

namespace SumLayout

/-- The kind of slot that a leaf asks for, unless it lies in the overlap region. -/
def StorageClass.slotKind : StorageClass → FieldKind
  | sameType => .sameType
  | reference => .reference
  | unique | decomposable | overlappable => .unique

namespace Field

variable {f : Field} {held : Node → Prop} {n : Node}

/-- The field holds references of several types, where `held` are the leaves stored in it. -/
structure Widened (f : Field) (held : Node → Prop) : Prop where
  kind : f.kind = .reference
  typeName : f.typeName = anyReference
  differ : ∃ n m, held n ∧ held m ∧ n.type.name ≠ m.type.name

/-- What a field has to do with the leaves stored in it. -/
structure Fits (f : Field) (held : Node → Prop) : Prop where
  types : (∀ n, held n → n.type.name = f.typeName) ∨ f.Widened held
  /-- A field for references was declared for one. -/
  declared : f.kind = .reference → ∃ n, held n ∧ n.storage = .reference ∧
    (n.type.name = f.typeName ∨ f.typeName = anyReference)
  /-- A leaf shared by its type is in a field of another type only because of references. -/
  sameType : ∀ n, held n → n.storage = .sameType → n.type.name ≠ f.typeName →
    (∃ m, held m ∧ m.storage = .reference ∧ m.type.name = n.type.name) ∧
      ∃ m, held m ∧ m.storage = .reference ∧ m.type.name ≠ n.type.name

/-! ## The type of a field -/

/-- If all leaves have one type, it is the type of the field. -/
theorem Fits.typeName_eq (h : f.Fits held) (hn : held n) {typeName : String}
    (hall : ∀ n, held n → n.type.name = typeName) : f.typeName = typeName := by
  rcases h.types with htypes | ⟨-, -, n', m, hn', hm, hne⟩
  · exact (htypes n hn).symm.trans (hall n hn)
  · exact absurd ((hall n' hn').trans (hall m hm).symm) hne

/-- If not all leaves have one type, the field was widened. -/
theorem Fits.widened (h : f.Fits held) (hno : ¬∃ typeName, ∀ n, held n → n.type.name = typeName) :
    f.Widened held :=
  h.types.resolve_left fun htypes => hno ⟨_, htypes⟩

/-- A field that is not for references has the type of each of its leaves. -/
theorem Fits.eq_typeName (h : f.Fits held) (hk : f.kind ≠ .reference) (hn : held n) :
    n.type.name = f.typeName :=
  h.types.resolve_right (fun hw => hk hw.kind) n hn

/-- **When a leaf shared by its type has to be narrowed**: if its type is not that of any reference
and a reference of another type is stored beside it. -/
theorem Fits.sameType_ne_iff (h : f.Fits held) (hn : held n) (hs : n.storage = .sameType) :
    n.type.name ≠ f.typeName ↔ n.type.name ≠ anyReference ∧
      ∃ m, held m ∧ m.storage = .reference ∧ m.type.name ≠ n.type.name := by
  constructor
  · intro hne
    rcases h.types with htypes | hw
    · exact absurd (htypes n hn) hne
    · exact ⟨hw.typeName ▸ hne, (h.sameType n hn hs hne).2⟩
  · rintro ⟨hany, m, hm, -, hother⟩ he
    rcases h.types with htypes | hw
    · exact hother ((htypes m hm).trans he.symm)
    · exact hany (he.trans hw.typeName)

/-! ## One more leaf -/

/-- A field with a single leaf is declared for it. -/
theorem fits_single (hk : f.kind = .reference → n.storage = .reference)
    (ht : f.typeName = n.type.name) : f.Fits fun m => m = n where
  types := Or.inl fun _ hm => hm ▸ ht.symm
  declared hkind := ⟨n, rfl, hk hkind, Or.inl ht.symm⟩
  sameType _ hm _ hne := absurd (hm ▸ ht.symm) hne

theorem Widened.mono (h : f.Widened held) (n : Node) : f.Widened fun m => held m ∨ m = n where
  kind := h.kind
  typeName := h.typeName
  differ := by
    obtain ⟨m, m', hm, hm', hne⟩ := h.differ
    exact ⟨m, m', Or.inl hm, Or.inl hm', hne⟩

/-- A leaf of the field's type changes nothing. -/
theorem Fits.add_same (h : f.Fits held) (ht : n.type.name = f.typeName) :
    f.Fits fun m => held m ∨ m = n where
  types := h.types.imp (fun htypes m hm => hm.elim (htypes m) fun he => he ▸ ht) (·.mono n)
  declared hk := by
    obtain ⟨m, hm, href, htype⟩ := h.declared hk
    exact ⟨m, Or.inl hm, href, htype⟩
  sameType m hm hs hne := by
    rcases hm with hm | rfl
    · obtain ⟨⟨r, hr, hown⟩, ⟨r', hr', hother⟩⟩ := h.sameType m hm hs hne
      exact ⟨⟨r, Or.inl hr, hown⟩, r', Or.inl hr', hother⟩
    · exact absurd ht hne

/-- **A reference of another type widens the field.** -/
theorem Fits.add_other (h : f.Fits held) (hused : ∃ n, held n) (hk : f.kind = .reference)
    (hn : n.storage = .reference) (ht : n.type.name ≠ f.typeName) {f' : Field}
    (hkind : f'.kind = f.kind) (htype : f'.typeName = anyReference) :
    f'.Fits fun m => held m ∨ m = n where
  types := by
    refine Or.inr ⟨hkind.trans hk, htype, ?_⟩
    rcases h.types with htypes | hw
    · obtain ⟨m, hm⟩ := hused
      exact ⟨m, n, Or.inl hm, Or.inr rfl, fun he => ht (he.symm.trans (htypes m hm))⟩
    · exact (hw.mono n).differ
  declared _ := ⟨n, Or.inr rfl, hn, Or.inr htype⟩
  sameType m hm hs hne := by
    rcases hm with hm | rfl
    · by_cases he : m.type.name = f.typeName
      · -- the field was declared for a reference of the same type
        obtain ⟨r, hr, href, hown⟩ := h.declared hk
        have hr' : r.type.name = f.typeName :=
          hown.resolve_right fun hany => hne (he.trans (hany.trans htype.symm))
        exact ⟨⟨r, Or.inl hr, href, hr'.trans he.symm⟩, n, Or.inr rfl, hn,
          fun hother => ht (hother.trans he)⟩
      · obtain ⟨⟨r, hr, hown⟩, ⟨r', hr', hother⟩⟩ := h.sameType m hm hs he
        exact ⟨⟨r, Or.inl hr, hown⟩, r', Or.inl hr', hother⟩
    · exact absurd (hn.symm.trans hs) (by simp)

/-- **A slot that suits a leaf fits it once it is claimed for it.** -/
theorem Fits.shareAs (h : f.Fits held) (hused : ∃ n, held n)
    (hs : Slots.suits n.storage.slotKind n.type.name f = true) (position : Nat) :
    (Slots.shareAs n.type.name position f).Fits fun m => held m ∨ m = n := by
  by_cases ht : f.typeName = n.type.name
  · obtain ⟨types, declared, sameType⟩ := h.add_same ht.symm
    have htype : (Slots.shareAs n.type.name position f).typeName = f.typeName := if_pos ht
    exact ⟨htype ▸ types.imp_right fun hw => ⟨hw.kind, htype.trans hw.typeName, hw.differ⟩,
      htype ▸ declared, htype ▸ sameType⟩
  · -- only a request for a reference is met by a slot of another type
    have href : n.storage = .reference ∧ f.kind = .reference := by
      cases hn : n.storage <;> simp_all [Slots.suits, StorageClass.slotKind]
    exact h.add_other hused href.2 href.1 (fun he => ht he.symm) rfl (if_neg ht)

end Field

namespace Slots

variable {s s' : Slots} {held : FieldId → Node → Prop} {id : FieldId} {n : Node}

/-- The leaves stored, with one more. -/
def record (held : FieldId → Node → Prop) (id : FieldId) (n : Node) : FieldId → Node → Prop :=
  fun i m => held i m ∨ i = id ∧ m = n

theorem record_self : record held id n id = fun m => held id m ∨ m = n := by
  funext m
  simp [record]

theorem record_of_ne {i : FieldId} (h : i ≠ id) : record held id n i = held i := by
  funext m
  simp [record, h]

/-- The fields fit the leaves stored in them, and each slot stores one. -/
structure Fitted (s : Slots) (held : FieldId → Node → Prop) : Prop where
  fits : ∀ id n, held id n → ∃ f, s.fields[id]? = some f ∧ f.Fits (held id)
  used : ∀ id ∈ s.slots, ∃ n, held id n

theorem Fitted.claim (h : s.Fitted held) {f : Field} (hid : id ∈ s.slots)
    (hf : s.fields[id]? = some f) (hs : suits n.storage.slotKind n.type.name f = true)
    (position : Nat) : (s.claim n.type.name position id).Fitted (record held id n) where
  fits i m hm := by
    by_cases hi : i = id
    · subst hi
      obtain ⟨m', hm'⟩ := h.used i hid
      obtain ⟨f', hf', hfits⟩ := h.fits i m' hm'
      obtain rfl : f = f' := Option.some.inj (hf.symm.trans hf')
      rw [record_self]
      refine ⟨_, ?_, hfits.shareAs ⟨m', hm'⟩ hs position⟩
      exact (List.getElem?_modify_eq _ _ _).trans (congrArg (Option.map _) hf)
    · rw [record_of_ne hi] at hm ⊢
      obtain ⟨f', hf', hfits⟩ := h.fits i m hm
      exact ⟨f', (List.getElem?_modify_ne _ _ (Ne.symm hi)).trans hf', hfits⟩
  used i hi := by
    obtain ⟨m, hm⟩ := h.used i hi
    exact ⟨m, Or.inl hm⟩

/-- A field that stores no leaf makes no difference. -/
theorem Fitted.push_vacant (h : s.Fitted held) (f : Field) : (s.push f).2.Fitted held where
  fits i m hm := by
    obtain ⟨f', hf', hfits⟩ := h.fits i m hm
    exact ⟨f', NodeTree.getElem?_append_of_some hf', hfits⟩
  used := h.used

/-- A field that is declared for a leaf fits it. -/
theorem Fitted.append (h : s.Fitted held) {f : Field} (hfields : s'.fields = s.fields ++ [f])
    (hslots : ∀ i ∈ s'.slots, i ∈ s.slots ∨ i = s.fields.length)
    (hk : f.kind = .reference → n.storage = .reference) (ht : f.typeName = n.type.name) :
    s'.Fitted (record held s.fields.length n) where
  fits i m hm := by
    by_cases hi : i = s.fields.length
    · -- nothing was stored in the field before
      have hnone : ∀ m, ¬held s.fields.length m := by
        intro m hm
        obtain ⟨f', hf', -⟩ := h.fits _ m hm
        exact absurd (List.getElem?_eq_some_iff.mp hf').1 (Nat.lt_irrefl _)
      have hsingle : record held s.fields.length n s.fields.length = fun m => m = n := by
        funext m
        simp [record, hnone]
      rw [hi, hsingle]
      exact ⟨f, by rw [hfields, List.getElem?_concat_length], Field.fits_single hk ht⟩
    · rw [record_of_ne hi] at hm ⊢
      obtain ⟨f', hf', hfits⟩ := h.fits i m hm
      exact ⟨f', hfields ▸ NodeTree.getElem?_append_of_some hf', hfits⟩
  used i hi := by
    rcases hslots i hi with hi | rfl
    · obtain ⟨m, hm⟩ := h.used i hi
      exact ⟨m, Or.inl hm⟩
    · exact ⟨n, Or.inr ⟨rfl, rfl⟩⟩

/-- **A request for a slot keeps the fields fitting.** -/
theorem Fitted.findOrDeclare (h : s.Fitted held) (argument : String) :
    (s.findOrDeclare n.storage.slotKind argument n.type.name).2.Fitted
      (record held (s.findOrDeclare n.storage.slotKind argument n.type.name).1 n) := by
  rcases findOrDeclare_cases s n.storage.slotKind argument n.type.name with
    ⟨position, i, f, hpos, -, hf, hs, he⟩ | ⟨-, he⟩
  · rw [he]
    exact h.claim (List.mem_of_getElem? hpos) hf hs position
  · rw [he]
    refine h.append rfl (by simp [declare]) (fun hk => ?_) rfl
    cases hn : n.storage <;> simp_all [Field.onUnion, StorageClass.slotKind]

end Slots

namespace Progress

variable {c : CaseScope} {p : Progress} {held : FieldId → Node → Prop}

theorem placeLeaf_of_slot {storage : StorageClass} (h : storage ≠ .overlappable) (stem : String)
    (v : Value) (p : Progress) :
    p.placeLeaf c storage stem v = p.placeShared c storage.slotKind stem v := by
  cases storage with
  | overlappable => exact absurd rfl h
  | sameType | reference | unique | decomposable => rfl

theorem fitted_ensureRegion (h : p.slots.Fitted held) : (p.ensureRegion c).2.slots.Fitted held := by
  rcases ensureRegion_cases c p with ⟨region, -, he⟩ | he
  · exact he ▸ h
  · exact he ▸ h.push_vacant _

theorem fitted_placeOverlap (h : p.slots.Fitted held) (r : Request) :
    (p.placeOverlap c r.stem r.value).2.slots.Fitted
      (Slots.record held (p.placeOverlap c r.stem r.value).1
        (r.node (p.placeOverlap c r.stem r.value).1)) := by
  have hkind : ∀ name typeName place,
      (Field.overlapLeaf name typeName place).kind ≠ .reference := by
    simp [Field.overlapLeaf]
  unfold Progress.placeOverlap
  split
  · exact (fitted_ensureRegion h).append rfl (fun _ hi => Or.inl hi)
      (fun hk => (hkind _ _ _ hk).elim) rfl
  · exact h.append rfl (fun _ hi => Or.inl hi) (fun hk => (hkind _ _ _ hk).elim) rfl

/-- **A request keeps the fields fitting.** -/
theorem fitted_placeLeaf (h : p.slots.Fitted held) (r : Request) :
    (p.placeLeaf c r.storage r.stem r.value).2.slots.Fitted
      (Slots.record held (p.placeLeaf c r.storage r.stem r.value).1
        (r.node (p.placeLeaf c r.storage r.stem r.value).1)) := by
  by_cases ho : r.storage = .overlappable
  · rw [ho]
    exact fitted_placeOverlap h r
  · rw [placeLeaf_of_slot ho]
    exact h.findOrDeclare (n := r.node _) _

/-- **So do all requests of a case.** -/
theorem fitted_placeAll (rs : List Request) : ∀ {p : Progress} {held : FieldId → Node → Prop},
    p.slots.Fitted held → (p.placeAll c rs).2.slots.Fitted fun id n =>
      held id n ∨ ∃ r, (r, id) ∈ rs.zip (p.placeAll c rs).1 ∧ n = r.node id := by
  induction rs with
  | nil =>
    intro p held h
    simpa [placeAll] using h
  | cons r rs ih =>
    intro p held h
    have hrest := ih (fitted_placeLeaf (c := c) h r)
    have hsame : (fun id n => Slots.record held (p.placeLeaf c r.storage r.stem r.value).1
          (r.node (p.placeLeaf c r.storage r.stem r.value).1) id n ∨
          ∃ r', (r', id) ∈ rs.zip
            (placeAll c rs (p.placeLeaf c r.storage r.stem r.value).2).1 ∧ n = r'.node id)
        = fun id n => held id n ∨ ∃ r', (r', id) ∈ (r :: rs).zip (p.placeAll c (r :: rs)).1 ∧
            n = r'.node id := by
      funext id n
      simp only [Slots.record, placeAll, List.zip_cons_cons, List.mem_cons, Prod.mk.injEq, or_assoc]
      grind
    rw [← hsame]
    exact hrest

end Progress

namespace Layout

variable {classOf : Shape → StorageClass} {overlapped : Bool} {done : List Case} {l l' : Layout}
  {c : Case} {ts : List NodeTree} {n : Node} {id : FieldId}

/-- Some case stores the leaf in the field. -/
def Houses (l : Layout) (id : FieldId) (n : Node) : Prop := ∃ j, l.Stores j n id

theorem CaseAdded.houses_iff (step : CaseAdded classOf c ts l l')
    (before : Built classOf overlapped done l) : l'.Houses id n ↔
      l.Houses id n ∨ ∃ r, (r, id) ∈ (c.requests classOf).zip (l.place classOf c).1 ∧
        n = r.node id := by
  simp only [Houses, step.stores_iff before]
  constructor
  · rintro ⟨j, hold | ⟨-, hn, hf⟩⟩
    · exact Or.inl ⟨j, hold⟩
    · obtain ⟨r, i, hr, rfl⟩ := step.exists_request hn
      obtain rfl : i = id := Option.some.inj hf
      exact Or.inr ⟨r, hr, rfl⟩
  · rintro (⟨j, hold⟩ | ⟨r, hr, rfl⟩)
    · exact ⟨j, Or.inl hold⟩
    · exact ⟨l.cases.length, Or.inr ⟨rfl, step.mem_leaves hr, rfl⟩⟩

theorem Built.fitted (h : Built classOf overlapped done l) : l.progress.slots.Fitted l.Houses := by
  induction h with
  | start =>
    refine ⟨fun id n ⟨j, cl, hcl, _⟩ => absurd hcl (by simp [Layout.start]), fun id hid => ?_⟩
    exact absurd hid List.not_mem_nil
  | @case done l l' c ts before step ih =>
    have hplaced := Progress.fitted_placeAll (c := c.scope classOf) (c.requests classOf) ih
    have hsame : l'.Houses = fun id n => l.Houses id n ∨
        ∃ r, (r, id) ∈ (c.requests classOf).zip (l.place classOf c).1 ∧ n = r.node id := by
      funext id n
      exact propext (step.houses_iff before)
    rw [hsame]
    refine ⟨fun id n hn => ?_, fun id hid => ?_⟩
    · rw [progress, step.fields]
      exact hplaced.fits id n hn
    · rw [progress, step.unionFields] at hid
      exact hplaced.used id hid

/-- **Each field of a layout fits the leaves stored in it.** -/
theorem Built.fits (h : Built classOf overlapped done l) (hn : l.Houses id n) :
    ∃ f, l.fields[id]? = some f ∧ f.Fits (l.Houses id) :=
  h.fitted.fits id n hn

/-- A leaf outside of the overlap region is stored in a slot. -/
theorem Built.mem_unionFields (h : Built classOf overlapped done l) (hn : l.Houses id n)
    (ho : n.isOverlap = false) : id ∈ l.unionFields := by
  obtain ⟨j, cl, hcl, hmem, hf⟩ := hn
  obtain ⟨d, -, ts, hts⟩ := h.holds_of_mem (List.mem_of_getElem? hcl)
  obtain ⟨i, hi, hfi⟩ := hts.slotLeaves n (hts.leafNodes ▸ hmem) ho
  exact Option.some.inj (hf.symm.trans hfi) ▸ hi

/-- How the type of a field follows from the leaves stored in it. -/
structure TypedAs (l : Layout) (id : FieldId) (f : Field) : Prop where
  /-- If all leaves have one type, it is the type of the field. -/
  uniform : ∀ typeName, (∀ n, l.Houses id n → n.type.name = typeName) → f.typeName = typeName
  /-- Leaves of several types are in a slot for references that has the type of any reference. -/
  mixed : (¬∃ typeName, ∀ n, l.Houses id n → n.type.name = typeName) →
    f.kind = .reference ∧ id ∈ l.unionFields ∧ f.typeName = Field.anyReference
  /-- A field that is not for references holds leaves of its type only. -/
  strict : f.kind ≠ .reference → ∀ n, l.Houses id n → n.type.name = f.typeName

/-- **The type of every field that stores a leaf is settled by the leaves stored in it.** -/
theorem Built.typedAs (h : Built classOf overlapped done l) (hn : l.Houses id n) :
    ∃ f, l.fields[id]? = some f ∧ l.TypedAs id f := by
  obtain ⟨f, hf, hfits⟩ := h.fits hn
  refine ⟨f, hf, fun _ hall => hfits.typeName_eq hn hall, fun hno => ?_,
    fun hk m hm => hfits.eq_typeName hk hm⟩
  have hw := hfits.widened hno
  obtain ⟨m, hm, href, -⟩ := hfits.declared hw.kind
  exact ⟨hw.kind, h.mem_unionFields hm (by simp [Node.isOverlap, href]), hw.typeName⟩

end Layout

end SumLayout
