import Mathlib.Data.List.Nodup
import Mathlib.Data.List.Perm.Basic
import Mathlib.Data.List.Range
import SumLayout.Field.Slots

/-!
# What a step does to the slots

A step declares a field inside the overlap region (`push`), declares a slot (`declare`) or claims
one (`claim`); a request for a slot is one of the last two (`findOrDeclare_cases`).

* `Slots.Grows` is what no step undoes: slots are only added at the end, a field keeps its kind and
  its place, its type changes only from a reference to the type of any reference, and a field inside
  the overlap region does not change at all.
* `Slots.Sound` is what every step keeps: each field is in exactly one place, the fields on the
  union are the ones with an argument, and the claims of a case are slots, each claimed once.
-/

namespace SumLayout

/-- What a field keeps from step to step. -/
structure Field.Keeps (f f' : Field) : Prop where
  kind : f'.kind = f.kind
  place : f'.place = f.place
  typeName : f'.typeName = f.typeName ∨ f.kind = .reference ∧ f'.typeName = Field.anyReference
  argument : f.argument.isSome = true → f'.argument.isSome = true
  inside : f.place ≠ .onUnion → f' = f

namespace Field.Keeps

theorem refl (f : Field) : f.Keeps f := ⟨rfl, rfl, Or.inl rfl, id, fun _ => rfl⟩

theorem trans {f g h : Field} (h1 : f.Keeps g) (h2 : g.Keeps h) : f.Keeps h where
  kind := h2.kind.trans h1.kind
  place := h2.place.trans h1.place
  typeName := by
    rcases h2.typeName with he | ⟨hk, he⟩
    · rw [he]
      exact h1.typeName
    · exact Or.inr ⟨h1.kind ▸ hk, he⟩
  argument := fun ha => h2.argument (h1.argument ha)
  inside := fun hp => by rw [h2.inside (by rwa [h1.place]), h1.inside hp]

end Field.Keeps

namespace Slots

variable {s s' s'' : Slots} {kind : FieldKind} {argument typeName : String}

/-! ## What no step undoes -/

structure Grows (s s' : Slots) : Prop where
  slots : s.slots <+: s'.slots
  field : ∀ {id : FieldId} {f : Field}, s.fields[id]? = some f →
    ∃ f', s'.fields[id]? = some f' ∧ f.Keeps f'

theorem Grows.refl (s : Slots) : s.Grows s :=
  ⟨List.prefix_refl _, fun h => ⟨_, h, Field.Keeps.refl _⟩⟩

theorem Grows.trans (h : s.Grows s') (h' : s'.Grows s'') : s.Grows s'' where
  slots := h.slots.trans h'.slots
  field hf := by
    obtain ⟨f', hf', hk⟩ := h.field hf
    obtain ⟨f'', hf'', hk'⟩ := h'.field hf'
    exact ⟨f'', hf'', hk.trans hk'⟩

theorem Grows.mem_slots (h : s.Grows s') {id : FieldId} (hid : id ∈ s.slots) : id ∈ s'.slots :=
  h.slots.subset hid

/-- A field inside the overlap region stays as it is. -/
theorem Grows.inside (h : s.Grows s') {id : FieldId} {f : Field} (hf : s.fields[id]? = some f)
    (hp : f.place ≠ .onUnion) : s'.fields[id]? = some f := by
  obtain ⟨f', hf', hk⟩ := h.field hf
  rwa [hk.inside hp] at hf'

/-- Adding fields at the end changes none. -/
theorem Grows.of_append {s s' : Slots} {more : List Field} (hs : s.slots <+: s'.slots)
    (hf : s'.fields = s.fields ++ more) : s.Grows s' where
  slots := hs
  field {id f} h := by
    refine ⟨f, ?_, Field.Keeps.refl f⟩
    rw [hf, List.getElem?_append_left (List.getElem?_eq_some_iff.mp h).1, h]

theorem grows_push (s : Slots) (f : Field) : s.Grows (s.push f).2 :=
  Grows.of_append (List.prefix_refl _) rfl

theorem grows_declare (s : Slots) (kind : FieldKind) (argument typeName : String) :
    s.Grows (s.declare kind argument typeName).2 :=
  Grows.of_append (List.prefix_append _ _) rfl

/-- A slot that is claimed again keeps all but its name, and its type if it suits the request. -/
theorem keeps_shareAs {f : Field} (position : Nat) (hs : suits kind typeName f = true)
    (hp : f.place = .onUnion) : f.Keeps (shareAs typeName position f) where
  kind := rfl
  place := rfl
  typeName := by
    unfold shareAs
    split
    · exact Or.inl rfl
    · next hne =>
      refine Or.inr ⟨?_, rfl⟩
      cases kind with
      | sameType => simp [suits, hne] at hs
      | reference => simpa [suits] using hs
      | overlappable | unique => simp [suits] at hs
  argument _ := rfl
  inside hne := absurd hp hne

theorem grows_claim (kind : FieldKind) {id : FieldId} {position : Nat}
    (h : ∀ f, s.fields[id]? = some f → suits kind typeName f = true ∧ f.place = .onUnion) :
    s.Grows (s.claim typeName position id) where
  slots := List.prefix_refl _
  field {i f} hf := by
    simp only [claim, List.getElem?_modify, hf, Option.map_eq_map, Option.map_some]
    split
    · next he =>
      subst he
      exact ⟨_, rfl, keeps_shareAs position (h f hf).1 (h f hf).2⟩
    · exact ⟨f, rfl, Field.Keeps.refl f⟩

/-! ## What a request for a slot does -/

/-- **A request is met by a free slot that suits it, or by a new slot if there is none.** -/
theorem findOrDeclare_cases (s : Slots) (kind : FieldKind) (argument typeName : String) :
    (∃ position id f, s.slots[position]? = some id ∧ id ∉ s.claims ∧ s.fields[id]? = some f ∧
      suits kind typeName f = true ∧
      s.findOrDeclare kind argument typeName = (id, s.claim typeName position id)) ∨
    ((∀ id ∈ s.slots, ∀ f, s.fields[id]? = some f → id ∉ s.claims →
      suits kind typeName f = false) ∧
      s.findOrDeclare kind argument typeName = s.declare kind argument typeName) := by
  unfold findOrDeclare
  split
  · next id position hfind =>
    have hmem := List.mem_of_find?_eq_some hfind
    have hmatch := List.find?_some hfind
    simp only [isMatch, Bool.and_eq_true, Bool.not_eq_true', List.contains_eq_mem,
      decide_eq_false_iff_not, Option.any_eq_true] at hmatch
    obtain ⟨hfree, f, hf, hs⟩ := hmatch
    rw [List.mem_zipIdx_iff_getElem?] at hmem
    exact Or.inl ⟨position, id, f, hmem, hfree, hf, hs, rfl⟩
  · next hfind =>
    refine Or.inr ⟨fun id hid f hf hfree => ?_, rfl⟩
    obtain ⟨position, hpos⟩ := List.getElem?_of_mem hid
    have hno := List.find?_eq_none.mp hfind (id, position) (List.mem_zipIdx_iff_getElem?.mpr hpos)
    simpa [isMatch, hfree, hf] using hno

/-! ## What every step keeps -/

/-- Each field is in exactly one place: it is the overlap region, a slot, or listed in `inside`. -/
structure Sound (s : Slots) (overlap : Option FieldId) (inside : List FieldId) : Prop where
  cover : (overlap.toList ++ s.slots ++ inside).Perm (List.range s.fields.length)
  onUnion : ∀ id ∈ overlap.toList ++ s.slots,
    ∃ f, s.fields[id]? = some f ∧ f.place = .onUnion ∧ f.argument.isSome = true
  claims_nodup : s.claims.Nodup
  claims_subset : ∀ id ∈ s.claims, id ∈ s.slots

variable {overlap : Option FieldId} {inside : List FieldId}

theorem Sound.nodup (h : s.Sound overlap inside) : (overlap.toList ++ s.slots ++ inside).Nodup :=
  h.cover.nodup_iff.mpr List.nodup_range

theorem Sound.nodup_slots (h : s.Sound overlap inside) : s.slots.Nodup :=
  (List.nodup_append.mp (List.nodup_append.mp h.nodup).1).2.1

theorem Sound.onUnion_of_grows (h : s.Sound overlap inside) (hg : s.Grows s') :
    ∀ id ∈ overlap.toList ++ s.slots,
      ∃ f, s'.fields[id]? = some f ∧ f.place = .onUnion ∧ f.argument.isSome = true := by
  intro id hid
  obtain ⟨f, hf, hp, ha⟩ := h.onUnion id hid
  obtain ⟨f', hf', hk⟩ := hg.field hf
  exact ⟨f', hf', hk.place.trans hp, hk.argument ha⟩

theorem Sound.newCase (h : s.Sound overlap inside) : s.newCase.Sound overlap inside :=
  ⟨h.cover, h.onUnion, List.nodup_nil, fun _ hid => absurd hid List.not_mem_nil⟩

theorem Sound.push (h : s.Sound overlap inside) (f : Field) :
    (s.push f).2.Sound overlap (inside ++ [s.fields.length]) where
  cover := by
    rw [← List.append_assoc, Slots.push, List.length_append, List.length_singleton,
      List.range_succ]
    exact h.cover.append_right _
  onUnion := h.onUnion_of_grows (grows_push s f)
  claims_nodup := h.claims_nodup
  claims_subset := h.claims_subset

theorem Sound.claim (h : s.Sound overlap inside) {id : FieldId} {position : Nat}
    (hid : id ∈ s.slots) (hfree : id ∉ s.claims) (hg : s.Grows (s.claim typeName position id)) :
    (s.claim typeName position id).Sound overlap inside where
  cover := by simpa [Slots.claim] using h.cover
  onUnion := h.onUnion_of_grows hg
  claims_nodup := List.nodup_cons.mpr ⟨hfree, h.claims_nodup⟩
  claims_subset := List.forall_mem_cons.mpr ⟨hid, h.claims_subset⟩

theorem Sound.declare (h : s.Sound overlap inside) (kind : FieldKind)
    (argument typeName : String) :
    (s.declare kind argument typeName).2.Sound overlap inside where
  cover := by
    -- the new id is the last of the range, but comes before those inside the overlap region
    simp only [Slots.declare, List.length_append, List.length_singleton, List.range_succ]
    rw [← List.append_assoc, List.append_assoc _ _ inside]
    refine (List.perm_append_comm.append_left _).trans ?_
    rw [← List.append_assoc]
    exact h.cover.append_right _
  onUnion := by
    intro id hid
    rw [Slots.declare, ← List.append_assoc, List.mem_append, List.mem_singleton] at hid
    rcases hid with hid | rfl
    · exact h.onUnion_of_grows (grows_declare s kind argument typeName) id hid
    · exact ⟨_, List.getElem?_concat_length, rfl, rfl⟩
  claims_nodup := by
    refine List.nodup_cons.mpr ⟨fun hid => ?_, h.claims_nodup⟩
    obtain ⟨f, hf, -⟩ := h.onUnion _ (List.mem_append_right _ (h.claims_subset _ hid))
    simp at hf
  claims_subset := List.forall_mem_cons.mpr
    ⟨by simp [Slots.declare], fun id hid => List.mem_append_left _ (h.claims_subset id hid)⟩

/-- What a request for a slot does. -/
structure Met (s : Slots) (id : FieldId) (s' : Slots) : Prop where
  grows : s.Grows s'
  free : id ∉ s.claims
  claims : s'.claims = id :: s.claims
  slots : ∀ i ∈ s'.slots, i ∈ s.slots ∨ i = id

/-- **A request keeps the slots sound and claims one that the case had not claimed.** -/
theorem Sound.findOrDeclare (h : s.Sound overlap inside) (kind : FieldKind)
    (argument typeName : String) :
    (s.findOrDeclare kind argument typeName).2.Sound overlap inside ∧
      s.Met (s.findOrDeclare kind argument typeName).1
        (s.findOrDeclare kind argument typeName).2 := by
  rcases findOrDeclare_cases s kind argument typeName with
    ⟨position, id, f, hpos, hfree, hf, hs, he⟩ | ⟨-, he⟩
  · have hid : id ∈ s.slots := List.mem_of_getElem? hpos
    have hg : s.Grows (s.claim typeName position id) := by
      refine grows_claim kind fun f' hf' => ?_
      obtain ⟨g, hg, hplace, -⟩ := h.onUnion id (List.mem_append_right _ hid)
      rw [hg, Option.some.injEq] at hf hf'
      exact ⟨by rw [← hf', hf]; exact hs, by rw [← hf']; exact hplace⟩
    rw [he]
    exact ⟨h.claim hid hfree hg, hg, hfree, rfl, fun i hi => Or.inl hi⟩
  · have hsound := h.declare kind argument typeName
    rw [he]
    refine ⟨hsound, grows_declare s kind argument typeName, ?_, rfl, ?_⟩
    · exact (List.nodup_cons.mp hsound.claims_nodup).1
    · intro i hi
      simpa [Slots.declare] using hi

end Slots

end SumLayout
