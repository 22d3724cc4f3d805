import SumLayout.Proofs.Requests
import SumLayout.Proofs.Slots

/-!
# What serving the requests of a case does

`Progress.Sound` extends the invariant of the slots to the part of the overlap region that belongs
to the case at hand. The region of a case is declared when its first overlappable leaf comes, so the
place of those leaves is decided once and for all: in the region if there is one, and directly in
the overlap region otherwise.

Every request keeps `Sound` (`Sound.placeLeaf`), and so does a case as a whole (`Sound.placeAll`).
The fields that a case is given split into its overlappable leaves and its claims, which is why no
two leaves of a case share one.
-/

namespace SumLayout

/-- Whether the leaf goes to the overlap region. -/
def Request.isOverlap (r : Request) : Bool := r.storage == .overlappable

/-- The fields of the requests that satisfy a condition, in order. -/
def fieldsOf (keep : Request → Bool) (rs : List Request) (ids : List FieldId) : List FieldId :=
  ((rs.zip ids).filter fun p => keep p.1).map (·.2)

theorem fieldsOf_cons {keep : Request → Bool} (r : Request) (rs : List Request) (id : FieldId)
    (ids : List FieldId) :
    fieldsOf keep (r :: rs) (id :: ids)
      = (if keep r then [id] else []) ++ fieldsOf keep rs ids := by
  rw [fieldsOf, List.zip_cons_cons, List.filter_cons]
  split <;> rfl

theorem length_fieldsOf (keep : Request → Bool) {rs : List Request} {ids : List FieldId}
    (h : ids.length = rs.length) : (fieldsOf keep rs ids).length = rs.countP keep := by
  induction rs generalizing ids with
  | nil => rfl
  | cons r rs ih =>
    cases ids with
    | nil => simp at h
    | cons id ids =>
      rw [fieldsOf_cons, List.length_append, ih (Nat.succ.inj h), List.countP_cons, Nat.add_comm]
      split <;> rfl

/-- The fields of all requests are those of the requests with and those without a property. -/
theorem fieldsOf_append_perm (keep : Request → Bool) {rs : List Request} {ids : List FieldId}
    (h : ids.length = rs.length) :
    (fieldsOf keep rs ids ++ fieldsOf (fun r => !keep r) rs ids).Perm ids := by
  have hmap : (rs.zip ids).map (·.2) = ids := List.map_snd_zip (Nat.le_of_eq h)
  have hp := (List.filter_append_perm (fun p : Request × FieldId => keep p.1) (rs.zip ids)).map
    (·.2)
  rwa [List.map_append, hmap] at hp

namespace Progress

variable {c : CaseScope} {overlap : Option FieldId} {placed : List FieldId} {p p' : Progress}

/-- The fields in the overlap region that belong to the case at hand. -/
def inside (p : Progress) : List FieldId := p.region.toList ++ p.overlapLeaves

/-- Where the overlappable leaves of the case are. -/
def leafPlace (p : Progress) : Place :=
  match p.region with
  | some region => .inRegion region
  | none => .inOverlap

/-- What holds while a case is stored, where `placed` lists the fields in the overlap region that
belong to earlier cases. -/
structure Sound (c : CaseScope) (overlap : Option FieldId) (placed : List FieldId)
    (p : Progress) : Prop where
  slots : p.slots.Sound overlap (placed ++ p.inside)
  leaves : ∀ id ∈ p.overlapLeaves,
    ∃ f, p.slots.fields[id]? = some f ∧ f.argument = none ∧ f.place = p.leafPlace
  region : ∀ id ∈ p.region,
    ∃ f, p.slots.fields[id]? = some f ∧ f.argument = none ∧ f.place = .inOverlap
  opened : c.needsRegion = true → p.overlapLeaves ≠ [] → p.region.isSome = true
  unopened : c.needsRegion = false → p.region = none
  regionFields : p.regionFields = if c.needsRegion then p.overlapLeaves else []

/-- The case may start: nothing of it is stored. -/
theorem sound_newCase {s : Slots} (h : s.Sound overlap placed) (ns : List Node) :
    Sound c overlap placed { slots := s.newCase, nodes := ns } where
  slots := by simpa [inside] using h.newCase
  leaves := fun _ hid => absurd hid List.not_mem_nil
  region := fun _ hid => absurd hid (by simp)
  opened := fun _ hne => absurd rfl hne
  unopened := fun _ => rfl
  regionFields := by split <;> rfl

theorem leafPlace_ne_onUnion (p : Progress) : p.leafPlace ≠ .onUnion := by
  unfold leafPlace
  split <;> simp

/-! ## One request -/

/-- What is in the overlap region is not touched by a request for a slot. -/
theorem Sound.withSlots (h : p.Sound c overlap placed) {s : Slots} (hg : p.slots.Grows s)
    (hs : s.Sound overlap (placed ++ p.inside)) :
    Sound c overlap placed { p with slots := s } where
  slots := hs
  leaves := by
    intro id hid
    obtain ⟨f, hf, ha, hp⟩ := h.leaves id hid
    exact ⟨f, hg.inside hf (hp ▸ leafPlace_ne_onUnion p), ha, hp⟩
  region := by
    intro id hid
    obtain ⟨f, hf, ha, hp⟩ := h.region id hid
    exact ⟨f, hg.inside hf (by simp [hp]), ha, hp⟩
  opened := h.opened
  unopened := h.unopened
  regionFields := h.regionFields

/-- The region is declared before the first overlappable leaf. -/
theorem Sound.ensureRegion (h : p.Sound c overlap placed) (hn : c.needsRegion = true) :
    Sound c overlap placed (p.ensureRegion c).2 ∧
      p.slots.Grows (p.ensureRegion c).2.slots ∧
      (p.ensureRegion c).2.region = some (p.ensureRegion c).1 := by
  unfold Progress.ensureRegion
  cases hr : p.region with
  | some region => exact ⟨h, Slots.Grows.refl _, hr⟩
  | none =>
    -- a leaf would have declared the region before
    have hempty : p.overlapLeaves = [] := by
      by_contra hne
      simpa [hr] using h.opened hn hne
    refine ⟨?_, Slots.grows_push _ _, rfl⟩
    refine ⟨?_, ?_, ?_, fun _ _ => rfl, fun hf => absurd hn (by simp [hf]), h.regionFields⟩
    · have hs := h.slots.push (Field.caseRegion c.caseName)
      simpa [inside, hr, hempty, Slots.push] using hs
    · simp [hempty]
    · intro id hid
      rw [Option.mem_def, Option.some.injEq] at hid
      subst hid
      exact ⟨_, List.getElem?_concat_length, rfl, rfl⟩

/-- An overlappable leaf is declared where the leaves of its case are. -/
theorem Sound.pushLeaf (h : p.Sound c overlap placed) {f : Field} (ha : f.argument = none)
    (hp : f.place = p.leafPlace) (hr : c.needsRegion = true → p.region.isSome = true) :
    Sound c overlap placed { p with
      slots := (p.slots.push f).2
      regionFields := if c.needsRegion then p.regionFields ++ [p.slots.fields.length]
        else p.regionFields
      overlapLeaves := p.overlapLeaves ++ [p.slots.fields.length] } where
  slots := by simpa [inside] using h.slots.push f
  leaves := by
    intro id hid
    rw [List.mem_append, List.mem_singleton] at hid
    rcases hid with hid | rfl
    · obtain ⟨g, hg, hga, hgp⟩ := h.leaves id hid
      exact ⟨g, (Slots.grows_push _ f).inside hg (hgp ▸ leafPlace_ne_onUnion p), hga, hgp⟩
    · exact ⟨f, List.getElem?_concat_length, ha, hp⟩
  region := by
    intro id hid
    obtain ⟨g, hg, hga, hgp⟩ := h.region id hid
    exact ⟨g, (Slots.grows_push _ f).inside hg (by simp [hgp]), hga, hgp⟩
  opened := fun hn _ => hr hn
  unopened := h.unopened
  regionFields := by
    rw [h.regionFields]
    split <;> rfl

/-- What serving one request does, beside keeping the invariant. -/
structure Placed (p : Progress) (isOverlap : Bool) (id : FieldId) (p' : Progress) : Prop where
  grows : p.slots.Grows p'.slots
  leaves : p'.overlapLeaves = p.overlapLeaves ++ if isOverlap then [id] else []
  claims : p'.slots.claims = (if isOverlap then [] else [id]) ++ p.slots.claims
  slots : ∀ i ∈ p'.slots.slots, i ∈ p.slots.slots ∨ i ∈ p'.slots.claims

theorem Sound.placeOverlap (h : p.Sound c overlap placed) (stem : String) (v : Value) :
    Sound c overlap placed (p.placeOverlap c stem v).2 ∧
      p.Placed true (p.placeOverlap c stem v).1 (p.placeOverlap c stem v).2 := by
  cases hn : c.needsRegion with
  | true =>
    obtain ⟨hs, hg, hr⟩ := h.ensureRegion hn
    have hleaves : (p.ensureRegion c).2.overlapLeaves = p.overlapLeaves := by
      unfold Progress.ensureRegion
      split <;> rfl
    have hslots : (p.ensureRegion c).2.slots.slots = p.slots.slots := by
      unfold Progress.ensureRegion
      split <;> rfl
    have hclaims : (p.ensureRegion c).2.slots.claims = p.slots.claims := by
      unfold Progress.ensureRegion
      split <;> rfl
    have hpush := hs.pushLeaf (f := .overlapLeaf (Text.underscored [stem, v.name]) v.type.name
      (.inRegion (p.ensureRegion c).1)) rfl (by simp [leafPlace, hr, Field.overlapLeaf])
      fun _ => by simp [hr]
    unfold Progress.placeOverlap
    rw [if_pos hn]
    rw [if_pos hn] at hpush
    refine ⟨hpush, hg.trans (Slots.grows_push _ _), ?_, ?_, ?_⟩
    · rw [if_pos rfl, ← hleaves]
    · rw [if_pos rfl, List.nil_append, ← hclaims]
      rfl
    · intro i hi
      rw [← hslots]
      exact Or.inl hi
  | false =>
    have hnone := h.unopened hn
    have hpush := h.pushLeaf (f := .overlapLeaf
      (Text.underscored [c.caseName, Text.underscored [stem, v.name]]) v.type.name .inOverlap)
      rfl (by simp [leafPlace, hnone, Field.overlapLeaf]) fun ht => absurd ht (by simp [hn])
    unfold Progress.placeOverlap
    rw [if_neg (by simp [hn])]
    rw [if_neg (by simp [hn])] at hpush
    exact ⟨hpush, Slots.grows_push _ _, rfl, rfl, fun i hi => Or.inl hi⟩

theorem Sound.placeShared (h : p.Sound c overlap placed) (kind : FieldKind) (stem : String)
    (v : Value) :
    Sound c overlap placed (p.placeShared c kind stem v).2 ∧
      p.Placed false (p.placeShared c kind stem v).1 (p.placeShared c kind stem v).2 := by
  obtain ⟨hs, hmet⟩ := h.slots.findOrDeclare kind
    (Text.underscored [c.caseName, stem, v.name]) v.type.name
  refine ⟨h.withSlots hmet.grows hs, hmet.grows, by simp [Progress.placeShared], hmet.claims, ?_⟩
  intro i hi
  rcases hmet.slots i hi with hi | rfl
  · exact Or.inl hi
  · refine Or.inr ?_
    have hc := hmet.claims
    rw [Progress.placeShared, hc]
    exact List.mem_cons_self

/-- **A request keeps the invariant**, and its field goes to the leaves or to the claims. -/
theorem Sound.placeLeaf (h : p.Sound c overlap placed) (r : Request) :
    Sound c overlap placed (p.placeLeaf c r.storage r.stem r.value).2 ∧
      p.Placed r.isOverlap (p.placeLeaf c r.storage r.stem r.value).1
        (p.placeLeaf c r.storage r.stem r.value).2 := by
  obtain ⟨storage, stem, path, v⟩ := r
  cases storage with
  | overlappable => exact h.placeOverlap stem v
  | sameType => exact h.placeShared .sameType stem v
  | reference => exact h.placeShared .reference stem v
  | unique | decomposable => exact h.placeShared .unique stem v

/-! ## All requests of a case -/

/-- What serving some requests does, beside keeping the invariant. -/
structure AllPlaced (p : Progress) (rs : List Request) (ids : List FieldId) (p' : Progress) :
    Prop where
  grows : p.slots.Grows p'.slots
  leaves : p'.overlapLeaves = p.overlapLeaves ++ fieldsOf Request.isOverlap rs ids
  claims : p'.slots.claims
    = (fieldsOf (fun r => !r.isOverlap) rs ids).reverse ++ p.slots.claims
  slots : ∀ i ∈ p'.slots.slots, i ∈ p.slots.slots ∨ i ∈ p'.slots.claims

theorem Sound.placeAll (rs : List Request) : ∀ {p : Progress}, p.Sound c overlap placed →
    Sound c overlap placed (p.placeAll c rs).2 ∧
      p.AllPlaced rs (p.placeAll c rs).1 (p.placeAll c rs).2 := by
  induction rs with
  | nil =>
    intro p h
    exact ⟨h, Slots.Grows.refl _, (List.append_nil _).symm, rfl, fun i hi => Or.inl hi⟩
  | cons r rs ih =>
    intro p h
    obtain ⟨hs, hone⟩ := h.placeLeaf r
    obtain ⟨hs', hall⟩ := ih hs
    refine ⟨hs', hone.grows.trans hall.grows, ?_, ?_, ?_⟩
    · rw [Progress.placeAll, hall.leaves, hone.leaves, fieldsOf_cons, List.append_assoc]
    · rw [Progress.placeAll, hall.claims, hone.claims, fieldsOf_cons, List.reverse_append]
      cases r.isOverlap <;> simp
    · intro i hi
      rcases hall.slots i hi with hi | hi
      · refine (hone.slots i hi).imp_right fun hc => ?_
        rw [Progress.placeAll, hall.claims]
        exact List.mem_append_right _ hc
      · exact Or.inr hi

end Progress

end SumLayout
