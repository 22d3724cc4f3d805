import SumLayout.Proofs.Alike

/-!
# Appending a case

Cases are stored one after another, and what is stored is a function of the cases so far
(`Built.eq`). So the layout of a union with one more case at the end passes through the layout of
the union without it, as long as the new case does not bring an overlap region about.

**The longer layout extends the shorter one** (`extends_of_allocate`): nodes, cases and slots are
only added at the end. A field that is there already stays where it is. All that can happen to it is
that its slot is claimed again, which gives it the name of a shared slot and may widen its type.
-/

namespace SumLayout

/-- The union with one more case. -/
def Union.append (u : Union) (c : Case) : Union := { u with cases := u.cases ++ [c] }

/-- A link to another document. -/
def Case.link : Case where
  name := "Link"
  values := [
    { name := "target", type := { name := "Uri", shape := .reference } },
    { name := "weight", type := .double },
    { name := "rank", type := .int }]

namespace Layout

/-- What has become of the field `id` of a layout once more cases are stored. -/
structure FieldExtends (l : Layout) (id : FieldId) (f f' : Field) : Prop where
  kind : f'.kind = f.kind
  place : f'.place = f.place
  typeName : f'.typeName = f.typeName ∨ f.kind = .reference ∧ f'.typeName = Field.anyReference
  /-- A slot that is claimed again is named after its position. -/
  named : f'.name = f.name ∧ f'.argument = f.argument ∨
    ∃ i, l.unionFields[i]? = some id ∧ f'.name = Field.dataName (Slots.sharedName i) ∧
      f'.argument = some (Slots.sharedName i)

/-- The layout `l'` leaves what `l` stores where it is. -/
structure Extends (l l' : Layout) : Prop where
  nodes : l.nodes <+: l'.nodes
  cases : l.cases <+: l'.cases
  unionFields : l.unionFields <+: l'.unionFields
  overlap : l'.overlap = l.overlap
  fields : ∀ id f, l.fields[id]? = some f →
    ∃ f', l'.fields[id]? = some f' ∧ FieldExtends l id f f'

variable {classOf : Shape → StorageClass} {overlapped : Bool} {done : List Case}
  {l l' k k' : Layout} {c : Case} {ts us : List NodeTree} {id : FieldId} {f : Field}

/-! ## What is stored is a function of the cases -/

/-- There is one way to store a case after those before it. -/
theorem CaseAdded.eq (step : CaseAdded classOf c ts l k) (step' : CaseAdded classOf c us l k') :
    k = k' := by
  obtain ⟨added, hn, hst⟩ := step.nodes
  obtain ⟨added', hn', hst'⟩ := step'.nodes
  have hresult := Except.ok.inj (hst.result.symm.trans hst'.result)
  obtain ⟨hroots, hprogress⟩ := Prod.mk.inj hresult
  have hnodes : k.nodes = k'.nodes := by
    rw [hn, hn']
    exact congrArg Progress.nodes hprogress
  have hcases : k.cases = k'.cases := by
    rw [step.cases, step'.cases, caseLayout, caseLayout, hroots]
  have hfields : k.fields = k'.fields := by rw [step.fields, step'.fields]
  have hslots : k.unionFields = k'.unionFields := by rw [step.unionFields, step'.unionFields]
  have hoverlap : k.overlap = k'.overlap := by rw [step.overlap, step'.overlap]
  cases k
  cases k'
  simp only at hnodes hcases hfields hslots hoverlap
  rw [hnodes, hcases, hfields, hslots, hoverlap]

/-- **What is stored is a function of the cases.** -/
theorem Built.eq (h : Built classOf overlapped done l) : ∀ {l'},
    Built classOf overlapped done l' → l = l' := by
  induction h with
  | start =>
    intro l' h'
    exact h'.eq_start.symm
  | case before step ih =>
    intro l' h'
    obtain ⟨k, us, before', step'⟩ := h'.exists_step
    obtain rfl := ih before'
    exact step.eq step'

/-! ## One more case -/

/-- **What becomes of a field when a case is added.** -/
theorem CaseAdded.fieldExtends (step : CaseAdded classOf c ts l l')
    (before : Built classOf overlapped done l) (hf : l.fields[id]? = some f) :
    ∃ f', l'.fields[id]? = some f' ∧ FieldExtends l id f f' := by
  have hsound := before.sound
  obtain ⟨f', hf', hkeeps⟩ := (step.grows hsound).slots.field hf
  refine ⟨f', hf', hkeeps.kind, hkeeps.place, hkeeps.typeName, ?_⟩
  have hsame : l'.fields[id]? = some f → f'.name = f.name ∧ f'.argument = f.argument := by
    intro h
    rw [Option.some.inj (hf'.symm.trans h)]
    exact ⟨rfl, rfl⟩
  by_cases hid : id ∈ (l.place classOf c).1
  · by_cases hplace : f.place = .onUnion
    · rcases (before.place_eq_onUnion_iff hf).mp hplace with hover | hslot
      · exact absurd hid (hsound.overlap_notMem_place classOf c hover)
      · -- the slot is claimed again
        obtain ⟨i, hi⟩ := List.getElem?_of_mem hslot
        obtain ⟨g, hg, harg, hname⟩ := step.named ((hsound.names_place classOf c).shared hi hid)
        obtain rfl : f' = g := Option.some.inj (hf'.symm.trans hg)
        exact Or.inr ⟨i, hi, hname, harg⟩
    · exact Or.inl (hsame ((step.grows hsound).slots.inside hf hplace))
  · exact Or.inl (hsame (step.frame hsound hf hid))

/-- **A layout is extended when a case is added to it.** -/
theorem CaseAdded.extends (step : CaseAdded classOf c ts l l')
    (before : Built classOf overlapped done l) : l.Extends l' where
  nodes := (step.grows before.sound).nodes
  cases := by
    rw [step.cases]
    exact List.prefix_append _ _
  unionFields := (step.grows before.sound).slots.slots
  overlap := step.overlap
  fields _ _ hf := step.fieldExtends before hf

/-! ## Appending a case to a union -/

/-- **Appending a case does not move what is stored**, unless it makes the difference whether there
is an overlap region. -/
theorem extends_of_allocate {u : Union} {allowOverlap : Bool} (c : Case)
    (h : allocate u allowOverlap = .ok l) (h' : allocate (u.append c) allowOverlap = .ok l')
    (ho : l.overlap.isSome = l'.overlap.isSome) : l.Extends l' := by
  have hoverlap : hasOverlap (u.append c) allowOverlap = hasOverlap u allowOverlap := by
    rw [hasOverlap_eq_isSome h, hasOverlap_eq_isSome h', ho]
  have hclasses : classes (u.append c) allowOverlap = classes u allowOverlap := by
    rw [classes, classes, hoverlap]
    rfl
  have hbuilt' :
      Built (classes u allowOverlap) (hasOverlap u allowOverlap) (u.cases ++ [c]) l' := by
    rw [← hclasses, ← hoverlap]
    exact (built_of_allocate h').2
  obtain ⟨k, ts, before, step⟩ := hbuilt'.exists_step
  obtain rfl := (built_of_allocate h).2.eq before
  exact step.extends before

/-- A link among figures widens the slot that they have for texts. -/
theorem extends_figures : ∃ l l', allocate .figures true = .ok l ∧
    allocate (Union.figures.append .link) true = .ok l' ∧
    l.overlap.isSome = l'.overlap.isSome ∧ l.fieldType 5 = "string" ∧ l'.fieldType 5 = "object" ∧
    l.Extends l' := by
  have hrun : (allocate .figures true).map (fun l => (l.overlap.isSome, l.fieldType 5))
      = .ok (true, "string") := by decide +kernel
  have hrun' : (allocate (Union.figures.append .link) true).map
      (fun l => (l.overlap.isSome, l.fieldType 5)) = .ok (true, "object") := by decide +kernel
  obtain ⟨l, hl, htype⟩ := exists_layout_of_map hrun
  obtain ⟨l', hl', htype'⟩ := exists_layout_of_map hrun'
  obtain ⟨ho, htype⟩ := Prod.mk.inj htype
  obtain ⟨ho', htype'⟩ := Prod.mk.inj htype'
  have hsome : l.overlap.isSome = l'.overlap.isSome := ho.trans ho'.symm
  exact ⟨l, l', hl, hl', hsome, htype, htype', extends_of_allocate .link hl hl' hsome⟩

end Layout

end SumLayout
