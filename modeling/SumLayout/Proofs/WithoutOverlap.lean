import SumLayout.Proofs.PlanOutcome

/-!
# Turning overlap off

What a plan tells apart from storage follows from the declaration and the tags alone: the read of a
case is a question for the tag exactly if the case has no value (`Built.equality_eq`), and nothing
else of a mapping is looked at (`PlannedWith.casePlans_eq`, `PlannedWith.derived_eq`).

Without overlap a union has its plain layout (`select_withoutOverlap`), and it is the plain layout
that decides whether there is one at all. So **turning overlap off changes storage only**: planning
fails as before, and a plan has the same tags, names and derived members, and at least as many
fields.
-/

namespace SumLayout

/-! ## What follows from the declaration and the tags -/

/-- How two values of a case are compared, told from its parameters. -/
def Case.comparison (c : Case) : CaseEquality :=
  match c.values with
  | [] => .tagOnly
  | [v] => if v.type.shape.mayBeNull then .nullSafeValue else .value
  | _ => .value

namespace Layout

variable {classOf : Shape → StorageClass} {overlapped : Bool} {done : List Case} {l : Layout}
  {c : Case} {cl : CaseLayout} {ts : List NodeTree} {i : Nat} {tag : UInt32} {m : CaseMapping}

/-- Only a case without values is read by its tag alone. -/
theorem Holds.values_eq_nil (h : Holds classOf l c cl ts) (hcl : l.cases[i]? = some cl)
    {bundle : Option Bundle} {t : UInt32} (hr : l.caseRead i c tag bundle = .ok (.isCase t)) :
    c.values = [] := by
  rw [← List.length_eq_zero_iff, ← h.stands.length_eq]
  rw [Layout.caseRead, caseAt_eq hcl, h.forest] at hr
  rcases ts with _ | ⟨root, _ | ⟨root', roots⟩⟩
  · rfl
  · cases hroot : root.readExpr l c.name <;> simp [hroot, Except.map] at hr
  · cases hroots : NodeTree.readExprs l c.name (root :: root' :: roots) with
    | error e => rcases bundle with _ | _ | _ <;> simp [hroots, Except.map] at hr
    | ok rs => rcases bundle with _ | _ | _ <;> simp [hroots, Except.map] at hr

/-- **How two values of a case are compared does not depend on how they are read.** -/
theorem Built.equality_eq (hb : Built classOf overlapped done l) (hc : done[i]? = some c)
    (hm : l.Maps i c tag m) : c.equality m.read = c.comparison := by
  obtain ⟨cl, ts, hcl, h⟩ := hb.holds_at hc
  have hr := (mapCase_eq_ok hm.result).2
  cases hread : m.read with
  | guarded t value => rfl
  | isCase t =>
    rw [hread] at hr
    rw [Case.equality, Case.comparison, h.values_eq_nil hcl hr]

theorem Built.equalityPlan_eq {u : Union} {tags : List UInt32} {ms : List CaseMapping}
    (hb : Built classOf overlapped u.cases l) (hms : l.MapsAll 0 u.cases tags ms)
    (hlen : ms.length = u.cases.length) : u.equalityPlan ms =
    if u.isTagsOnly then .tagOnly else .perCase (u.cases.map Case.comparison) := by
  have hzip : ((u.cases.zip ms).map fun p => p.1.equality p.2.read)
      = ((u.cases.zip ms).map Prod.fst).map Case.comparison := by
    rw [List.map_map]
    refine List.map_congr_left fun p hp => ?_
    obtain ⟨i, hi⟩ := List.getElem?_of_mem hp
    obtain ⟨hc, hm⟩ := List.getElem?_zip_eq_some.mp hi
    obtain ⟨tag, -, hmap⟩ := hms.maps_at hc hm
    rw [Nat.zero_add] at hmap
    exact hb.equality_eq hc hmap
  rw [Union.equalityPlan, hzip, List.map_fst_zip (Nat.le_of_eq hlen.symm)]

end Layout

namespace Union

variable {u : Union} {l : Layout} {tags : List UInt32} {ms : List CaseMapping}

/-- The derived members, told from the declaration and the tags. -/
def derivedFrom (u : Union) (tags : List UInt32) : DerivedMembers :=
  let options := u.options.effectiveFor u.refLike
  let equality : EqualityPlan :=
    if u.isTagsOnly then .tagOnly else .perCase (u.cases.map Case.comparison)
  { equality := if options.generateEquality then some equality else none
    text := if options.generateText then some u.textPlan else none
    matching := if options.generateMatch then some (u.matchPlan tags) else none
    typeUnion := if u.kind = .types then some (u.typeUnionPlan options) else none }

theorem PlannedWith.built (h : u.PlannedWith l tags ms) :
    ∃ classOf overlapped, Layout.Built classOf overlapped u.cases l := by
  have hl := h.selected
  rw [Layout.select_eq] at hl
  exact ⟨_, _, (Layout.built_of_allocate hl).2⟩

theorem PlannedWith.length_mappings (h : u.PlannedWith l tags ms) :
    ms.length = u.cases.length := by
  rw [h.mapped.length, h.length, Nat.min_self]

theorem PlannedWith.maps_at (h : u.PlannedWith l tags ms) {i : Nat} {c : Case} {m : CaseMapping}
    (hc : u.cases[i]? = some c) (hm : ms[i]? = some m) : ∃ tag, l.Maps i c tag m := by
  obtain ⟨tag, -, hmap⟩ := h.mapped.maps_at hc hm
  rw [Nat.zero_add] at hmap
  exact ⟨tag, hmap⟩

theorem PlannedWith.equalityPlan_eq (h : u.PlannedWith l tags ms) : u.equalityPlan ms =
    if u.isTagsOnly then .tagOnly else .perCase (u.cases.map Case.comparison) := by
  obtain ⟨classOf, overlapped, hb⟩ := h.built
  exact hb.equalityPlan_eq h.mapped h.length_mappings

/-- **The derived members follow from the declaration and the tags.** -/
theorem PlannedWith.derived_eq (h : u.PlannedWith l tags ms) :
    u.derive tags ms = u.derivedFrom tags := by
  rw [derive, derivedFrom, h.equalityPlan_eq]

/-- **The names of the cases and how their values are put together follow from the declaration.** -/
theorem PlannedWith.casePlans_eq (h : u.PlannedWith l tags ms) :
    (u.casePlans tags ms).map (·.mapping.bundle) = u.cases.map Case.bundle ∧
      (u.casePlans tags ms).map (·.names) = u.cases.map fun c => u.caseNames c c.bundle := by
  have hsub := (map_casePlans h.length h.length_mappings).1
  have hbundle : ∀ cp ∈ u.casePlans tags ms, cp.mapping.bundle = cp.subject.bundle := by
    intro cp hcp
    obtain ⟨i, hi⟩ := List.getElem?_of_mem hcp
    obtain ⟨hc, -, hm⟩ := casePlans_at hi
    obtain ⟨tag, hmap⟩ := h.maps_at hc hm
    exact hmap.bundle
  have hnames : ∀ cp ∈ u.casePlans tags ms,
      cp.names = u.caseNames cp.subject cp.mapping.bundle := by
    intro cp hcp
    obtain ⟨p, -, rfl⟩ := List.mem_map.mp hcp
    rfl
  constructor
  · rw [List.map_congr_left hbundle, ← hsub, List.map_map]
    rfl
  · rw [← hsub, List.map_map]
    refine List.map_congr_left fun cp hcp => ?_
    rw [hnames cp hcp, hbundle cp hcp]
    rfl

/-! ## Turning overlap off -/

/-- The union laid out without overlap. -/
def withoutOverlap (u : Union) : Union := u.setOption .overlapStructs false

theorem validate_withoutOverlap (u : Union) : u.withoutOverlap.validate = u.validate := by
  have hfrom : ∀ (cs earlier : List Case),
      u.withoutOverlap.findingsFrom earlier cs = u.findingsFrom earlier cs := by
    intro cs
    induction cs with
    | nil => exact fun _ => rfl
    | cons c cs ih =>
      intro earlier
      rw [findingsFrom, findingsFrom, ih]
      rfl
  rw [validate_eq, validate_eq, ← hfrom]
  rfl

theorem derivedFrom_withoutOverlap (u : Union) (tags : List UInt32) :
    u.withoutOverlap.derivedFrom tags = u.derivedFrom tags := by
  obtain ⟨kind, name, typeName, refLike, options, cases⟩ := u
  cases refLike <;> rfl

end Union

namespace StorageClass

/-- Without an overlap region it makes no difference whether overlapping is on. -/
theorem ofShape_false_set (o : Options) :
    ofShape (o.set .overlapStructs false) false = ofShape o false := by
  funext s
  cases s <;>
    simp [ofShape, candidate, foreignCandidate, Options.set, Flags.set, Flags.ofFn, Flags.get]

end StorageClass

namespace Layout

/-- **The plain layout does not depend on whether overlapping is on.** -/
theorem allocate_withoutOverlap (u : Union) :
    allocate u.withoutOverlap false = allocate u false := by
  have hclass : classes u.withoutOverlap false = classes u false :=
    StorageClass.ofShape_false_set u.options
  rw [allocate_eq, allocate_eq, hclass]
  rfl

theorem select_withoutOverlap (u : Union) : select u.withoutOverlap = allocate u false := by
  rw [select_eq, ← allocate_withoutOverlap]
  rfl

/-- **The layout that is chosen has at most as many fields as the plain one.** -/
theorem fieldCount_le_of_select {u : Union} {l plain : Layout} (hl : select u = .ok l)
    (hp : allocate u false = .ok plain) : l.fieldCount ≤ plain.fieldCount := by
  obtain ⟨overlapped, ho⟩ := allocate_of_plain hp true
  rw [select, hp] at hl
  simp only [ho] at hl
  split at hl
  · split at hl
    · next hless =>
      rw [← Except.ok.inj hl]
      exact Nat.le_of_lt hless
    · rw [← Except.ok.inj hl]
  · rw [← Except.ok.inj hl]

end Layout

namespace Union

variable {u : Union} {e : PlanError} {p p' : Plan}

/-- **Planning without overlap fails as planning does.** -/
theorem plan_error_withoutOverlap (h : u.plan = .error e) : u.withoutOverlap.plan = .error e := by
  by_cases hc : u.Contradictory
  · rw [plan_of_contradictory hc] at h
    rw [plan_of_contradictory (u := u.withoutOverlap) hc, validate_withoutOverlap]
    exact h
  · have hc' : ¬u.withoutOverlap.Contradictory := hc
    cases ha : Layout.allocate u false with
    | error e' =>
      rw [plan_of_unfit hc ha] at h
      rw [plan_of_unfit hc' ((Layout.allocate_withoutOverlap u).trans ha)]
      exact h
    | ok plain =>
      have ha' := (Layout.allocate_withoutOverlap u).trans ha
      by_cases ht : OutOfTags u.cases
      · obtain ⟨c, -, -, herr⟩ := assignTags_of_exhausted ht
        rw [plan_of_tagless hc ha herr] at h
        rw [plan_of_tagless hc' ha' herr]
        exact h
      · obtain ⟨p, hp, -⟩ := plan_of_enough hc ha ht
        rw [hp] at h
        exact absurd h (by simp)

/-- A union that can be planned can be planned without overlap. -/
theorem plan_ok_withoutOverlap (h : u.plan = .ok p) : ∃ p', u.withoutOverlap.plan = .ok p' := by
  obtain ⟨hc, ⟨plain, ha⟩, ht⟩ := plannable_of_plan h
  obtain ⟨p', hp', -⟩ := plan_of_enough (u := u.withoutOverlap) hc
    ((Layout.allocate_withoutOverlap u).trans ha) ht
  exact ⟨p', hp'⟩

/-- What two plans have in common if they differ in storage alone. -/
structure SameButStorage (p p' : Plan) : Prop where
  tags : p'.tags = p.tags
  names : p'.names = p.names
  caseNames : p'.cases.map (·.names) = p.cases.map (·.names)
  bundles : p'.cases.map (·.mapping.bundle) = p.cases.map (·.mapping.bundle)
  derived : p'.derived = p.derived

theorem sameButStorage_withoutOverlap (hp : u.plan = .ok p)
    (hp' : u.withoutOverlap.plan = .ok p') : SameButStorage p p' := by
  obtain ⟨l, tags, ms, h, rfl⟩ := exists_plannedWith_of_plan hp
  obtain ⟨l', tags', ms', h', rfl⟩ := exists_plannedWith_of_plan hp'
  have htags : tags' = tags := Except.ok.inj (h'.assigned.symm.trans h.assigned)
  subst htags
  refine ⟨?_, rfl, ?_, ?_, ?_⟩
  · show (u.withoutOverlap.casePlans tags' ms').map (·.tag) = (u.casePlans tags' ms).map (·.tag)
    rw [(map_casePlans h'.length h'.length_mappings).2,
      (map_casePlans h.length h.length_mappings).2]
  · exact h'.casePlans_eq.2.trans h.casePlans_eq.2.symm
  · exact h'.casePlans_eq.1.trans h.casePlans_eq.1.symm
  · show u.withoutOverlap.derive tags' ms' = u.derive tags' ms
    rw [h'.derived_eq, h.derived_eq, derivedFrom_withoutOverlap]

theorem fieldCount_le_withoutOverlap (hp : u.plan = .ok p) (hp' : u.withoutOverlap.plan = .ok p') :
    p.layout.fieldCount ≤ p'.layout.fieldCount := by
  obtain ⟨l, tags, ms, h, rfl⟩ := exists_plannedWith_of_plan hp
  obtain ⟨l', tags', ms', h', rfl⟩ := exists_plannedWith_of_plan hp'
  exact Layout.fieldCount_le_of_select h.selected
    ((Layout.select_withoutOverlap u).symm.trans h'.selected)

/-- **Turning overlap off changes storage only.** Planning a union without overlap fails exactly if
planning it fails, and in the same way; otherwise the two plans agree in everything but storage, and
the one without overlap does not have fewer fields. -/
theorem plan_setOption_overlapStructs (u : Union) :
    (∀ e, u.plan = .error e ↔ u.withoutOverlap.plan = .error e) ∧
      ∀ p p', u.plan = .ok p → u.withoutOverlap.plan = .ok p' →
        SameButStorage p p' ∧ p.layout.fieldCount ≤ p'.layout.fieldCount := by
  refine ⟨fun e => ⟨plan_error_withoutOverlap, fun he => ?_⟩, fun p p' hp hp' =>
    ⟨sameButStorage_withoutOverlap hp hp', fieldCount_le_withoutOverlap hp hp'⟩⟩
  cases hu : u.plan with
  | ok p =>
    obtain ⟨p', hp'⟩ := plan_ok_withoutOverlap hu
    exact absurd (he.symm.trans hp') (by simp)
  | error e' =>
    exact congrArg _ (Except.error.inj ((plan_error_withoutOverlap hu).symm.trans he))

theorem plan_figures_withoutOverlap : ∃ p p', Union.figures.plan = .ok p ∧
    Union.figures.withoutOverlap.plan = .ok p' ∧ SameButStorage p p' ∧
    p.layout.fieldCount ≤ p'.layout.fieldCount := by
  obtain ⟨p, hp⟩ := exists_plan (u := .figures) ⟨by decide, by decide⟩ (by decide) (by decide)
  obtain ⟨p', hp'⟩ := plan_ok_withoutOverlap hp
  exact ⟨p, p', hp, hp', (plan_setOption_overlapStructs .figures).2 p p' hp hp'⟩

end Union

end SumLayout
