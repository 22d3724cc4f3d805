import SumLayout.Plan
import SumLayout.Proofs.Assignment
import SumLayout.Proofs.Selection
import SumLayout.Proofs.Validity
import SumLayout.Proofs.Verification
import SumLayout.Proofs.WellFormed

/-!
# What planning a union comes to

Of the five steps of planning, only the first three can fail: a declaration that contradicts itself,
a value that is to be taken apart but has no members, and too few tags. Writing and reading a case
and checking the round trip do not fail after that. `Union.plan_outcome` tells **for every union
what its plan is**.
-/

namespace SumLayout

/-- The plan has an entry for each case of the union and each part of the layout, in order, and all
of them agree on the tags. -/
structure Plan.Follows (p : Plan) (u : Union) : Prop where
  subjects : p.cases.map (·.subject) = u.cases
  layout : p.layout.cases.length = u.cases.length
  tags : assignTags u.cases = .ok (p.cases.map (·.tag))
  constructionTags : p.cases.map (·.mapping.construction.tag) = p.cases.map (·.tag)
  readTags : p.cases.map (·.mapping.read.tag) = p.cases.map (·.tag)
  mappings : ∀ (i : Nat) (cp : CasePlan), p.cases[i]? = some cp →
    p.layout.mapCase i cp.subject cp.tag = .ok cp.mapping

namespace Union

/-- What planning a union comes to. -/
structure Outcome (u : Union) : Prop where
  contradiction : (∃ findings, u.plan = .error (.invalidDescriptor u.name findings)) ↔
    u.Contradictory
  unfit : (∃ caseName path shape why, u.plan = .error (.invalidShape caseName path shape why)) ↔
    ¬u.Contradictory ∧ ∃ e, Layout.allocate u false = .error e
  exhausted : (∃ caseName, u.plan = .error (.tagsExhausted caseName)) ↔
    ¬u.Contradictory ∧ (∃ plain, Layout.allocate u false = .ok plain) ∧ OutOfTags u.cases
  planned : (∃ p, u.plan = .ok p) ↔
    ¬u.Contradictory ∧ (∃ plain, Layout.allocate u false = .ok plain) ∧ ¬OutOfTags u.cases
  /-- No case is left unwritten, unread or misread, and no value is taken apart for good. -/
  error : ∀ e, u.plan = .error e → (∃ findings, e = .invalidDescriptor u.name findings) ∨
    (∃ caseName path shape, e = .invalidShape caseName path shape .noMembers) ∨
    ∃ caseName, e = .tagsExhausted caseName
  follows : ∀ p, u.plan = .ok p → p.Follows u

variable {u : Union}

/-! ## Step by step -/

theorem plan_of_contradictory (h : u.Contradictory) :
    u.plan = .error (.invalidDescriptor u.name (u.validate.filter (·.isError))) := by
  rw [plan]
  split
  · next hnil => exact absurd h (errors_eq_nil_iff.mp hnil)
  · rfl

theorem plan_of_consistent (h : ¬u.Contradictory) : u.plan = u.planValid := by
  rw [plan, errors_eq_nil_iff.mpr h]

theorem plan_of_unfit (h : ¬u.Contradictory) {e : PlanError}
    (ha : Layout.allocate u false = .error e) : u.plan = .error e := by
  rw [plan_of_consistent h, planValid, Layout.select_of_error ha]
  rfl

theorem plan_of_tagless (h : ¬u.Contradictory) {plain : Layout}
    (ha : Layout.allocate u false = .ok plain) {e : PlanError}
    (ht : assignTags u.cases = .error e) : u.plan = .error e := by
  obtain ⟨l, hl, -⟩ := Layout.select_of_ok ha
  rw [plan_of_consistent h, planValid, hl, ht]
  rfl

theorem plan_of_exhausted (h : ¬u.Contradictory) {plain : Layout}
    (ha : Layout.allocate u false = .ok plain) (ht : OutOfTags u.cases) :
    ∃ c ∈ u.cases, c.tag = none ∧ u.plan = .error (.tagsExhausted c.name) := by
  obtain ⟨c, hc, hnone, herr⟩ := assignTags_of_exhausted ht
  exact ⟨c, hc, hnone, plan_of_tagless h ha herr⟩

/-- The plan that the mappings of all cases make. -/
def planOf (u : Union) (l : Layout) (tags : List UInt32) (ms : List CaseMapping) : Plan where
  subject := u
  layout := l
  names := u.names
  cases := u.casePlans tags ms
  derived := u.derive tags ms

theorem casePlans_at {tags : List UInt32} {ms : List CaseMapping} {i : Nat} {cp : CasePlan}
    (h : (u.casePlans tags ms)[i]? = some cp) :
    u.cases[i]? = some cp.subject ∧ tags[i]? = some cp.tag ∧ ms[i]? = some cp.mapping := by
  rw [casePlans, List.getElem?_map, Option.map_eq_some_iff] at h
  obtain ⟨⟨⟨c, tag⟩, m⟩, hp, rfl⟩ := h
  obtain ⟨hct, hm⟩ := List.getElem?_zip_eq_some.mp hp
  obtain ⟨hc, ht⟩ := List.getElem?_zip_eq_some.mp hct
  exact ⟨hc, ht, hm⟩

theorem map_casePlans {tags : List UInt32} {ms : List CaseMapping}
    (ht : tags.length = u.cases.length) (hm : ms.length = u.cases.length) :
    (u.casePlans tags ms).map (·.subject) = u.cases ∧
      (u.casePlans tags ms).map (·.tag) = tags := by
  have hfst : ((u.cases.zip tags).zip ms).map Prod.fst = u.cases.zip tags := by
    refine List.map_fst_zip ?_
    rw [List.length_zip, ht, Nat.min_self, hm]
  constructor
  · have hsub : (u.casePlans tags ms).map (·.subject)
        = (((u.cases.zip tags).zip ms).map Prod.fst).map Prod.fst := by
      rw [casePlans, List.map_map, List.map_map]
      rfl
    rw [hsub, hfst]
    exact List.map_fst_zip (Nat.le_of_eq ht.symm)
  · have htag : (u.casePlans tags ms).map (·.tag)
        = (((u.cases.zip tags).zip ms).map Prod.fst).map Prod.snd := by
      rw [casePlans, List.map_map, List.map_map]
      rfl
    rw [htag, hfst]
    exact List.map_snd_zip (Nat.le_of_eq ht)

theorem follows_planOf {l : Layout} {tags : List UInt32} {ms : List CaseMapping}
    (hms : l.MapsAll 0 u.cases tags ms) (hl : l.cases.length = u.cases.length)
    (htags : assignTags u.cases = .ok tags) (hlen : tags.length = u.cases.length) :
    (u.planOf l tags ms).Follows u := by
  have hlen' : ms.length = u.cases.length := by rw [hms.length, hlen, Nat.min_self]
  obtain ⟨hsub, htag⟩ := map_casePlans hlen hlen'
  have hmaps : ∀ (i : Nat) (cp : CasePlan), (u.casePlans tags ms)[i]? = some cp →
      l.Maps i cp.subject cp.tag cp.mapping := by
    intro i cp hcp
    obtain ⟨hc, ht, hm⟩ := casePlans_at hcp
    have hmap := hms.maps i _ _ _ hc ht hm
    rwa [Nat.zero_add] at hmap
  refine ⟨hsub, hl, htags.trans (congrArg _ htag.symm), ?_, ?_, fun i cp hcp =>
    (hmaps i cp hcp).result⟩
  · refine List.map_congr_left fun cp hcp => ?_
    obtain ⟨i, hi⟩ := List.getElem?_of_mem hcp
    exact (hmaps i cp hi).constructionTag
  · refine List.map_congr_left fun cp hcp => ?_
    obtain ⟨i, hi⟩ := List.getElem?_of_mem hcp
    exact (hmaps i cp hi).readTag

/-- The parts that a union is planned with. -/
structure PlannedWith (u : Union) (l : Layout) (tags : List UInt32) (ms : List CaseMapping) :
    Prop where
  selected : Layout.select u = .ok l
  assigned : assignTags u.cases = .ok tags
  length : tags.length = u.cases.length
  mapped : l.MapsAll 0 u.cases tags ms
  planned : u.plan = .ok (u.planOf l tags ms)

theorem exists_plannedWith (h : ¬u.Contradictory) {plain : Layout}
    (ha : Layout.allocate u false = .ok plain) (ht : ¬OutOfTags u.cases) :
    ∃ l tags ms, u.PlannedWith l tags ms := by
  obtain ⟨l, hsel, hl⟩ := Layout.select_of_ok ha
  obtain ⟨tags, htags, hall⟩ := assignTags_of_enough ht
  obtain ⟨-, hb⟩ := Layout.built_of_allocate hl
  obtain ⟨ms, hms⟩ := hb.exists_mapsAll (Layout.suits_of_allocate hl) tags
  have hverify := hms.verify_of_nodup (hall.nodup (not_contradictory_iff.mp h).2)
  have hmap : Layout.mapCases u l tags = .ok ms := hms.result
  refine ⟨l, tags, ms, hsel, htags, hall.length, hms, ?_⟩
  rw [plan_of_consistent h, planValid, hsel, htags]
  simp only [bind, Except.bind, hmap, hverify]
  rfl

theorem PlannedWith.follows {l : Layout} {tags : List UInt32} {ms : List CaseMapping}
    (h : u.PlannedWith l tags ms) : (u.planOf l tags ms).Follows u := by
  have hl := h.selected
  rw [Layout.select_eq] at hl
  exact follows_planOf h.mapped (Layout.built_of_allocate hl).2.length_cases h.assigned h.length

theorem plan_of_enough (h : ¬u.Contradictory) {plain : Layout}
    (ha : Layout.allocate u false = .ok plain) (ht : ¬OutOfTags u.cases) :
    ∃ p, u.plan = .ok p ∧ p.Follows u := by
  obtain ⟨l, tags, ms, hp⟩ := exists_plannedWith h ha ht
  exact ⟨_, hp.planned, hp.follows⟩

/-- A union can be planned if its declaration does not contradict itself, what is taken apart has
members, and it does not have more cases than there are tags. -/
theorem exists_plan (hc : Consistent u.cases)
    (hsolid : ∀ c ∈ u.cases, c.hollow? (Layout.classes u false) = none)
    (hlen : u.cases.length ≤ 0xFFFFFFFF) : ∃ p, u.plan = .ok p := by
  obtain ⟨plain, ha, -⟩ := Layout.allocate_of_solid hsolid
  obtain ⟨p, hp, -⟩ := plan_of_enough (not_contradictory_iff.mpr hc) ha (not_outOfTags hlen)
  exact ⟨p, hp⟩

/-- **What a union that can be planned is like.** -/
theorem plannable_of_plan {p : Plan} (h : u.plan = .ok p) :
    ¬u.Contradictory ∧ (∃ plain, Layout.allocate u false = .ok plain) ∧ ¬OutOfTags u.cases := by
  by_cases hc : u.Contradictory
  · rw [plan_of_contradictory hc] at h
    exact absurd h (by simp)
  · cases ha : Layout.allocate u false with
    | error e =>
      rw [plan_of_unfit hc ha] at h
      exact absurd h (by simp)
    | ok plain =>
      refine ⟨hc, ⟨plain, rfl⟩, fun ht => ?_⟩
      obtain ⟨c, -, -, hp⟩ := plan_of_exhausted hc ha ht
      rw [hp] at h
      exact absurd h (by simp)

/-- **What stops the planning of a union**: its declaration contradicts itself, or a case has a
value that is to be taken apart but has no members, or there is no tag left for a case. -/
theorem plan_error_cases {e : PlanError} (h : u.plan = .error e) :
    (u.Contradictory ∧ e = .invalidDescriptor u.name (u.validate.filter (·.isError))) ∨
      (∃ c ∈ u.cases, ∃ path shape, e = .invalidShape c.name path shape .noMembers) ∨
      ∃ c ∈ u.cases, e = .tagsExhausted c.name := by
  by_cases hc : u.Contradictory
  · rw [plan_of_contradictory hc, Except.error.injEq] at h
    exact Or.inl ⟨hc, h.symm⟩
  · cases ha : Layout.allocate u false with
    | error e' =>
      rw [plan_of_unfit hc ha, Except.error.injEq] at h
      exact Or.inr (Or.inl (h ▸ Layout.allocate_error ha))
    | ok plain =>
      by_cases ht : OutOfTags u.cases
      · obtain ⟨c, hmem, -, hp⟩ := plan_of_exhausted hc ha ht
        rw [hp, Except.error.injEq] at h
        exact Or.inr (Or.inr ⟨c, hmem, h.symm⟩)
      · obtain ⟨p, hp, -⟩ := plan_of_enough hc ha ht
        rw [hp] at h
        exact absurd h (by simp)

/-- **A plan has its parts.** -/
theorem exists_plannedWith_of_plan {p : Plan} (h : u.plan = .ok p) :
    ∃ l tags ms, u.PlannedWith l tags ms ∧ p = u.planOf l tags ms := by
  obtain ⟨hc, ⟨plain, ha⟩, ht⟩ := plannable_of_plan h
  obtain ⟨l, tags, ms, hp⟩ := exists_plannedWith hc ha ht
  exact ⟨l, tags, ms, hp, Except.ok.inj (h.symm.trans hp.planned)⟩

/-! ## All together -/

/-- **Every union has one of four outcomes**, and it can be told in advance which. -/
theorem plan_outcome (u : Union) : u.Outcome := by
  -- in each of the four cases the plan is known, and with it every one of the equivalences
  by_cases hc : u.Contradictory
  · have hp := plan_of_contradictory hc
    constructor <;> simp [hp, hc]
  · cases ha : Layout.allocate u false with
    | error e =>
      have hp := plan_of_unfit hc ha
      obtain ⟨c, -, path, shape, rfl⟩ := Layout.allocate_error ha
      constructor <;> simp [hp, hc, ha]
    | ok plain =>
      by_cases ht : OutOfTags u.cases
      · obtain ⟨c, -, -, hp⟩ := plan_of_exhausted hc ha ht
        constructor <;> simp [hp, hc, ha, ht]
      · obtain ⟨p, hp, hfollows⟩ := plan_of_enough hc ha ht
        constructor <;> simp [hp, hc, ha, ht, hfollows]

end Union

end SumLayout
