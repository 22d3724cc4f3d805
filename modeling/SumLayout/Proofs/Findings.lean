import Mathlib.Data.Finset.Dedup
import SumLayout.Outcome
import SumLayout.Proofs.PlanOutcome

/-!
# Every conflict is reported once

What validation finds is laid out case by case: for each case first the finding on its name, if a
case before it has the name, and then the finding on its tag, if a case before it declares the tag,
and both are made from the **first** such case (`ReportedAt`). So there is a finding for every case
but the first of each name, and for every declared tag but the first of each number
(`countP_findingsFrom`).

A report on a union is put together from two runs of validation, one kept for its warnings and one
for its errors. Nothing is lost or doubled by that: the report is what validation finds and after it
at most one failure, that of a planning that got past validation (`diagnostics_outcome`).
-/

namespace SumLayout

namespace Union

variable {u : Union} {earlier cs : List Case} {c : Case} {i : Nat}

/-! ## The first case with a property -/

/-- The case at position `first` is the first one before position `i` with a property. -/
structure FirstBefore (u : Union) (i : Nat) (p : Case → Bool) (first : Nat) (d : Case) : Prop where
  before : first < i
  found : u.cases[first]? = some d
  holds : p d = true
  least : ∀ (j : Nat) (e : Case), j < first → u.cases[j]? = some e → p e = false

/-- The findings on the case at position `i` for a property of cases: one, made from the first case
before it with the property, if there is such a case at all. -/
inductive ReportsFirst (u : Union) (i : Nat) (p : Case → Bool) (finding : Nat → Case → Diagnostic) :
    List Diagnostic → Prop
  | conflict {first : Nat} {d : Case} (h : u.FirstBefore i p first d) :
    ReportsFirst u i p finding [finding first d]
  | clear (h : ∀ (j : Nat) (d : Case), j < i → u.cases[j]? = some d → p d = false) :
    ReportsFirst u i p finding []

/-- The findings on the name and on the declared tag of the case at position `i`. -/
structure ReportedAt (u : Union) (i : Nat) (c : Case) (byName byTag : List Diagnostic) : Prop where
  name : u.ReportsFirst i (·.name == c.name) (fun first _ => u.duplicateNameFinding c first) byName
  tag : ∀ t, c.tag = some t →
    u.ReportsFirst i (·.tag == some t) (fun _ d => u.duplicateTagFinding c t d.name) byTag
  tagless : c.tag = none → byTag = []

/-- A search among the cases before position `i` that ends at a case ends at the first one. -/
theorem firstBefore_of_getElem {p : Case → Bool} {first : Nat}
    (hlt : first < (u.cases.take i).length) (hp : p (u.cases.take i)[first] = true)
    (hleast : ∀ j (hj : j < (u.cases.take i).length), j < first →
      p (u.cases.take i)[j] = false) :
    u.FirstBefore i p first (u.cases.take i)[first] := by
  have hlen := List.length_take_le i u.cases
  refine ⟨Nat.lt_of_lt_of_le hlt hlen, ?_, hp, ?_⟩
  · rw [List.getElem_take]
    exact List.getElem?_eq_getElem _
  · intro j e hj he
    have hji := Nat.lt_trans hj (Nat.lt_of_lt_of_le hlt hlen)
    obtain ⟨hjlt, rfl⟩ := List.getElem?_eq_some_iff.mp ((List.getElem?_take_of_lt hji).trans he)
    exact hleast j hjlt hj

theorem clear_of_forall {p : Case → Bool} (h : ∀ d ∈ u.cases.take i, p d = false) (j : Nat)
    (d : Case) (hj : j < i) (hd : u.cases[j]? = some d) : p d = false :=
  h d (List.mem_of_getElem? ((List.getElem?_take_of_lt hj).trans hd))

/-- **What a search finds on a case is what is to be reported on it.** -/
theorem reportedAt_take (u : Union) (i : Nat) (c : Case) :
    u.ReportedAt i c (u.nameFinding (u.cases.take i) c).toList
      (u.tagFinding (u.cases.take i) c).toList := by
  constructor
  case name =>
    unfold nameFinding
    cases hf : (u.cases.take i).findIdx? (·.name == c.name) with
    | none => exact .clear (clear_of_forall (List.findIdx?_eq_none_iff.mp hf))
    | some first =>
      obtain ⟨hlt, hp, hleast⟩ := List.findIdx?_eq_some_iff_getElem.mp hf
      exact .conflict (firstBefore_of_getElem hlt hp fun j _ hj => by simpa using hleast j hj)
  case tag =>
    intro t ht
    unfold tagFinding
    rw [ht, Option.bind_some]
    cases hf : (u.cases.take i).find? (·.tag == some t) with
    | none =>
      refine .clear (clear_of_forall fun d hd => ?_)
      simpa using List.find?_eq_none.mp hf d hd
    | some d =>
      obtain ⟨hp, first, hlt, rfl, hleast⟩ := List.find?_eq_some_iff_getElem.mp hf
      exact .conflict (firstBefore_of_getElem hlt hp fun j _ hj => by simpa using hleast j hj)
  case tagless =>
    intro ht
    rw [tagFinding, ht]
    rfl

/-! ## The walk -/

/-- **The findings are laid out case by case.** -/
theorem findingsFrom_eq_flatten (cs : List Case) : ∀ earlier : List Case,
    u.findingsFrom earlier cs =
      (cs.mapIdx fun i c => u.caseFindings (earlier ++ cs.take i) c).flatten := by
  induction cs with
  | nil => exact fun _ => rfl
  | cons c cs ih =>
    intro earlier
    rw [findingsFrom, ih, List.mapIdx_cons, List.flatten_cons, List.take_zero, List.append_nil]
    congr 3
    funext i d
    rw [List.take_succ_cons, List.append_assoc, List.singleton_append]

/-! ## How many findings there are -/

theorem code_of_nameFinding {d : Diagnostic} (h : d ∈ (u.nameFinding earlier c).toList) :
    d.code = .duplicateName := by
  obtain ⟨_, -, rfl⟩ := Option.map_eq_some_iff.mp (Option.mem_toList.mp h)
  rfl

theorem code_of_tagFinding {d : Diagnostic} (h : d ∈ (u.tagFinding earlier c).toList) :
    d.code = .duplicateTag := by
  obtain ⟨_, -, ht⟩ := Option.bind_eq_some_iff.mp (Option.mem_toList.mp h)
  obtain ⟨_, -, rfl⟩ := Option.map_eq_some_iff.mp ht
  rfl

theorem countP_caseFindings_duplicateName :
    (u.caseFindings earlier c).countP (·.code == .duplicateName) =
      (u.nameFinding earlier c).toList.length := by
  rw [caseFindings, List.countP_append, List.countP_eq_length.mpr fun d hd => by
    simp [code_of_nameFinding hd], List.countP_eq_zero.mpr fun d hd => by
    simp [code_of_tagFinding hd], Nat.add_zero]

theorem countP_caseFindings_duplicateTag :
    (u.caseFindings earlier c).countP (·.code == .duplicateTag) =
      (u.tagFinding earlier c).toList.length := by
  rw [caseFindings, List.countP_append, List.countP_eq_zero.mpr fun d hd => by
    simp [code_of_nameFinding hd], List.countP_eq_length.mpr fun d hd => by
    simp [code_of_tagFinding hd], Nat.zero_add]

theorem card_toFinset_concat {κ : Type} [DecidableEq κ] (keys : List κ) (k : κ) :
    (keys ++ [k]).toFinset.card = keys.toFinset.card + if k ∈ keys then 0 else 1 := by
  have hset : (keys ++ [k]).toFinset = insert k keys.toFinset := by
    ext a
    simp
  rw [hset, Finset.card_insert_eq_ite]
  by_cases hk : k ∈ keys <;> simp [hk]

/-- A case has a finding or a new key, if it has a key at all. -/
theorem length_add_card_concat {κ : Type} [DecidableEq κ] {key : Case → Option κ}
    {finding : Option Diagnostic}
    (h : finding = none ↔ ∀ k ∈ key c, k ∉ earlier.filterMap key) :
    finding.toList.length + ((earlier ++ [c]).filterMap key).toFinset.card =
      ([c].filterMap key).length + (earlier.filterMap key).toFinset.card := by
  rw [List.filterMap_append]
  cases hk : key c with
  | none =>
    rw [h.mpr (by simp [hk]), List.filterMap_cons_none hk, List.filterMap_nil, List.append_nil]
    rfl
  | some k =>
    simp only [hk, Option.mem_some_iff, forall_eq'] at h
    rw [List.filterMap_cons_some hk, List.filterMap_nil, card_toFinset_concat]
    by_cases hmem : k ∈ earlier.filterMap key
    · obtain ⟨d, rfl⟩ := Option.ne_none_iff_exists'.mp fun hn => h.mp hn hmem
      rw [if_pos hmem, Option.toList_some, Nat.add_zero]
      rfl
    · rw [h.mpr hmem, if_neg hmem, Option.toList_none, List.length_nil, List.length_singleton]
      omega

/-- **There are as many findings of a kind as there are keys that are not the first of theirs.** -/
theorem countP_findingsFrom {κ : Type} [DecidableEq κ] {code : Code} (key : Case → Option κ)
    {finding : List Case → Case → Option Diagnostic}
    (hcount : ∀ earlier c, (u.caseFindings earlier c).countP (·.code == code) =
      (finding earlier c).toList.length)
    (hnone : ∀ earlier c, finding earlier c = none ↔ ∀ k ∈ key c, k ∉ earlier.filterMap key)
    (cs : List Case) : ∀ earlier : List Case,
    (u.findingsFrom earlier cs).countP (·.code == code) +
      ((earlier ++ cs).filterMap key).toFinset.card =
        (cs.filterMap key).length + (earlier.filterMap key).toFinset.card := by
  induction cs with
  | nil =>
    intro earlier
    rw [List.append_nil]
    rfl
  | cons c cs ih =>
    intro earlier
    have hc := length_add_card_concat (hnone earlier c)
    have hcs := ih (earlier ++ [c])
    rw [List.append_assoc, List.singleton_append] at hcs
    have hlen : ((c :: cs).filterMap key).length =
        ([c].filterMap key).length + (cs.filterMap key).length := by
      rw [← List.length_append, ← List.filterMap_append, List.singleton_append]
    rw [findingsFrom, List.countP_append, hcount, hlen]
    omega

theorem countP_validate (code : Code) (hcode : code ≠ .noCases) :
    u.validate.countP (·.code == code) = (u.findingsFrom [] u.cases).countP (·.code == code) := by
  rw [validate_eq, List.countP_append, Nat.add_eq_right]
  split
  · exact List.countP_eq_zero.mpr fun d hd => by
      rw [List.mem_singleton.mp hd]
      simpa [noCasesFinding] using hcode.symm
  · rfl

theorem countP_duplicateName (u : Union) : u.validate.countP (·.code == .duplicateName) +
    (u.cases.map Case.name).toFinset.card = u.cases.length := by
  have hmap : ∀ cs : List Case, cs.filterMap (some ∘ Case.name) = cs.map Case.name :=
    fun cs => by rw [List.filterMap_eq_map]
  have hnone : ∀ earlier c, u.nameFinding earlier c = none ↔
      ∀ k ∈ (some ∘ Case.name) c, k ∉ earlier.filterMap (some ∘ Case.name) := by
    intro earlier c
    rw [nameFinding_eq_none_iff, hmap]
    simp
  have hrun := countP_findingsFrom (some ∘ Case.name)
    (fun _ _ => countP_caseFindings_duplicateName) hnone u.cases []
  rw [countP_validate _ (by decide)]
  simpa [hmap] using hrun

theorem countP_duplicateTag (u : Union) : u.validate.countP (·.code == .duplicateTag) +
    (u.cases.filterMap Case.tag).toFinset.card = (u.cases.filterMap Case.tag).length := by
  have hrun := countP_findingsFrom (u := u) Case.tag
    (fun _ _ => countP_caseFindings_duplicateTag) (fun _ _ => tagFinding_eq_none_iff) u.cases []
  rw [countP_validate _ (by decide)]
  simpa using hrun

/-! ## The report on a union -/

/-- Planning gets past validation and then fails. -/
def FailsLater (u : Union) (e : PlanError) : Prop :=
  (∀ d ∈ u.validate, d.isError = false) ∧ u.planValid = .error e

/-- What is reported on a union after what validation finds: the failure, if planning fails after
validation. -/
inductive ReportsLater (u : Union) : List Diagnostic → Prop
  | failure {e : PlanError} (h : u.FailsLater e) :
    ReportsLater u [{ code := e.code, severity := .error, message := e.message,
                      unionName := some u.name, caseName := some e.caseName }]
  | nothing (h : ∀ e, ¬u.FailsLater e) : ReportsLater u []

/-- There are only errors among the findings on a declaration that contradicts itself. -/
theorem filter_validate_of_contradictory (h : u.Contradictory) :
    u.validate.filter (·.isError) = u.validate := by
  have hcases : u.cases.isEmpty = false := by
    cases hc : u.cases with
    | nil => exact absurd (hc ▸ consistent_nil) (fun hn => not_contradictory_iff.mpr hn h)
    | cons _ _ => rfl
  rw [validate_eq, hcases]
  exact filter_findingsFrom _ _

theorem forall_isError_iff : (∀ d ∈ u.validate, d.isError = false) ↔ ¬u.Contradictory := by
  rw [← errors_eq_nil_iff, List.filter_eq_nil_iff]
  simp

theorem diagnostics_of_ok {p : Plan} (h : u.plan = .ok p) :
    u.outcome.diagnostics = u.validate.filter fun d => !d.isError := by
  have hresult : u.outcome.result = .ok p := h
  rw [SumLayout.Outcome.diagnostics, hresult]
  rfl

theorem diagnostics_of_error {e : PlanError} (h : u.plan = .error e) :
    u.outcome.diagnostics = (u.validate.filter fun d => !d.isError) ++ e.diagnostics u.name := by
  have hresult : u.outcome.result = .error e := h
  rw [SumLayout.Outcome.diagnostics, hresult]
  rfl

/-- **The report on a union is what validation finds and after it at most one failure.** -/
theorem diagnostics_outcome (u : Union) :
    ∃ later, u.outcome.diagnostics = u.validate ++ later ∧ u.ReportsLater later := by
  by_cases hc : u.Contradictory
  · -- all findings are errors, and they are the failure
    refine ⟨[], ?_, .nothing fun e he => forall_isError_iff.mp he.1 hc⟩
    have hall := filter_validate_of_contradictory hc
    have hnone : (u.validate.filter fun d => !d.isError) = [] := by
      rw [← hall, List.filter_filter, List.filter_eq_nil_iff]
      simp
    rw [diagnostics_of_error (plan_of_contradictory hc), hnone, hall, List.append_nil]
    rfl
  · -- no finding is an error, and the failure comes later
    have hvalid := forall_isError_iff.mpr hc
    have hall : (u.validate.filter fun d => !d.isError) = u.validate := by
      rw [List.filter_eq_self]
      intro d hd
      rw [hvalid d hd]
      rfl
    cases hp : u.plan with
    | ok p =>
      rw [diagnostics_of_ok hp, hall]
      refine ⟨[], (List.append_nil _).symm, .nothing fun e he => ?_⟩
      rw [plan_of_consistent hc, he.2] at hp
      exact absurd hp (by simp)
    | error e =>
      have hlater : u.FailsLater e := ⟨hvalid, (plan_of_consistent hc).symm.trans hp⟩
      rw [diagnostics_of_error hp, hall]
      refine ⟨_, ?_, .failure hlater⟩
      rcases plan_error_cases hp with ⟨hc', -⟩ | ⟨c, -, path, shape, rfl⟩ | ⟨c, -, rfl⟩
      · exact absurd hc' hc
      · rfl
      · rfl

/-! ## All of it -/

theorem noCasesFinding_mem_iff : u.noCasesFinding ∈ u.validate ↔ u.cases = [] := by
  rw [validate_eq, List.mem_append]
  constructor
  · rintro (h | h)
    · by_contra hne
      rw [if_neg (by simpa using hne)] at h
      exact absurd h (by simp)
    · -- a finding on a case is an error, and this one is a warning
      have herr := List.filter_eq_self.mp (filter_findingsFrom u.cases []) _ h
      exact absurd herr Bool.false_ne_true
  · intro h
    exact Or.inl (by simp [h])

/-- Some findings on a declaration: that it has no cases, if so, and then those on the name and on
the tag of each case in order. -/
structure Walked (u : Union) (ds : List Diagnostic)
    (byCase : List (List Diagnostic × List Diagnostic)) : Prop where
  all : ds = (if u.cases = [] then [u.noCasesFinding] else []) ++
    byCase.flatMap fun p => p.1 ++ p.2
  length : byCase.length = u.cases.length
  reported : ∀ (i : Nat) (c : Case) (p : List Diagnostic × List Diagnostic),
    u.cases[i]? = some c → byCase[i]? = some p → u.ReportedAt i c p.1 p.2

theorem exists_walked (u : Union) : ∃ byCase, u.Walked u.validate byCase := by
  refine ⟨u.cases.mapIdx fun i c => ((u.nameFinding (u.cases.take i) c).toList,
    (u.tagFinding (u.cases.take i) c).toList), ?_, List.length_mapIdx, ?_⟩
  · rw [validate_eq, findingsFrom_eq_flatten, List.flatMap_def]
    simp only [List.isEmpty_iff, List.nil_append, List.mapIdx_eq_zipIdx_map, List.map_map]
    rfl
  · intro i c p hc hp
    rw [List.getElem?_mapIdx, hc, Option.map_some, Option.some.injEq] at hp
    rw [← hp]
    exact reportedAt_take u i c

/-- What is reported on a declaration. -/
structure Reported (u : Union) : Prop where
  noCases : u.noCasesFinding ∈ u.validate ↔ u.cases = []
  walked : ∃ byCase, u.Walked u.validate byCase
  /-- There is a finding on a name for every case but the first of each name. -/
  names : u.validate.countP (·.code == .duplicateName) +
    (u.cases.map Case.name).toFinset.card = u.cases.length
  /-- There is a finding on a tag for every declared tag but the first of each number. -/
  tags : u.validate.countP (·.code == .duplicateTag) +
    (u.cases.filterMap Case.tag).toFinset.card = (u.cases.filterMap Case.tag).length
  /-- Wherever the union is in a batch, its findings are reported and at most one failure. -/
  report : ∃ later, u.ReportsLater later ∧ ∀ (us : List Union) (i : Nat), us[i]? = some u →
    ∃ o, (planAll us)[i]? = some o ∧ o.diagnostics = u.validate ++ later

/-- **Every conflict of a declaration is reported exactly once**, at the later case and with the
first case that it conflicts with, and a report on the union has these findings and the failure of
its planning, if that comes later. -/
theorem validate_reported (u : Union) : u.Reported := by
  obtain ⟨later, hreport, hlater⟩ := diagnostics_outcome u
  refine ⟨noCasesFinding_mem_iff, exists_walked u, countP_duplicateName u, countP_duplicateTag u,
    later, hlater, ?_⟩
  intro us i hu
  refine ⟨u.outcome, ?_, hreport⟩
  rw [planAll, List.getElem?_map, hu]
  rfl

/-- The first owner stays, however often a name or a tag comes. -/
example : let cases : List Case :=
      [{ name := "A" }, { name := "A", tag := some 1 }, { name := "A", tag := some 1 }]
    (Union.validate { kind := .tags, name := "U", typeName := "U", cases }).map (·.notes) =
      [["first declared as case #1"], ["first declared as case #1"], ["first used by case `A`"]] := by
  decide +kernel

end Union

end SumLayout
