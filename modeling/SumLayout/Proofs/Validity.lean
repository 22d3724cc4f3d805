import Mathlib.Data.List.Nodup
import SumLayout.Validation

/-!
# What a contradictory declaration is

A declaration contradicts itself if two cases share a name or two cases declare one tag. The walk
over the cases keeps first owners, and these are what a search among the cases before finds
(`Owners.Of`); so the findings can be told from the declaration, case by case (`validate_eq`). From
there on the induction keeps that the cases before do not contradict each other. **There is an error
among the findings exactly if the declaration contradicts itself** (`errors_eq_nil_iff`).
-/

namespace SumLayout

variable {u : Union} {earlier cs : List Case} {c : Case} {o : Owners}

/-! ## First owners -/

theorem lookup_claimKey {κ ω : Type} [BEq κ] [LawfulBEq κ] (owners : List (κ × ω)) (key k : κ)
    (owner : ω) : (claimKey owners key owner).lookup k =
      (owners.lookup k).or (if k == key then some owner else none) := by
  unfold claimKey
  by_cases hk : k == key
  · obtain rfl := eq_of_beq hk
    cases h : owners.lookup k with
    | some first => simp [h]
    | none => simp
  · rw [if_neg hk, Option.or_none]
    split
    · rfl
    · rw [List.lookup_cons, Bool.eq_false_iff.mpr hk]

/-- What is kept for each name and each declared tag is what a search among the cases finds. -/
structure Owners.Of (o : Owners) (earlier : List Case) : Prop where
  names : ∀ name, o.names.lookup name = earlier.findIdx? (·.name == name)
  tags : ∀ t, o.tags.lookup t = (earlier.find? (·.tag == some t)).map Case.name

theorem Owners.of_nil : Owners.Of {} [] := ⟨fun _ => rfl, fun _ => rfl⟩

/-- **Meeting a case does not change the owners that there are.** -/
theorem Owners.Of.meet (h : o.Of earlier) (c : Case) :
    (o.meet earlier.length c).Of (earlier ++ [c]) := by
  constructor
  · intro name
    show (claimKey o.names c.name earlier.length).lookup name = _
    rw [lookup_claimKey, h.names, List.findIdx?_append]
    by_cases hn : name = c.name
    · simp [hn]
    · simp [hn, Ne.symm hn]
  · intro t
    rw [List.find?_append, Option.map_or, ← h.tags, Owners.meet]
    cases hc : c.tag with
    | none => simp [hc]
    | some t' =>
      show (claimKey o.tags t' c.name).lookup t = _
      rw [lookup_claimKey]
      by_cases ht : t = t'
      · simp [hc, ht]
      · simp [hc, ht, Ne.symm ht]

namespace Union

/-! ## The findings, told from the declaration -/

/-- The finding on the name of a case, given the cases before it. -/
def nameFinding (u : Union) (earlier : List Case) (c : Case) : Option Diagnostic :=
  (earlier.findIdx? (·.name == c.name)).map (u.duplicateNameFinding c)

/-- The finding on the declared tag of a case, given the cases before it. -/
def tagFinding (u : Union) (earlier : List Case) (c : Case) : Option Diagnostic :=
  c.tag.bind fun t => (earlier.find? (·.tag == some t)).map fun d =>
    u.duplicateTagFinding c t d.name

/-- The findings on a case, given the cases before it. -/
def caseFindings (u : Union) (earlier : List Case) (c : Case) : List Diagnostic :=
  (u.nameFinding earlier c).toList ++ (u.tagFinding earlier c).toList

/-- The findings on some cases, given the cases before them. -/
def findingsFrom (u : Union) (earlier : List Case) : List Case → List Diagnostic
  | [] => []
  | c :: cs => u.caseFindings earlier c ++ findingsFrom u (earlier ++ [c]) cs

theorem conflicts_eq (h : o.Of earlier) (c : Case) : u.conflicts o c = u.caseFindings earlier c := by
  rw [conflicts, caseFindings, nameFinding, tagFinding, h.names]
  simp only [h.tags, Option.map_map]
  rfl

theorem conflictsFrom_eq (cs : List Case) : ∀ {o : Owners} {earlier : List Case}, o.Of earlier →
    u.conflictsFrom o earlier.length cs = u.findingsFrom earlier cs := by
  induction cs with
  | nil => exact fun _ => rfl
  | cons c cs ih =>
    intro o earlier h
    have hrest := ih (h.meet c)
    rw [List.length_append, List.length_singleton] at hrest
    rw [conflictsFrom, findingsFrom, conflicts_eq h, hrest]

/-- **The walk finds what a search among the cases before each case finds.** -/
theorem validate_eq (u : Union) : u.validate =
    (if u.cases.isEmpty then [u.noCasesFinding] else []) ++ u.findingsFrom [] u.cases := by
  rw [validate, ← conflictsFrom_eq u.cases Owners.of_nil]
  rfl

/-! ## Contradictions -/

/-- Two cases share a name, or two cases declare the same tag. -/
def Contradictory (u : Union) : Prop :=
  ¬(u.cases.map Case.name).Nodup ∨ ¬(u.cases.filterMap Case.tag).Nodup

/-- Neither a name nor a declared tag comes twice. -/
def Consistent (cs : List Case) : Prop :=
  (cs.map Case.name).Nodup ∧ (cs.filterMap Case.tag).Nodup

theorem consistent_nil : Consistent [] := ⟨List.nodup_nil, List.nodup_nil⟩

theorem not_contradictory_iff : ¬u.Contradictory ↔ Consistent u.cases := by
  rw [Contradictory, not_or, not_not, not_not, Consistent]

/-! ## Findings on one case -/

theorem nameFinding_eq_none_iff :
    u.nameFinding earlier c = none ↔ c.name ∉ earlier.map Case.name := by
  rw [nameFinding, Option.map_eq_none_iff, List.findIdx?_eq_none_iff, List.mem_map]
  simp

theorem tagFinding_eq_none_iff :
    u.tagFinding earlier c = none ↔ ∀ t ∈ c.tag, t ∉ earlier.filterMap Case.tag := by
  rw [tagFinding]
  cases c.tag with
  | none => simp
  | some t => simp

theorem caseFindings_eq_nil_iff : u.caseFindings earlier c = [] ↔
    c.name ∉ earlier.map Case.name ∧ ∀ t ∈ c.tag, t ∉ earlier.filterMap Case.tag := by
  rw [caseFindings, List.append_eq_nil_iff, Option.toList_eq_nil_iff, Option.toList_eq_nil_iff,
    nameFinding_eq_none_iff, tagFinding_eq_none_iff]

/-- There is nothing to find on a case that does not contradict the cases before it. -/
theorem caseFindings_of_consistent (u : Union) (cs : List Case)
    (hall : Consistent (earlier ++ c :: cs)) : u.caseFindings earlier c = [] := by
  rw [caseFindings_eq_nil_iff]
  obtain ⟨hname, htag⟩ := hall
  constructor
  · intro hmem
    rw [List.map_append, List.map_cons] at hname
    exact (List.nodup_append.mp hname).2.2 _ hmem _ List.mem_cons_self rfl
  · intro t ht hmem
    rw [List.filterMap_append, List.filterMap_cons, Option.mem_def.mp ht] at htag
    exact (List.nodup_append.mp htag).2.2 _ hmem _ List.mem_cons_self rfl

/-- A case that nothing is found on does not contradict the cases before it. -/
theorem Consistent.concat (h : Consistent earlier) (hc : u.caseFindings earlier c = []) :
    Consistent (earlier ++ [c]) := by
  obtain ⟨hname, htag⟩ := caseFindings_eq_nil_iff.mp hc
  constructor
  · rw [List.map_append, List.map_singleton]
    exact List.nodup_append.mpr ⟨h.1, List.nodup_singleton _, fun a ha b hb => by
      rw [List.mem_singleton.mp hb]
      exact fun he => hname (he ▸ ha)⟩
  · rw [List.filterMap_append]
    cases hct : c.tag with
    | none => simpa [hct] using h.2
    | some t =>
      rw [List.filterMap_cons, hct, List.filterMap_nil]
      exact List.nodup_append.mpr ⟨h.2, List.nodup_singleton _, fun a ha b hb => by
        rw [List.mem_singleton.mp hb]
        exact fun he => htag t hct (he ▸ ha)⟩

/-! ## Findings on all cases -/

theorem findingsFrom_eq_nil_iff (cs : List Case) : ∀ {earlier : List Case}, Consistent earlier →
    (u.findingsFrom earlier cs = [] ↔ Consistent (earlier ++ cs)) := by
  induction cs with
  | nil =>
    intro earlier h
    rw [List.append_nil]
    exact iff_of_true rfl h
  | cons c cs ih =>
    intro earlier h
    rw [findingsFrom, List.append_eq_nil_iff]
    constructor
    · rintro ⟨hc, hcs⟩
      have hall := (ih (h.concat hc)).mp hcs
      rwa [List.append_assoc] at hall
    · intro hall
      have hc := caseFindings_of_consistent u cs hall
      refine ⟨hc, (ih (h.concat hc)).mpr ?_⟩
      rwa [List.append_assoc]

theorem isError_of_mem_caseFindings {d : Diagnostic} (h : d ∈ u.caseFindings earlier c) :
    d.isError = true := by
  rw [caseFindings, List.mem_append, Option.mem_toList, Option.mem_toList] at h
  rcases h with h | h
  · obtain ⟨i, -, rfl⟩ := Option.map_eq_some_iff.mp h
    rfl
  · obtain ⟨t, -, ht⟩ := Option.bind_eq_some_iff.mp h
    obtain ⟨owner, -, rfl⟩ := Option.map_eq_some_iff.mp ht
    rfl

theorem filter_findingsFrom (cs : List Case) : ∀ earlier : List Case,
    (u.findingsFrom earlier cs).filter (·.isError) = u.findingsFrom earlier cs := by
  induction cs with
  | nil => exact fun _ => rfl
  | cons c cs ih =>
    intro earlier
    rw [findingsFrom, List.filter_append, ih,
      List.filter_eq_self.mpr fun d hd => isError_of_mem_caseFindings hd]

/-- **There is an error exactly if the declaration contradicts itself.** -/
theorem errors_eq_nil_iff : u.validate.filter (·.isError) = [] ↔ ¬u.Contradictory := by
  have hwarn : (if u.cases.isEmpty then [u.noCasesFinding] else []).filter
      (·.isError) = [] := by
    split <;> rfl
  rw [not_contradictory_iff, validate_eq, List.filter_append, hwarn, List.nil_append,
    filter_findingsFrom, findingsFrom_eq_nil_iff u.cases consistent_nil,
    List.nil_append]

end Union

end SumLayout
