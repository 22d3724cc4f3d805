import SumLayout.CommandLine
import SumLayout.Proofs.WithoutOverlap

/-!
# What is reported on unions

The report on a union is its warnings and then whatever stopped its planning. Warnings are no
errors, and whatever stops the planning of a union is reported as at least one error, so **there is
an error in the report exactly if planning failed** (`Union.succeeded_outcome_iff`).

Laying a union out without overlap neither prevents a failure nor causes one, and does not change
what is reported (`Union.outcome_withoutOverlap`). So `check`, which takes unions as they are
declared, reports what `plan` reports under any options, and **the exit code of either is zero
exactly if no error is reported** (`planUnions_errors_eq`).
-/

namespace SumLayout

namespace Union

variable {u : Union} {e : PlanError}

theorem isError_of_mem_warnings {d : Diagnostic} (h : d ∈ u.outcome.warnings) :
    d.isError = false := by
  simpa using (List.mem_filter.mp h).2

/-- **What stops the planning of a union is reported as an error.** -/
theorem exists_error_of_plan (h : u.plan = .error e) (name : String) :
    ∃ d ∈ e.diagnostics name, d.isError = true := by
  rcases plan_error_cases h with ⟨hc, rfl⟩ | ⟨c, -, path, shape, rfl⟩ | ⟨c, -, rfl⟩
  · -- the declaration is rejected for the errors that were found, and there are some
    obtain ⟨d, hd⟩ := List.exists_mem_of_ne_nil _ fun hnil => errors_eq_nil_iff.mp hnil hc
    exact ⟨d, hd, (List.mem_filter.mp hd).2⟩
  · exact ⟨_, List.mem_singleton.mpr rfl, rfl⟩
  · exact ⟨_, List.mem_singleton.mpr rfl, rfl⟩

/-- **Planning succeeds exactly if no error is reported.** -/
theorem succeeded_outcome_iff :
    u.outcome.succeeded = true ↔ ∀ d ∈ u.outcome.diagnostics, d.isError = false := by
  rw [SumLayout.Outcome.succeeded, SumLayout.Outcome.diagnostics]
  have hresult : u.outcome.result = u.plan := rfl
  rw [hresult]
  cases hp : u.plan with
  | ok p => exact iff_of_true rfl fun d hd => isError_of_mem_warnings hd
  | error e =>
    obtain ⟨d, hd, herr⟩ := exists_error_of_plan hp u.name
    refine iff_of_false (by simp [Except.isOk, Except.toBool]) fun hall => ?_
    rw [hall d (List.mem_append_right _ hd)] at herr
    exact absurd herr (by simp)

/-! ## Without overlap -/

theorem warnings_withoutOverlap (u : Union) :
    u.withoutOverlap.outcome.warnings = u.outcome.warnings := by
  rw [outcome, outcome, validate_withoutOverlap]

/-- **Turning overlap off does not change what is reported**, nor whether planning succeeds. -/
theorem outcome_withoutOverlap (u : Union) :
    u.withoutOverlap.outcome.diagnostics = u.outcome.diagnostics ∧
      u.withoutOverlap.outcome.succeeded = u.outcome.succeeded := by
  have hw := warnings_withoutOverlap u
  rw [SumLayout.Outcome.diagnostics, SumLayout.Outcome.diagnostics, SumLayout.Outcome.succeeded,
    SumLayout.Outcome.succeeded, hw]
  show _ ∧ u.withoutOverlap.plan.isOk = u.plan.isOk
  cases hp : u.plan with
  | ok p =>
    obtain ⟨p', hp'⟩ := plan_ok_withoutOverlap hp
    simp [outcome, hp, hp', Except.isOk, Except.toBool]
  | error e =>
    simp only [outcome, hp, plan_error_withoutOverlap hp, and_true]
    rfl

end Union

namespace CommandLine

/-- A report looks at nothing but the findings and whether planning succeeded. -/
theorem errorText_congr {os os' : List Outcome}
    (h : os.map (fun o => (o.diagnostics, o.succeeded))
      = os'.map fun o => (o.diagnostics, o.succeeded)) :
    errorText os = errorText os' ∧ allPlanned os = allPlanned os' := by
  have hlen : os.length = os'.length := by simpa using congrArg List.length h
  have htext := congrArg (List.map fun p : List Diagnostic × Bool =>
    String.join (p.1.map fun d => d.text ++ "\n")) h
  have hfailed := congrArg (List.countP fun p : List Diagnostic × Bool => !p.2) h
  have hall := congrArg (List.all · fun p : List Diagnostic × Bool => p.2) h
  simp only [List.map_map, List.countP_map, List.all_map] at htext hfailed hall
  refine ⟨?_, hall⟩
  show String.join (os.map _) ++ summary os = String.join (os'.map _) ++ summary os'
  rw [summary, summary, hlen]
  exact congrArg₂ (· ++ ·) (congrArg String.join htext)
    (by rw [show os.countP (fun o => !o.succeeded) = _ from hfailed]; rfl)

/-- **Options of `plan` do not change what is reported.** -/
theorem report_apply (o : PlanOptions) (us : List Union) :
    errorText (planAll (o.apply us)) = errorText (planAll us) ∧
      allPlanned (planAll (o.apply us)) = allPlanned (planAll us) := by
  refine errorText_congr ?_
  rw [PlanOptions.apply]
  split
  · rw [planAll, planAll, List.map_map, List.map_map, List.map_map]
    refine List.map_congr_left fun u _ => ?_
    exact Prod.ext (Union.outcome_withoutOverlap u).1 (Union.outcome_withoutOverlap u).2
  · rfl

/-- The exit code for some unions is zero exactly if no error is reported on any of them. -/
theorem exitCode_planAll (us : List Union) : exitCode (allPlanned (planAll us)) = 0 ↔
    ∀ o ∈ planAll us, ∀ d ∈ o.diagnostics, d.isError = false := by
  rw [exitCode_eq_zero, allPlanned, List.all_eq_true]
  refine forall₂_congr fun o ho => ?_
  obtain ⟨u, -, rfl⟩ := List.mem_map.mp ho
  exact Union.succeeded_outcome_iff

/-- **`check` predicts `plan`.** Under any options `plan` writes the errors that `check` writes and
ends with the same exit code; and that code is zero exactly if nothing reported is an error. -/
theorem planUnions_errors_eq (o : PlanOptions) (us : List Union) :
    (planUnions o us).errors = (checkUnions us).errors ∧
      (planUnions o us).exitCode = (checkUnions us).exitCode ∧
      ((planUnions o us).exitCode = 0 ↔
        ∀ r ∈ planAll (o.apply us), ∀ d ∈ r.diagnostics, d.isError = false) ∧
      ((checkUnions us).exitCode = 0 ↔
        ∀ r ∈ planAll us, ∀ d ∈ r.diagnostics, d.isError = false) := by
  obtain ⟨htext, hall⟩ := report_apply o us
  exact ⟨htext, congrArg exitCode hall, exitCode_planAll (o.apply us), exitCode_planAll us⟩

end CommandLine

end SumLayout
