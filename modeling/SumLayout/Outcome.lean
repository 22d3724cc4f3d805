import SumLayout.Plan

/-!
# Planning many unions

Unions are planned independently of each other: a failure stays with its union. What is reported on
a union is its warnings and then whatever stopped its planning.
-/

namespace SumLayout

/-- What came of planning one union. -/
structure Outcome where
  subject : Union
  /-- Findings that do not stop the planning. -/
  warnings : List Diagnostic
  result : Except PlanError Plan

namespace Outcome

/-- Whether planning succeeded. -/
def succeeded (o : Outcome) : Bool := o.result.isOk

/-- The plan, if there is one. -/
def plan? (o : Outcome) : Option Plan := o.result.toOption

/-- What is reported: the warnings, then the failure. -/
def diagnostics (o : Outcome) : List Diagnostic :=
  match o.result with
  | .ok _ => o.warnings
  | .error e => o.warnings ++ e.diagnostics o.subject.name

end Outcome

/-- Plan one union and keep its warnings. -/
def Union.outcome (u : Union) : Outcome where
  subject := u
  warnings := u.validate.filter fun d => !d.isError
  result := u.plan

/-- Plan every union, in order. -/
def planAll (us : List Union) : List Outcome := us.map (·.outcome)

/-- Hand finished plans to a consumer one by one. It is up to the consumer's monad to stop at a
failure. -/
def emitAll {m : Type → Type} [Monad m] (emit : Plan → m Unit) (plans : List Plan) : m Unit :=
  plans.forM emit

end SumLayout
