import SumLayout.Derived
import SumLayout.Layout.Selection
import SumLayout.RoundTrip
import SumLayout.Tag
import SumLayout.Validation

/-!
# Planning a union

A plan is everything decided about a union: its layout, the tags of its cases, how each is written
and read, the names users see and the derived members. Planning stops at the first of these that
fails:

1. the declaration contradicts itself,
2. a value cannot be laid out,
3. there is no tag left for a case,
4. a case cannot be written or read,
5. a case does not read back as it was written.

A union without cases is planned like any other; the warning on it is left to whoever reports.
-/

namespace SumLayout

/-- Everything decided for one case. -/
structure CasePlan where
  subject : Case
  tag : UInt32
  mapping : CaseMapping
  names : CaseNames

/-- Everything decided for one union. -/
structure Plan where
  subject : Union
  layout : Layout
  names : UnionNames
  /-- One entry per case. -/
  cases : List CasePlan
  derived : DerivedMembers

namespace Plan

/-- The plan of the first case with a given name. -/
def case? (p : Plan) (name : String) : Option CasePlan :=
  p.cases.find? (·.subject.name == name)

/-- The tags of the cases, in order. -/
def tags (p : Plan) : List UInt32 := p.cases.map (·.tag)

end Plan

namespace Union

/-- The plans of the cases, from their tags and mappings. -/
def casePlans (u : Union) (tags : List UInt32) (mappings : List CaseMapping) : List CasePlan :=
  ((u.cases.zip tags).zip mappings).map fun p =>
    ⟨p.1.1, p.1.2, p.2, u.caseNames p.1.1 p.2.bundle⟩

/-- Plan a union whose declaration does not contradict itself. -/
def planValid (u : Union) : Except PlanError Plan := do
  let layout ← Layout.select u
  let tags ← assignTags u.cases
  let mappings ← Layout.mapCases u layout tags
  Layout.verify u layout mappings
  return {
    subject := u
    layout := layout
    names := u.names
    cases := u.casePlans tags mappings
    derived := u.derive tags mappings }

/-- Plan a union. -/
def plan (u : Union) : Except PlanError Plan :=
  match u.validate.filter (·.isError) with
  | [] => u.planValid
  | errors => .error (.invalidDescriptor u.name errors)

end Union

end SumLayout
