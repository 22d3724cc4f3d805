import SumLayout.Diagnostic
import SumLayout.Shape

/-!
# What stops the planning of a union

Each cause carries what is needed to name the place; the wording is in one function
(`PlanError.message`), and `PlanError.diagnostics` turns a cause into findings for a report.
-/

namespace SumLayout

/-- Why a value cannot be laid out. -/
inductive Unfit where
  /-- It is to be replaced by its members but has none. -/
  | noMembers
  /-- It is to be put together again but is neither a record nor a tuple. -/
  | notComposite
  /-- A reason stated in words. -/
  | stated (reason : String)
  deriving DecidableEq, Repr

def Unfit.text : Unfit → String
  | noMembers => "it decomposes but declares no members"
  | notComposite => "it is neither a record nor a tuple"
  | stated reason => reason

/-- A cause that stops the planning of one union. -/
inductive PlanError where
  /-- The declaration contradicts itself. -/
  | invalidDescriptor (unionName : String) (findings : List Diagnostic)
  /-- No tag is left for a case. -/
  | tagsExhausted (caseName : String)
  /-- A value, given by its dotted path, cannot be laid out. -/
  | invalidShape (caseName path : String) (shape : Shape) (why : Unfit)
  /-- A value was never given a field. -/
  | missingField (caseName path : String)
  /-- A case is not read back as it was written. -/
  | roundTrip (caseName expected actual : String)
  deriving DecidableEq, Repr

namespace PlanError

def message : PlanError → String
  | invalidDescriptor u findings =>
    "union `" ++ u ++ "` has " ++ toString findings.length ++ " invalid declaration(s)"
  | tagsExhausted c => "no tag value is left for case `" ++ c ++ "`"
  | invalidShape c path shape why =>
    "value `" ++ path ++ "` of case `" ++ c ++ "` has shape `" ++ shape.name
      ++ "` and cannot be laid out: " ++ why.text
  | missingField c path => "value `" ++ path ++ "` of case `" ++ c ++ "` has no allocated field"
  | roundTrip c expected actual =>
    "case `" ++ c ++ "` does not round-trip: expected " ++ expected ++ ", read " ++ actual

/-- The code of a cause. A contradictory declaration has the code of its first finding. -/
def code : PlanError → Code
  | invalidDescriptor _ findings => (findings.head?.map (·.code)).getD .duplicateName
  | tagsExhausted _ => .tagsExhausted
  | invalidShape .. => .unfitShape
  | missingField .. => .missingField
  | roundTrip .. => .roundTrip

/-- The case that a cause names. -/
def caseName : PlanError → String
  | invalidDescriptor .. => ""
  | tagsExhausted c | invalidShape c .. | missingField c _ | roundTrip c .. => c

/-- The findings that report a cause: those of the declaration as they are, and one error for any
other cause. -/
def diagnostics (e : PlanError) (unionName : String) : List Diagnostic :=
  match e with
  | invalidDescriptor _ findings => findings
  | _ => [{ code := e.code, severity := .error, message := e.message,
            unionName := some unionName, caseName := some e.caseName }]

end PlanError

end SumLayout
