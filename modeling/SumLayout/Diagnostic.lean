/-!
# Diagnostics

A finding about a union has a code, a severity, a message, the union and case it concerns and
any number of notes. There is no source text at this level, so a finding names its subject
instead of pointing at a place.
-/

namespace SumLayout

/-- The kinds of findings. -/
inductive Code where
  /-- Two cases have one name. -/
  | duplicateName
  /-- Two cases declare one tag. -/
  | duplicateTag
  /-- A case is left without a tag. -/
  | tagsExhausted
  /-- A value cannot be laid out. -/
  | unfitShape
  /-- A value has no field. -/
  | missingField
  /-- A case is not read back as it was written. -/
  | roundTrip
  /-- A union has no cases. -/
  | noCases
  deriving DecidableEq, Repr

namespace Code

/-- Every code, in order. -/
def all : List Code :=
  [duplicateName, duplicateTag, tagsExhausted, unfitShape, missingField, roundTrip, noCases]

/-- The identifier of a code. The letter tells errors from warnings, the first digit tells
declarations (1) from layout (2). -/
def id : Code → String
  | duplicateName => "E1001"
  | duplicateTag => "E1002"
  | tagsExhausted => "E1003"
  | unfitShape => "E2001"
  | missingField => "E2002"
  | roundTrip => "E2003"
  | noCases => "W1001"

/-- One line on what the code stands for. -/
def description : Code → String
  | duplicateName => "duplicate case name"
  | duplicateTag => "duplicate tag value"
  | tagsExhausted => "no tag value left"
  | unfitShape => "value shape cannot be laid out"
  | missingField => "value path has no allocated field"
  | roundTrip => "case does not round-trip through its storage"
  | noCases => "union has no cases"

/-- Errors of the declaration. -/
def isDescriptorError : Code → Bool
  | duplicateName | duplicateTag | tagsExhausted => true
  | _ => false

/-- Errors of the layout. -/
def isLayoutError : Code → Bool
  | unfitShape | missingField | roundTrip => true
  | _ => false

def isWarning : Code → Bool
  | noCases => true
  | _ => false

/-- The code with a given identifier, in either case of letters. An identifier is one of two
letters and four digits, and no letter outside ASCII has one of the two as its capital, so
comparing ASCII capitals is enough. -/
def ofId? (s : String) : Option Code :=
  all.find? fun c => c.id.toList == s.toList.map Char.toUpper

theorem ofId?_id (c : Code) : ofId? c.id = some c := by
  cases c <;> decide +kernel

end Code

inductive Severity where
  | error
  | warning
  deriving DecidableEq, Repr

def Severity.name : Severity → String
  | .error => "error"
  | .warning => "warning"

/-- A finding about a union. -/
structure Diagnostic where
  code : Code
  severity : Severity
  message : String := ""
  /-- The union that the finding is about. -/
  unionName : Option String := none
  /-- The case that the finding is about. -/
  caseName : Option String := none
  notes : List String := []
  deriving DecidableEq, Repr

namespace Diagnostic

def isError (d : Diagnostic) : Bool := d.severity == .error

/-- The line that names the subject, if there is one. -/
def subject : Option String → Option String → String
  | some u, some c => "\n  --> " ++ u ++ "." ++ c
  | some u, none => "\n  --> " ++ u
  | none, some c => "\n  --> case " ++ c
  | none, none => ""

/-- The finding as text: a headline, the subject, a line for each note. -/
def text (d : Diagnostic) : String :=
  d.severity.name ++ " [" ++ d.code.id ++ "]: " ++ d.message
    ++ subject d.unionName d.caseName
    ++ String.join (d.notes.map ("\n  = note: " ++ ·))

end Diagnostic

end SumLayout
