import SumLayout.Diagnostic
import SumLayout.Union

/-!
# Contradictions in a declaration

Two cases of one name and two cases of one declared tag are errors; a union without cases is worth
a warning. The cases are walked once, and for each name and each declared tag the first case that
has it is kept. A conflict is reported at the later case, and its note names the **first** one,
however many others lie in between.
-/

namespace SumLayout

/-- A key that has an owner keeps it, and any other is given to `owner`. -/
def claimKey {κ ω : Type} [BEq κ] (owners : List (κ × ω)) (key : κ) (owner : ω) : List (κ × ω) :=
  if (owners.lookup key).isSome then owners else (key, owner) :: owners

/-- The first owners among the cases that were met. -/
structure Owners where
  /-- For each name, the position of the first case that has it. -/
  names : List (String × Nat) := []
  /-- For each declared tag, the name of the first case that declares it. -/
  tags : List (UInt32 × String) := []
  deriving Repr

/-- The first owners once the case at position `i` is met too. -/
def Owners.meet (o : Owners) (i : Nat) (c : Case) : Owners where
  names := claimKey o.names c.name i
  tags :=
    match c.tag with
    | none => o.tags
    | some t => claimKey o.tags t c.name

namespace Union

/-- The finding on a union without cases. -/
def noCasesFinding (u : Union) : Diagnostic where
  code := .noCases
  severity := .warning
  message := "union `" ++ u.name ++ "` declares no cases"
  unionName := some u.name

/-- The finding on a case whose name was given to the case at position `first` already. -/
def duplicateNameFinding (u : Union) (c : Case) (first : Nat) : Diagnostic where
  code := .duplicateName
  severity := .error
  message := "case name `" ++ c.name ++ "` is declared more than once"
  unionName := some u.name
  caseName := some c.name
  notes := ["first declared as case #" ++ toString (first + 1)]

/-- The finding on a case whose tag was given to the case of name `owner` already. -/
def duplicateTagFinding (u : Union) (c : Case) (tag : UInt32) (owner : String) : Diagnostic where
  code := .duplicateTag
  severity := .error
  message := "tag value " ++ toString tag.toNat ++ " is used more than once"
  unionName := some u.name
  caseName := some c.name
  notes := ["first used by case `" ++ owner ++ "`"]

/-- The findings on a case, given the first owners among the cases before it. -/
def conflicts (u : Union) (o : Owners) (c : Case) : List Diagnostic :=
  let byName := (o.names.lookup c.name).map (u.duplicateNameFinding c)
  let byTag := c.tag.bind fun t => (o.tags.lookup t).map (u.duplicateTagFinding c t)
  byName.toList ++ byTag.toList

/-- The findings on the cases from position `i` on. -/
def conflictsFrom (u : Union) (o : Owners) (i : Nat) : List Case → List Diagnostic
  | [] => []
  | c :: cs => u.conflicts o c ++ conflictsFrom u (o.meet i c) (i + 1) cs

/-- All findings on a declaration. -/
def validate (u : Union) : List Diagnostic :=
  (if u.cases.isEmpty then [u.noCasesFinding] else []) ++ u.conflictsFrom {} 0 u.cases

end Union

end SumLayout
