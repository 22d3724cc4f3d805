import SumLayout.Outcome
import SumLayout.Rendering

/-!
# Listings of plans

A listing shows the storage fields of a union, regions with their contents indented below them, and
then every case with its tag, its construction and its read. A verbose listing adds the tree of
values of each case and where every leaf is stored.
-/

namespace SumLayout

namespace Listing

/-- A line of text. -/
def line (s : String) : String := s ++ "\n"

/-- The fields that a case has in the overlap region. -/
def regionLines (l : Layout) (c : CaseLayout) : String :=
  match c.overlapField with
  | none => ""
  | some id =>
    line ("    " ++ l.fieldText id)
      ++ String.join (c.regionFields.map fun inner => line ("      " ++ l.fieldText inner))

/-- The storage fields: the overlap region with its contents, then the slots. -/
def fieldLines (l : Layout) : String :=
  (match l.overlap with
    | none => ""
    | some id =>
      line ("  " ++ l.fieldText id) ++ String.join (l.cases.map (regionLines l)))
    ++ String.join (l.unionFields.map fun id => line ("  " ++ l.fieldText id))

/-- Where a node is stored. -/
def storedText (l : Layout) (n : Node) : String :=
  match n.field with
  | none => ""
  | some id =>
    match l.pathTo? id with
    | some path => " -> " ++ l.pathNames path
    | none => " -> <unplaced>"

mutual

/-- The tree of a value. -/
def treeLines (l : Layout) (depth : Nat) : NodeTree → String
  | ⟨_, n, members⟩ =>
    line (String.join (List.replicate depth "  ") ++ n.name ++ ": " ++ n.type.name
        ++ " [" ++ n.storage.label ++ "]" ++ storedText l n)
      ++ forestLines l (depth + 1) members

/-- The trees of some values. -/
def forestLines (l : Layout) (depth : Nat) : List NodeTree → String
  | [] => ""
  | t :: ts => treeLines l depth t ++ forestLines l depth ts

end

/-- A case: its tag, its factory and its accessor. -/
def caseLines (p : Plan) (verbose : Bool) (i : Nat) (c : CasePlan) : String :=
  line ("  case " ++ c.subject.name ++ " = " ++ tagText c.tag)
    ++ (match c.names.factory with
        | some name => line ("    " ++ name ++ ": " ++ c.mapping.construction.text p.layout p.names)
        | none => "")
    ++ (match c.names.accessor with
        | some name => line ("    " ++ name ++ ": " ++ c.mapping.read.text p.layout p.names)
        | none => "")
    ++ (if verbose then forestLines p.layout 3 (p.layout.forest (p.layout.caseAt i).roots) else "")

/-- The listing of one plan. -/
def ofPlan (verbose : Bool) (p : Plan) : String :=
  line ("union " ++ p.subject.typeName ++ ": " ++ toString p.layout.fieldCount ++ " field(s)")
    ++ fieldLines p.layout
    ++ String.join (p.cases.zipIdx.map fun c => caseLines p verbose c.2 c.1)
    ++ "\n"

/-- The listings of some plans, one after another. -/
def ofPlans (verbose : Bool) (ps : List Plan) : String :=
  String.join (ps.map (ofPlan verbose))

end Listing

end SumLayout
