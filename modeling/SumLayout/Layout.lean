import SumLayout.Field
import SumLayout.PlanError
import SumLayout.StorageClass
import SumLayout.Text.Joined
import SumLayout.Union

/-!
# Layouts

A layout says where the values of every case are stored. Its fields are one list; its values are
another, an arena of **nodes** that refer to each other by position. Each case owns some top nodes,
one per parameter, and a part of the overlap region: either a single field or a region of its own.

A node is stored after its members, so members always have smaller positions. The walks over an
arena follow a member only downwards; on the arenas that allocation builds this leaves nothing out,
and on any other it makes the walk end.
-/

namespace SumLayout

/-- The position of a node in the arena of its layout. -/
abbrev NodeId := Nat

/-- A value of some case, together with how it is stored. -/
structure Node where
  name : String
  type : ValueType
  storage : StorageClass
  /-- The field that holds the value, unless it is stored member by member. -/
  field : Option FieldId
  /-- The names from the parameter down to the value. -/
  path : List String
  /-- The members that it is stored as. -/
  members : List NodeId
  deriving DecidableEq, Repr

/-- A leaf is stored as a whole. -/
def Node.isLeaf (n : Node) : Bool := n.storage != .decomposable

/-- What one case owns. -/
structure CaseLayout where
  /-- One node per parameter. -/
  roots : List NodeId
  /-- The case's part of the overlap region: a field or a region. -/
  overlapField : Option FieldId
  /-- The fields in the case's region, if it has one. -/
  regionFields : List FieldId
  deriving DecidableEq, Repr

namespace CaseLayout

/-- The layout of a case that stores nothing. -/
def vacant : CaseLayout := ⟨[], none, []⟩

/-- The region of the case, if it has one. -/
def region (c : CaseLayout) : Option FieldId :=
  if c.regionFields.isEmpty then none else c.overlapField

end CaseLayout

/-- The storage of a union. -/
structure Layout where
  fields : List Field
  nodes : List Node
  /-- The slots on the union, in order of declaration. -/
  unionFields : List FieldId
  /-- The overlap region. -/
  overlap : Option FieldId
  /-- One entry per case. -/
  cases : List CaseLayout
  deriving DecidableEq, Repr

namespace Layout

/-- The number of fields on the union: the slots, and one for the overlap region. -/
def fieldCount (l : Layout) : Nat :=
  l.unionFields.length + if l.overlap.isSome then 1 else 0

/-- What the case at a position owns. -/
def caseAt (l : Layout) (i : Nat) : CaseLayout := l.cases.getD i .vacant

/-- The name of a field. -/
def fieldName (l : Layout) (id : FieldId) : String :=
  ((l.fields[id]?).map (·.name)).getD ""

/-- The type name of a field. -/
def fieldType (l : Layout) (id : FieldId) : String :=
  ((l.fields[id]?).map (·.typeName)).getD ""

/-- The constructor's argument for a field; a field without one goes by its own name. -/
def fieldArgument (l : Layout) (id : FieldId) : String :=
  ((l.fields[id]?).bind (·.argument)).getD (l.fieldName id)

/-- The declaration of a field. -/
def fieldText (l : Layout) (id : FieldId) : String :=
  ((l.fields[id]?).map (·.text)).getD ""

/-- The way from the union down to a field, through the regions that it is declared in, provided
that the layout has put those regions and the field in place. -/
def pathTo? (l : Layout) (id : FieldId) : Option (List FieldId) :=
  match (l.fields[id]?).map Field.place with
  | none => none
  | some .onUnion =>
    if l.unionFields.contains id || l.overlap == some id then some [id] else none
  | some .inOverlap =>
    l.overlap.bind fun region =>
      if l.cases.any (·.overlapField == some id) then some [region, id] else none
  | some (.inRegion own) =>
    l.overlap.bind fun region =>
      if l.cases.any (fun c => c.overlapField == some own && c.regionFields.contains id) then
        some [region, own, id]
      else none

/-- The way to a field, on behalf of a case. -/
def pathTo (l : Layout) (id : FieldId) (caseName : String) : Except PlanError (List FieldId) :=
  match l.pathTo? id with
  | some path => .ok path
  | none => .error (.missingField caseName (l.fieldName id))

/-- The dotted names of the fields along a path. -/
def pathNames (l : Layout) (path : List FieldId) : String :=
  Text.dotted (path.map l.fieldName)

end Layout

end SumLayout
