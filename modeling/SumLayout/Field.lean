/-!
# Storage fields

A layout declares fields, and a field is known by its position among them (`FieldId`). Where a
field is declared is recorded with it, so that the way from the union to the field can be told
without a search.
-/

namespace SumLayout

/-- The position of a field among the fields of its layout. -/
abbrev FieldId := Nat

/-- What a field was declared for. A region belongs to one owner and is `unique`. -/
inductive FieldKind where
  /-- Values of one type. -/
  | sameType
  /-- References of any type. -/
  | reference
  /-- A value in the overlap region. -/
  | overlappable
  /-- One value. -/
  | unique
  deriving DecidableEq, Repr

/-- Where a field is declared. -/
inductive Place where
  /-- On the union. -/
  | onUnion
  /-- In the overlap region. -/
  | inOverlap
  /-- In the part of the overlap region that belongs to one case. -/
  | inRegion (region : FieldId)
  deriving DecidableEq, Repr

/-- A storage field. -/
structure Field where
  kind : FieldKind
  name : String
  typeName : String
  /-- The constructor's argument for the field. Fields inside a region have none: they are written
  through the region. -/
  argument : Option String
  place : Place
  deriving DecidableEq, Repr

namespace Field

/-- The type name of a field that holds references of several types. -/
def anyReference : String := "object"

/-- The name of a field on the union whose argument is `argument`. -/
def dataName (argument : String) : String := "_data_" ++ argument

/-- The declaration of a field: type, then name. -/
def text (f : Field) : String := f.typeName ++ " " ++ f.name

/-- A field on the union, named after its argument. -/
def onUnion (kind : FieldKind) (argument typeName : String) : Field where
  kind := kind
  name := dataName argument
  typeName := typeName
  argument := some argument
  place := .onUnion

end Field

end SumLayout
