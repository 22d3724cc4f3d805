import SumLayout.Names

/-!
# Reads and constructions as text

A neutral notation, close to that of many languages with braces, for listings. A read shows the
check of the tag and then the expression; a construction shows one argument per write.
-/

namespace SumLayout

namespace ReadExpr

mutual

/-- An expression as text. -/
def text (l : Layout) : ReadExpr → String
  | field path => l.pathNames path
  | narrow typeName inner => "(" ++ typeName ++ ")" ++ inner.text l
  | record typeName members | grouping typeName members =>
    "new " ++ typeName ++ "(" ++ Text.joinWith ", " (texts l members) ++ ")"
  | tuple members => "(" ++ Text.joinWith ", " (texts l members) ++ ")"
  | singleton typeName accessor => typeName ++ "." ++ accessor

/-- Some expressions as text. -/
def texts (l : Layout) : List ReadExpr → List String
  | [] => []
  | r :: rs => r.text l :: texts l rs

end

end ReadExpr

/-- A tag as text. -/
def tagText (t : UInt32) : String := toString t.toNat

/-- The read of a case as text. -/
def CaseRead.text (l : Layout) (names : UnionNames) : CaseRead → String
  | .isCase tag => names.tagProperty ++ " == " ++ tagText tag
  | .guarded tag value =>
    names.tagProperty ++ " == " ++ tagText tag ++ " ? " ++ value.text l ++ " : default"

/-- A field that is set inside a region, as text. -/
def Layout.setterText (l : Layout) (f : FieldId × List String) : String :=
  l.fieldName f.1 ++ " = " ++ Text.dotted f.2

/-- A write as text. -/
def WriteExpr.text (l : Layout) : WriteExpr → String
  | .argument path => Text.dotted path
  | .vacant => "default"
  | .overlap field path => "new OverlappedData \x7b " ++ l.setterText (field, path) ++ " \x7d"
  | .region own fields =>
    "new OverlappedData \x7b " ++ l.fieldName own ++ " = new " ++ l.fieldType own
      ++ " \x7b " ++ Text.joinWith ", " (fields.map l.setterText) ++ " \x7d \x7d"

/-- A call of the constructor as text. -/
def Construction.text (l : Layout) (names : UnionNames) (c : Construction) : String :=
  "new(" ++ names.tagArgument ++ ": " ++ tagText c.tag
    ++ String.join (c.writes.map fun w => ", " ++ l.fieldArgument w.1 ++ ": " ++ w.2.text l)
    ++ ")"

end SumLayout
