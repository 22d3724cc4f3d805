import Mathlib.Data.List.Forall2
import SumLayout.Input
import SumLayout.Proofs.JsonText

/-!
# How unions are written

What the file format says, as a relation between unions and JSON (`WritesBatch`): which keys the
objects have, what stands at each of them, and which of them may be left out. **Leaving a key out is
only allowed where the part has its default**, and then it may be written all the same; many parts
can also be written as null if they have their default. Shapes and options stand under their
identifiers.
-/

namespace SumLayout

/-- The name of a kind of factories. -/
def FactoryKind.name : FactoryKind → String
  | method => "method"
  | property => "property"
  | none => "none"

/-- The name of a kind of accessors. -/
def AccessorKind.name : AccessorKind → String
  | property => "property"
  | method => "method"
  | none => "none"

/-- The name of a kind of unions. -/
def UnionKind.name : UnionKind → String
  | types => "type_union"
  | tags => "tag_union"

namespace Input

open Json

/-- The tree is the string `x`. -/
def WritesString (x : String) (j : Tree) : Prop := j = .string x

/-- The tree is the Boolean `b`. -/
def WritesBool (b : Bool) (j : Tree) : Prop := j = .bool b

/-- The tree is the number `n`. -/
def WritesWord (n : UInt32) (j : Tree) : Prop := j = .number n.toNat

/-- The tree is a list, and its items say what the elements of `xs` are. -/
def WritesList {α : Type} (writes : α → Tree → Prop) (xs : List α) (j : Tree) : Prop :=
  ∃ js, j = .list js ∧ List.Forall₂ writes xs js

/-- What a type is made of. -/
def typeParts (t : ValueType) : List Part :=
  [.always "name" (WritesString t.name),
   .always "shape" (WritesString t.shape.name),
   .option "singleton_accessor" WritesString t.singletonAccessor]

def WritesType (t : ValueType) (j : Tree) : Prop := j.IsRecord (typeParts t)

mutual

def WritesValue : Value → Tree → Prop
  | ⟨name, type, members⟩, j => j.IsRecord
    [.always "name" (WritesString name),
     .always "type" (WritesType type),
     .orLeftOut "members" (members = []) fun j => ∃ js, j = .list js ∧ WritesValues members js]

def WritesValues : List Value → List Tree → Prop
  | [], js => js = []
  | v :: vs, js => ∃ k ks, js = k :: ks ∧ WritesValue v k ∧ WritesValues vs ks

end

/-- What a case is made of. -/
def caseParts (c : Case) : List Part :=
  [.always "name" (WritesString c.name),
   .option "type" WritesType c.wraps,
   .option "tag" WritesWord c.tag,
   .orLeftOut "values" (c.values = []) (WritesList WritesValue c.values),
   .orNull "factory" (c.factory = .method) (WritesString c.factory.name),
   .option "factory_name" WritesString c.factoryName,
   .orNull "accessor" (c.accessor = .property) (WritesString c.accessor.name),
   .option "accessor_name" WritesString c.accessorName,
   .option "accessibility" WritesString c.accessibility]

def WritesCase (c : Case) (j : Tree) : Prop := j.IsRecord (caseParts c)

/-- A toggle of an option set. -/
def togglePart (o : Options) (t : Toggle) : Part :=
  .orNull t.key (o.get t = Flags.get {} t) (WritesBool (o.get t))

/-- What an option set is made of. -/
def optionsParts (o : Options) : List Part :=
  Toggle.all.map (togglePart o) ++
  [.orNull "tag_type_name" (o.tagTypeName = "Case") (WritesString o.tagTypeName),
   .orNull "tag_property_name" (o.tagPropertyName = "Kind") (WritesString o.tagPropertyName)]

def WritesOptions (o : Options) (j : Tree) : Prop := j.IsRecord (optionsParts o)

/-- What a union is made of, if the name with type parameters is written as `typeName`. -/
def unionParts (u : Union) (typeName : Option String) : List Part :=
  [.always "kind" (WritesString u.kind.name),
   .always "name" (WritesString u.name),
   .option "type_name" WritesString typeName,
   .orLeftOut "ref_like" (u.refLike = false) (WritesBool u.refLike),
   .orLeftOut "options" (u.options = {}) (WritesOptions u.options),
   .orLeftOut "cases" (u.cases = []) (WritesList WritesCase u.cases)]

/-- The tree says what a union is. The name with type parameters may be missing if it is the name
without. -/
def WritesUnion (u : Union) (j : Tree) : Prop :=
  ∃ typeName : Option String, typeName.getD u.name = u.typeName ∧
    j.IsRecord (unionParts u typeName)

/-- The tree says what the unions of a file are: an object with a single key for all of them. -/
def WritesBatch (us : List Union) (j : Tree) : Prop :=
  ∃ k, j = .object [("unions", k)] ∧ WritesList WritesUnion us k

end Input

end SumLayout
