import SumLayout.Options
import SumLayout.Shape

/-!
# Unions, cases and values

A tagged union is a list of cases, of which a value holds exactly one. A case carries the values
that its factory takes; a composite value carries the values it is made of, to any depth. These
descriptions are what the planner works on, and nothing in them is ever changed by planning.
-/

namespace SumLayout

/-- A type as the planner sees it: a name, a shape and, for a type with a single instance, the
member that yields it. -/
structure ValueType where
  name : String
  shape : Shape
  singletonAccessor : Option String := none
  deriving DecidableEq, Repr

namespace ValueType

/-- A primitive type. -/
def primitive (name : String) : ValueType := { name, shape := .primitive }

def int : ValueType := primitive "int"

def long : ValueType := primitive "long"

def double : ValueType := primitive "double"

def bool : ValueType := primitive "bool"

def string : ValueType := { name := "string", shape := .reference }

def object : ValueType := { name := "object", shape := .object }

/-- Whether the type has a single instance. -/
def isSingleton (t : ValueType) : Bool := t.singletonAccessor.isSome

end ValueType

/-- A value that a case carries, with the values it is made of (none for a simple value). -/
structure Value where
  name : String
  type : ValueType
  members : List Value := []
  deriving Repr

/-- How a case is made. -/
inductive FactoryKind where
  /-- A method that takes the values of the case. -/
  | method
  /-- A property, for a case without values. -/
  | property
  /-- No factory. -/
  | none
  deriving DecidableEq, Repr

/-- How the value of a case is read. -/
inductive AccessorKind where
  | property
  | method
  /-- No accessor. -/
  | none
  deriving DecidableEq, Repr

/-- One alternative of a union. -/
structure Case where
  name : String
  /-- The type that the case stands for, in a union of types. -/
  wraps : Option ValueType := none
  /-- The discriminant, if it is given. -/
  tag : Option UInt32 := none
  /-- The parameters of the factory, in order. -/
  values : List Value := []
  factory : FactoryKind := .method
  factoryName : Option String := none
  accessor : AccessorKind := .property
  accessorName : Option String := none
  /-- The accessibility of the generated members. -/
  accessibility : Option String := none
  deriving Repr

namespace Case

/-- The case of a union of types that carries one value of type `t`. -/
def ofType (name : String) (t : ValueType) : Case :=
  { name, wraps := some t, values := [{ name := "value", type := t }] }

/-- The accessibility of the generated members, public unless stated. -/
def visibility (c : Case) : String := c.accessibility.getD "public"

/-- The type that the case stands for, if that type has a single instance. -/
def singletonType (c : Case) : Option ValueType := c.wraps.filter (·.isSingleton)

/-- The name of the single instance's type together with the member that yields it. -/
def singleton? (c : Case) : Option (String × String) :=
  c.wraps.bind fun t => t.singletonAccessor.map fun a => (t.name, a)

end Case

/-- What the cases of a union stand for. -/
inductive UnionKind where
  /-- Each case wraps a value of a type of its own. -/
  | types
  /-- Each case is a named state with values. -/
  | tags
  deriving DecidableEq, Repr

/-- A union declaration. -/
structure Union where
  kind : UnionKind
  /-- The name without type parameters. -/
  name : String
  /-- The name with type parameters. -/
  typeName : String
  /-- Whether the union itself is a stack-only type. -/
  refLike : Bool := false
  options : Options := {}
  cases : List Case := []
  deriving Repr

namespace Union

/-- The first case with a given name. -/
def case? (u : Union) (name : String) : Option Case :=
  u.cases.find? (·.name == name)

/-- The union with one option switched. -/
def setOption (u : Union) (t : Toggle) (on : Bool) : Union :=
  { u with options := u.options.set t on }

end Union

end SumLayout
