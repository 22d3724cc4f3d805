import SumLayout.Json.Error
import SumLayout.Union

/-!
# Unions as they are written down

In a file a shape is given by its identifier, and any string can stand there. Until all of a file
has been read its unions are kept in this form; `resolve` looks the shapes up. **The first unknown
shape in the order of the file is reported**, the type of a case before its values and the type of a
value before its members, together with the names that lead to it.
-/

namespace SumLayout.Input

/-- A type whose shape has not been looked up. -/
structure RawType where
  name : String := ""
  shape : String := ""
  singletonAccessor : Option String := none
  deriving DecidableEq, Repr

/-- A value whose shapes have not been looked up. -/
structure RawValue where
  name : String := ""
  type : RawType := {}
  members : List RawValue := []
  deriving Repr

/-- A case whose shapes have not been looked up. -/
structure RawCase where
  name : String := ""
  wraps : Option RawType := none
  tag : Option UInt32 := none
  values : List RawValue := []
  factory : FactoryKind := .method
  factoryName : Option String := none
  accessor : AccessorKind := .property
  accessorName : Option String := none
  accessibility : Option String := none
  deriving Repr

/-- A union whose shapes have not been looked up. -/
structure RawUnion where
  kind : UnionKind := .tags
  name : String := ""
  /-- The name with type parameters, if it differs. -/
  typeName : Option String := none
  refLike : Bool := false
  options : Options := {}
  cases : List RawCase := []
  deriving Repr

/-- Why a file cannot be used. -/
inductive Error where
  /-- It cannot be read. -/
  | json (error : Json.Error)
  /-- A shape is unknown; `context` tells where. -/
  | unknownShape (shape context : String)

namespace RawType

/-- Look the shape of a type up. -/
def resolve (t : RawType) (context : String) : Except Error ValueType :=
  match Shape.ofName? t.shape with
  | some shape => .ok ⟨t.name, shape, t.singletonAccessor⟩
  | none => .error (.unknownShape t.shape context)

end RawType

namespace RawValue

mutual

/-- Look the shapes of a value up. -/
def resolve (context : String) : RawValue → Except Error Value
  | ⟨name, type, members⟩ =>
    let context := context ++ "." ++ name
    match type.resolve context with
    | .error e => .error e
    | .ok type => (resolveAll context members).map fun members => ⟨name, type, members⟩

/-- Look the shapes of some values up, in order. -/
def resolveAll (context : String) : List RawValue → Except Error (List Value)
  | [] => .ok []
  | v :: vs =>
    match v.resolve context with
    | .error e => .error e
    | .ok w => (resolveAll context vs).map (w :: ·)

end

end RawValue

namespace RawCase

/-- Look the shape of the type that a case wraps up. -/
def resolveWraps (c : RawCase) (context : String) : Except Error (Option ValueType) :=
  match c.wraps with
  | none => .ok none
  | some t => (t.resolve context).map some

/-- Look the shapes of a case up. -/
def resolve (c : RawCase) (unionName : String) : Except Error Case :=
  let context := unionName ++ "." ++ c.name
  match c.resolveWraps context with
  | .error e => .error e
  | .ok wraps =>
    (RawValue.resolveAll context c.values).map fun values =>
      { name := c.name, wraps, tag := c.tag, values, factory := c.factory
        factoryName := c.factoryName, accessor := c.accessor, accessorName := c.accessorName
        accessibility := c.accessibility }

/-- Look the shapes of some cases up, in order. -/
def resolveAll (unionName : String) : List RawCase → Except Error (List Case)
  | [] => .ok []
  | c :: cs =>
    match c.resolve unionName with
    | .error e => .error e
    | .ok d => (resolveAll unionName cs).map (d :: ·)

end RawCase

namespace RawUnion

/-- Look the shapes of a union up. -/
def resolve (u : RawUnion) : Except Error Union :=
  (RawCase.resolveAll u.name u.cases).map fun cases =>
    { kind := u.kind, name := u.name, typeName := u.typeName.getD u.name, refLike := u.refLike
      options := u.options, cases }

/-- Look the shapes of some unions up, in order. -/
def resolveAll : List RawUnion → Except Error (List Union)
  | [] => .ok []
  | u :: us =>
    match u.resolve with
    | .error e => .error e
    | .ok v => (resolveAll us).map (v :: ·)

end RawUnion

end SumLayout.Input
