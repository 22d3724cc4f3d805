import SumLayout.Mapping
import SumLayout.Text.Lowercase

/-!
# Names that users see

A name that the declaration gives always wins. The defaults follow the kind of the union and the
number of values of the case.
-/

namespace SumLayout

/-- The names of a union's discriminant. -/
structure UnionNames where
  /-- The type of the discriminant. -/
  tagType : String
  /-- The property that holds it. -/
  tagProperty : String
  /-- The argument of the constructor that receives it. -/
  tagArgument : String
  deriving DecidableEq, Repr

/-- What the accessor of a case returns. -/
inductive PresentedType where
  | single (typeName : String)
  /-- A tuple of elements with type and name. -/
  | tuple (elements : List (String × String))
  | grouping (typeName : String)
  | singleton (typeName : String)
  deriving DecidableEq, Repr

/-- The names of one case. -/
structure CaseNames where
  /-- The member of the discriminant's type. -/
  tagMember : String
  /-- The factory, if there is one. -/
  factory : Option String
  /-- The accessor, if there is one. -/
  accessor : Option String
  presentedType : Option PresentedType
  deriving DecidableEq, Repr

namespace Case

/-- The name of a case's factory. In a union of types factories are told apart by their arguments,
so only a property for a singleton needs a name of its own. -/
def presentedFactory (kind : UnionKind) (c : Case) : String :=
  match c.factoryName with
  | some name => name
  | none =>
    match kind with
    | .tags => c.name
    | .types => if c.factory = .property ∧ c.singletonType.isSome then c.name else "Create"

/-- The name of a case's accessor. -/
def presentedAccessor (c : Case) : String :=
  match c.accessorName with
  | some name => name
  | none =>
    if c.accessor = .none then c.name ++ "Value"
    else match c.values with
      | [] => if c.singletonType.isSome then c.name ++ "Value" else "Is" ++ c.name
      | [_] => c.name ++ "Value"
      | _ => c.name ++ "Values"

/-- What the accessor of a case returns, if it returns a value. -/
def presentedType (c : Case) (bundle : Option Bundle) : Option PresentedType :=
  match c.values with
  | [] => c.singletonType.map fun t => .singleton t.name
  | [v] => some (.single v.type.name)
  | vs =>
    match bundle with
    | some (.grouping typeName) => some (.grouping typeName)
    | some .tuple | none => some (.tuple (vs.map fun v => (v.type.name, v.name)))

end Case

namespace Union

/-- The names of the union's discriminant. -/
def names (u : Union) : UnionNames where
  tagType := u.options.tagTypeName
  tagProperty := u.options.tagPropertyName
  tagArgument := Text.lowerFirst u.options.tagPropertyName

/-- The names of one case. -/
def caseNames (u : Union) (c : Case) (bundle : Option Bundle) : CaseNames where
  tagMember := c.name
  factory := if c.factory = .none then none else some (c.presentedFactory u.kind)
  accessor := if c.accessor = .none then none else some c.presentedAccessor
  presentedType := c.presentedType bundle

/-- Whether a case is converted to implicitly from the type that it wraps: only public cases of a
union of types, and never from an interface or from any object. -/
def convertsImplicitly (u : Union) (c : Case) : Bool :=
  u.kind == .types && c.visibility == "public" &&
    c.wraps.any fun t => t.shape != .interface && t.shape != .object

end Union

end SumLayout
