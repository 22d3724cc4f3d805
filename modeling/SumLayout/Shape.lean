/-!
# Storage shapes

What the planner knows of a type is its **shape**: whether it is plain data, a reference, a
composite that may be taken apart, and so on. Nothing else about a type is ever looked at, so
every rule of the library that depends on a type is a function on these twenty shapes.

A "local" composite is declared together with the union, a "foreign" one elsewhere; whether the
layout of a foreign composite may be relied upon is a matter of options.

Each shape has one identifier, used in input files and messages. **Reading an identifier back
gives the shape it names** (`ofName?_name`), so no two shapes share one.
-/

namespace SumLayout

/-- The storage-relevant shape of a type. -/
inductive Shape where
  /-- The shape could not be determined. -/
  | unknown
  /-- A single primitive value. -/
  | primitive
  /-- A composite whose parts are all plain data. -/
  | overlapSafeLocalStruct
  | overlapSafeLocalRecord
  | overlapSafeForeignStruct
  | overlapSafeForeignRecord
  /-- A composite that mixes references and plain data. -/
  | nonOverlapSafeStruct
  /-- A record that can be replaced by its members. -/
  | decomposableLocalRecord
  | decomposableForeignRecord
  /-- A record that can be stored whole in the overlap region or replaced by its members. -/
  | overlapDecomposableLocalRecord
  | overlapDecomposableForeignRecord
  /-- A tuple of plain data. -/
  | overlapSafeTuple
  /-- A tuple with at least one element that is not plain data. -/
  | nonOverlapSafeTuple
  /-- A stack-only type: it cannot be boxed or stand as a generic argument. -/
  | refLike
  | reference
  | interface
  /-- The type of any object. -/
  | object
  /-- An unconstrained type parameter. -/
  | typeParam
  /-- A type parameter that is always a reference. -/
  | typeParamRef
  /-- A type parameter that is never a reference. -/
  | typeParamVal
  deriving DecidableEq, Repr

namespace Shape

/-- Every shape, in the order of declaration. -/
def all : List Shape :=
  [unknown, primitive, overlapSafeLocalStruct, overlapSafeLocalRecord, overlapSafeForeignStruct,
   overlapSafeForeignRecord, nonOverlapSafeStruct, decomposableLocalRecord,
   decomposableForeignRecord, overlapDecomposableLocalRecord, overlapDecomposableForeignRecord,
   overlapSafeTuple, nonOverlapSafeTuple, refLike, reference, interface, object, typeParam,
   typeParamRef, typeParamVal]

/-- The identifier of a shape. -/
def name : Shape → String
  | unknown => "unknown"
  | primitive => "primitive"
  | overlapSafeLocalStruct => "overlap_safe_local_struct"
  | overlapSafeLocalRecord => "overlap_safe_local_record"
  | overlapSafeForeignStruct => "overlap_safe_foreign_struct"
  | overlapSafeForeignRecord => "overlap_safe_foreign_record"
  | nonOverlapSafeStruct => "non_overlap_safe_struct"
  | decomposableLocalRecord => "decomposable_local_record"
  | decomposableForeignRecord => "decomposable_foreign_record"
  | overlapDecomposableLocalRecord => "overlap_decomposable_local_record"
  | overlapDecomposableForeignRecord => "overlap_decomposable_foreign_record"
  | overlapSafeTuple => "overlap_safe_tuple"
  | nonOverlapSafeTuple => "non_overlap_safe_tuple"
  | refLike => "ref_like"
  | reference => "reference"
  | interface => "interface"
  | object => "object"
  | typeParam => "type_param"
  | typeParamRef => "type_param_ref"
  | typeParamVal => "type_param_val"

/-- The shape with a given identifier. -/
def ofName? (s : String) : Option Shape :=
  all.find? (·.name == s)

/-- Shapes put together again by a record constructor. -/
def isRecord : Shape → Bool
  | overlapSafeLocalRecord | overlapSafeForeignRecord | decomposableLocalRecord
  | decomposableForeignRecord | overlapDecomposableLocalRecord
  | overlapDecomposableForeignRecord => true
  | _ => false

/-- Shapes put together again by tuple brackets. -/
def isTuple : Shape → Bool
  | overlapSafeTuple | nonOverlapSafeTuple => true
  | _ => false

/-- Shapes whose values may be a null reference. -/
def mayBeNull : Shape → Bool
  | reference | interface | object | typeParam | typeParamRef => true
  | _ => false

/-- Whether the type may stand as a generic argument. -/
def isGenericArgument : Shape → Bool
  | refLike => false
  | _ => true

theorem mem_all (s : Shape) : s ∈ all := by
  cases s <;> simp [all]

/-- **Reading an identifier gives back the shape it names.** -/
theorem ofName?_name (s : Shape) : ofName? s.name = some s := by
  cases s <;> rfl

/-- Only the identifier of a shape is read as that shape. -/
theorem name_of_ofName? {n : String} {s : Shape} (h : ofName? n = some s) : s.name = n := by
  simpa using List.find?_some h

end Shape

end SumLayout
