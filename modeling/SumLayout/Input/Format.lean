import SumLayout.Input
import SumLayout.Json.Reader

/-!
# The file format

A file is an object whose only key holds a list of unions. What each record is made of is listed
here field by field, in the order in which the fields stand when the record is given as a list.
Fields that can be left out keep the value of the blank record, and for those that may be null, null
says the same as leaving the field out.

Each reader takes the number of levels that may still be opened (`depth`); the fields of a record
are read with one level less. Values contain values, and every two levels of a value in a value are
an object and a list, so the reader of values is recursive in the depth.
-/

namespace SumLayout.Input

open Json

/-- What a type is made of. -/
def typeRecord : Record RawType where
  name := "TypeInput"
  blank := {}
  entries :=
    [.required "name" string fun x t => { t with name := x },
     .required "shape" string fun x t => { t with shape := x },
     .defaulted "singleton_accessor" (optional string) fun x t => { t with singletonAccessor := x }]

/-- What a value is made of, for a given reader of its members. -/
def valueRecord (depth : Nat) (members : Reader (List RawValue)) : Record RawValue where
  name := "ValueInput"
  blank := {}
  entries :=
    [.required "name" string fun x v => { v with name := x },
     .required "type" (typeRecord.read depth) fun x v => { v with type := x },
     .defaulted "members" members fun x v => { v with members := x }]

/-- Read a value with its members. -/
def value : (depth : Nat) → Reader RawValue
  | depth + 2 =>
    (valueRecord (depth + 1) (list (depth + 1) (value depth))).read (depth + 2)
  | depth => (valueRecord depth (list 0 fun _ => .error (.malformed .tooDeep))).read depth

/-- The names of the kinds of factories. -/
def factoryNames : List (String × FactoryKind) :=
  [("method", .method), ("property", .property), ("none", .none)]

/-- The names of the kinds of accessors. -/
def accessorNames : List (String × AccessorKind) :=
  [("property", .property), ("method", .method), ("none", .none)]

/-- The names of the kinds of unions. -/
def unionNames : List (String × UnionKind) := [("tag_union", .tags), ("type_union", .types)]

/-- What a case is made of. -/
def caseRecord (depth : Nat) : Record RawCase where
  name := "CaseInput"
  blank := {}
  entries :=
    [.required "name" string fun x c => { c with name := x },
     .defaulted "type" (optional (typeRecord.read depth)) fun x c => { c with wraps := x },
     .defaulted "tag" (optional word) fun x c => { c with tag := x },
     .defaulted "values" (list depth (value (depth - 1))) fun x c => { c with values := x },
     .defaulted "factory" (optional (enum depth factoryNames)) fun x c =>
       { c with factory := x.getD .method },
     .defaulted "factory_name" (optional string) fun x c => { c with factoryName := x },
     .defaulted "accessor" (optional (enum depth accessorNames)) fun x c =>
       { c with accessor := x.getD .property },
     .defaulted "accessor_name" (optional string) fun x c => { c with accessorName := x },
     .defaulted "accessibility" (optional string) fun x c => { c with accessibility := x }]

/-- A toggle as a field of the options. -/
def toggleEntry (t : Toggle) : Entry Options :=
  .defaulted t.key (optional bool) fun x o =>
    match x with
    | some on => o.set t on
    | none => o

/-- What options are made of: the toggles, then the two names. -/
def optionsRecord : Record Options where
  name := "OptionsInput"
  blank := {}
  entries :=
    Toggle.all.map toggleEntry ++
    [.defaulted "tag_type_name" (optional string) fun x o =>
       { o with tagTypeName := x.getD o.tagTypeName },
     .defaulted "tag_property_name" (optional string) fun x o =>
       { o with tagPropertyName := x.getD o.tagPropertyName }]

/-- What a union is made of. -/
def unionRecord (depth : Nat) : Record RawUnion where
  name := "UnionInput"
  blank := {}
  entries :=
    [.required "kind" (enum depth unionNames) fun x u => { u with kind := x },
     .required "name" string fun x u => { u with name := x },
     .defaulted "type_name" (optional string) fun x u => { u with typeName := x },
     .defaulted "ref_like" bool fun x u => { u with refLike := x },
     .defaulted "options" (optionsRecord.read depth) fun x u => { u with options := x },
     .defaulted "cases" (list depth ((caseRecord (depth - 2)).read (depth - 1))) fun x u =>
       { u with cases := x }]

/-- What a file is made of. -/
def batchRecord (depth : Nat) : Record (List RawUnion) where
  name := "BatchInput"
  blank := []
  entries :=
    [.required "unions" (list depth ((unionRecord (depth - 2)).read (depth - 1))) fun x _ => x]

/-- Read the text of a file. -/
def readRaw (text : String) : Except Json.Error (List RawUnion) :=
  document ((batchRecord (maxDepth - 1)).read maxDepth) text.toList

/-- Read the text of a file and look up its shapes. -/
def parse (text : String) : Except Error (List Union) :=
  match readRaw text with
  | .error e => .error (.json e)
  | .ok us => RawUnion.resolveAll us

end SumLayout.Input
