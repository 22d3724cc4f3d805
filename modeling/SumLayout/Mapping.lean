import SumLayout.Layout.Walk

/-!
# Writing and reading a case

A factory call fills the storage of a union by one call of its constructor (`Construction`): a
**write** for the overlap region, if there is one, and then one for every slot, in order. The value
of a case is read back by an expression on storage that is guarded by the tag (`CaseRead`).

Narrowing a field that holds references of several types to the type of the value happens when
reading and never when writing.
-/

namespace SumLayout

/-- An expression that reads a value, or a part of one, from storage. -/
inductive ReadExpr where
  /-- The field at the end of a path. -/
  | field (path : List FieldId)
  /-- A wider field, cast to the type of the value. -/
  | narrow (typeName : String) (inner : ReadExpr)
  /-- A record, from its members. -/
  | record (typeName : String) (members : List ReadExpr)
  /-- A tuple, from its elements. -/
  | tuple (members : List ReadExpr)
  /-- The values of a case under one named type. -/
  | grouping (typeName : String) (members : List ReadExpr)
  /-- The only instance of a type. -/
  | singleton (typeName accessor : String)
  deriving Repr

/-- How the value of a case is read. -/
inductive CaseRead where
  /-- The value if the union holds the case, and a default otherwise. -/
  | guarded (tag : UInt32) (value : ReadExpr)
  /-- Whether the union holds the case. -/
  | isCase (tag : UInt32)
  deriving Repr

namespace CaseRead

/-- The tag that the read checks for. -/
def tag : CaseRead → UInt32
  | guarded t _ | isCase t => t

/-- The same read under another tag. -/
def withTag (t : UInt32) : CaseRead → CaseRead
  | guarded _ value => guarded t value
  | isCase _ => isCase t

end CaseRead

/-- What is written to one argument of the constructor. An argument of the factory is given by the
names that lead to it. -/
inductive WriteExpr where
  /-- An argument of the factory. -/
  | argument (path : List String)
  /-- Nothing: the case does not use the field. -/
  | vacant
  /-- An overlap region that holds a single leaf. -/
  | overlap (field : FieldId) (path : List String)
  /-- An overlap region that holds the region of a case. -/
  | region (region : FieldId) (fields : List (FieldId × List String))
  deriving DecidableEq, Repr

/-- A call of the constructor. -/
structure Construction where
  tag : UInt32
  writes : List (FieldId × WriteExpr)
  deriving DecidableEq, Repr

/-- How the values of a case with several are put together. -/
inductive Bundle where
  | tuple
  /-- A named type, which is needed when some value cannot be a generic argument. -/
  | grouping (typeName : String)
  deriving DecidableEq, Repr

/-- How a case is written and read. -/
structure CaseMapping where
  construction : Construction
  read : CaseRead
  /-- Present for cases with several values. -/
  bundle : Option Bundle
  deriving Repr

namespace Case

/-- How the values of a case with several are put together. -/
def bundle (c : Case) : Option Bundle :=
  if c.values.length < 2 then none
  else if c.values.all (·.type.shape.isGenericArgument) then some .tuple
  else some (.grouping (c.name ++ "Tuple"))

end Case

namespace NodeTree

mutual

/-- The expression that reads a value. -/
def readExpr (l : Layout) (caseName : String) : NodeTree → Except PlanError ReadExpr
  | ⟨_, n, members⟩ =>
    if n.storage = .decomposable then
      match readExprs l caseName members with
      | .error e => .error e
      | .ok parts =>
        if n.type.shape.isRecord then .ok (.record n.type.name parts)
        else if n.type.shape.isTuple then .ok (.tuple parts)
        else .error (.invalidShape caseName (Text.dotted n.path) n.type.shape .notComposite)
    else
      match n.field with
      | none => .error (.missingField caseName (Text.dotted n.path))
      | some id =>
        match l.pathTo id caseName with
        | .error e => .error e
        | .ok path =>
          if l.fieldType id = n.type.name then .ok (.field path)
          else .ok (.narrow n.type.name (.field path))

/-- The expressions that read some values. -/
def readExprs (l : Layout) (caseName : String) : List NodeTree → Except PlanError (List ReadExpr)
  | [] => .ok []
  | t :: ts =>
    match t.readExpr l caseName with
    | .error e => .error e
    | .ok r =>
      match readExprs l caseName ts with
      | .error e => .error e
      | .ok rs => .ok (r :: rs)

end

end NodeTree

namespace Layout

/-- The path of the argument that a case writes to a field, if it writes the field. -/
def writerOf? (leaves : List Node) (id : FieldId) : Option (List String) :=
  (leaves.find? (·.field == some id)).map (·.path)

/-- The arguments that a case writes to some fields; every field needs one. -/
def writers (l : Layout) (caseName : String) (leaves : List Node) :
    List FieldId → Except PlanError (List (FieldId × List String))
  | [] => .ok []
  | id :: ids =>
    match writerOf? leaves id with
    | none => .error (.missingField caseName (l.fieldName id))
    | some path =>
      match writers l caseName leaves ids with
      | .error e => .error e
      | .ok rest => .ok ((id, path) :: rest)

/-- What a case writes to the overlap region. -/
def overlapWrite (l : Layout) (caseName : String) (c : CaseLayout) (leaves : List Node) :
    Except PlanError WriteExpr :=
  match c.overlapField, c.region with
  | none, _ => .ok .vacant
  | some _, some region => (l.writers caseName leaves c.regionFields).map (.region region)
  | some id, none =>
    match writerOf? leaves id with
    | none => .error (.missingField caseName (l.fieldName id))
    | some path => .ok (.overlap id path)

/-- What a case writes to a slot. -/
def slotWrite (leaves : List Node) (id : FieldId) : WriteExpr :=
  match writerOf? leaves id with
  | some path => .argument path
  | none => .vacant

/-- The call of the constructor for the case at position `i`. -/
def construction (l : Layout) (i : Nat) (caseName : String) (tag : UInt32) :
    Except PlanError Construction :=
  let c := l.caseAt i
  let leaves := l.leafNodes c.roots
  let slots := l.unionFields.map fun id => (id, slotWrite leaves id)
  match l.overlap with
  | none => .ok ⟨tag, slots⟩
  | some overlap =>
    match l.overlapWrite caseName c leaves with
    | .error e => .error e
    | .ok w => .ok ⟨tag, (overlap, w) :: slots⟩

/-- How the case at position `i` is read. -/
def caseRead (l : Layout) (i : Nat) (c : Case) (tag : UInt32) (bundle : Option Bundle) :
    Except PlanError CaseRead :=
  match l.forest (l.caseAt i).roots with
  | [] =>
    match c.singleton? with
    | some (typeName, accessor) => .ok (.guarded tag (.singleton typeName accessor))
    | none => .ok (.isCase tag)
  | [root] => (root.readExpr l c.name).map (.guarded tag)
  | roots =>
    match bundle with
    | some (.grouping typeName) =>
      (NodeTree.readExprs l c.name roots).map fun parts => .guarded tag (.grouping typeName parts)
    | some .tuple | none =>
      (NodeTree.readExprs l c.name roots).map fun parts => .guarded tag (.tuple parts)

/-- How the case at position `i` is written and read. -/
def mapCase (l : Layout) (i : Nat) (c : Case) (tag : UInt32) : Except PlanError CaseMapping :=
  match l.construction i c.name tag with
  | .error e => .error e
  | .ok construction =>
    match l.caseRead i c tag c.bundle with
    | .error e => .error e
    | .ok read => .ok ⟨construction, read, c.bundle⟩

/-- How some cases are written and read, the first of them at position `i`. Cases without a tag at
the end of the list are left out. -/
def mapCasesFrom (l : Layout) (i : Nat) : List Case → List UInt32 →
    Except PlanError (List CaseMapping)
  | c :: cs, t :: ts =>
    match l.mapCase i c t with
    | .error e => .error e
    | .ok m =>
      match l.mapCasesFrom (i + 1) cs ts with
      | .error e => .error e
      | .ok ms => .ok (m :: ms)
  | _, _ => .ok []

/-- How the cases of a union are written and read under some tags. -/
def mapCases (u : Union) (l : Layout) (tags : List UInt32) : Except PlanError (List CaseMapping) :=
  l.mapCasesFrom 0 u.cases tags

end Layout

end SumLayout
