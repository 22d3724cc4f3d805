import SumLayout.Field.Slots
import SumLayout.Layout

/-!
# Allocation

Cases are given storage one after another, and the values of a case in order of declaration. What
happens to a value depends on its class:

* a value to be taken apart is replaced by its members;
* an overlappable leaf goes to the overlap region, and if its case has several of them, to a region
  of the case within it;
* any other leaf is a request for a slot on the union (`Slots.findOrDeclare`). A case may claim the
  slots of earlier cases only, since its own are claimed already.

There is an overlap region only if it is asked for and at least two cases have data for it. Whether
that is so, and which cases need a region of their own, is **counted before** anything is
allocated, under the classification that holds when there is a region.

The recursion is on the value tree. What has been stored so far is one record (`Progress`) handed
from value to value.
-/

namespace SumLayout

namespace Value

mutual

/-- The number of overlappable leaves that a value is stored as. -/
def overlapCount (classOf : Shape → StorageClass) : Value → Nat
  | ⟨_, type, members⟩ =>
    match classOf type.shape with
    | .overlappable => 1
    | .decomposable => overlapCounts classOf members
    | .sameType | .reference | .unique => 0

/-- The number of overlappable leaves that some values are stored as. -/
def overlapCounts (classOf : Shape → StorageClass) : List Value → Nat
  | [] => 0
  | v :: vs => v.overlapCount classOf + overlapCounts classOf vs

end

end Value

/-- The overlap region as a field. -/
def Field.overlapRegion : Field where
  kind := .unique
  name := "_overlapped"
  typeName := "OverlappedData"
  argument := some "overlapped"
  place := .onUnion

/-- The region of a case as a field. -/
def Field.caseRegion (caseName : String) : Field where
  kind := .unique
  name := caseName
  typeName := caseName ++ "Data"
  argument := none
  place := .inOverlap

/-- An overlappable leaf as a field. -/
def Field.overlapLeaf (name typeName : String) (place : Place) : Field where
  kind := .overlappable
  name := name
  typeName := typeName
  argument := none
  place := place

/-- What is fixed while one case is allocated. -/
structure CaseScope where
  caseName : String
  /-- The case has exactly one parameter. -/
  isLone : Bool
  /-- The overlappable leaves of the case lie in a region of its own. -/
  needsRegion : Bool
  classOf : Shape → StorageClass

namespace CaseScope

/-- What the members of a value have before their names: the names of the values that they are in.
The only parameter of a case does not count, as it tells nothing apart. -/
def memberStem (c : CaseScope) (isRoot : Bool) (stem name : String) : String :=
  if isRoot && c.isLone then stem else Text.underscored [stem, name]

end CaseScope

/-- What has been stored so far, and what of it belongs to the current case. -/
structure Progress where
  slots : Slots
  nodes : List Node
  /-- The region of the case, once it is declared. -/
  region : Option FieldId := none
  /-- The fields in the region of the case. -/
  regionFields : List FieldId := []
  /-- The fields of the overlappable leaves of the case. -/
  overlapLeaves : List FieldId := []

namespace Progress

/-- Store a node. -/
def pushNode (p : Progress) (n : Node) : NodeId × Progress :=
  (p.nodes.length, { p with nodes := p.nodes ++ [n] })

/-- The region of the case, declared when it is first asked for. -/
def ensureRegion (c : CaseScope) (p : Progress) : FieldId × Progress :=
  match p.region with
  | some region => (region, p)
  | none =>
    let (region, slots) := p.slots.push (.caseRegion c.caseName)
    (region, { p with slots := slots, region := some region })

/-- Give an overlappable leaf its field: in the region of the case under its own name, or directly
in the overlap region under a name that starts with the case's. -/
def placeOverlap (c : CaseScope) (stem : String) (v : Value) (p : Progress) :
    FieldId × Progress :=
  let leafName := Text.underscored [stem, v.name]
  if c.needsRegion then
    let (region, p) := p.ensureRegion c
    let (id, slots) := p.slots.push (.overlapLeaf leafName v.type.name (.inRegion region))
    (id, { p with
      slots := slots
      regionFields := p.regionFields ++ [id]
      overlapLeaves := p.overlapLeaves ++ [id] })
  else
    let name := Text.underscored [c.caseName, leafName]
    let (id, slots) := p.slots.push (.overlapLeaf name v.type.name .inOverlap)
    (id, { p with slots := slots, overlapLeaves := p.overlapLeaves ++ [id] })

/-- Give any other leaf its slot. -/
def placeShared (c : CaseScope) (kind : FieldKind) (stem : String) (v : Value) (p : Progress) :
    FieldId × Progress :=
  let argument := Text.underscored [c.caseName, stem, v.name]
  let (id, slots) := p.slots.findOrDeclare kind argument v.type.name
  (id, { p with slots := slots })

/-- Give a leaf its field. -/
def placeLeaf (c : CaseScope) (storage : StorageClass) (stem : String) (v : Value)
    (p : Progress) : FieldId × Progress :=
  match storage with
  | .overlappable => p.placeOverlap c stem v
  | .sameType => p.placeShared c .sameType stem v
  | .reference => p.placeShared c .reference stem v
  | .unique | .decomposable => p.placeShared c .unique stem v

end Progress

namespace Value

mutual

/-- Store a value that lies under the values named in `path`. -/
def store (c : CaseScope) (stem : String) (path : List String) (v : Value) (p : Progress) :
    Except PlanError (NodeId × Progress) :=
  match v with
  | ⟨name, type, members⟩ =>
    let path' := path ++ [name]
    match c.classOf type.shape with
    | .decomposable =>
      if members.isEmpty then
        .error (.invalidShape c.caseName (Text.dotted path') type.shape .noMembers)
      else
        match storeAll c (c.memberStem path.isEmpty stem name) path' members p with
        | .error e => .error e
        | .ok (ids, p) => .ok (p.pushNode ⟨name, type, .decomposable, none, path', ids⟩)
    | storage =>
      let (id, p) := p.placeLeaf c storage stem ⟨name, type, members⟩
      .ok (p.pushNode ⟨name, type, storage, some id, path', []⟩)

/-- Store some values that lie under the values named in `path`, one after another. -/
def storeAll (c : CaseScope) (stem : String) (path : List String) (vs : List Value)
    (p : Progress) : Except PlanError (List NodeId × Progress) :=
  match vs with
  | [] => .ok ([], p)
  | v :: vs =>
    match v.store c stem path p with
    | .error e => .error e
    | .ok (id, p) =>
      match storeAll c stem path vs p with
      | .error e => .error e
      | .ok (ids, p) => .ok (id :: ids, p)

end

end Value

namespace Layout

/-- What a case contributes to the overlap region: its own region or its only leaf. -/
def overlapField (p : Progress) : Option FieldId :=
  match p.region, p.overlapLeaves with
  | some region, _ => some region
  | none, [leaf] => some leaf
  | none, _ => none

/-- Store a case after those before it. -/
def allocateCase (classOf : Shape → StorageClass) (needsRegion : Bool) (c : Case)
    (slots : Slots) (nodes : List Node) : Except PlanError (CaseLayout × Slots × List Node) :=
  let scope : CaseScope :=
    { caseName := c.name, isLone := c.values.length == 1, needsRegion, classOf }
  match Value.storeAll scope "" [] c.values { slots := slots.newCase, nodes := nodes } with
  | .error e => .error e
  | .ok (roots, p) => .ok (⟨roots, overlapField p, p.regionFields⟩, p.slots, p.nodes)

/-- Store some cases, each given with whether it needs a region of its own. -/
def allocateCases (classOf : Shape → StorageClass) :
    List (Case × Bool) → Slots → List Node →
      Except PlanError (List CaseLayout × Slots × List Node)
  | [], slots, nodes => .ok ([], slots, nodes)
  | (c, needsRegion) :: rest, slots, nodes =>
    match allocateCase classOf needsRegion c slots nodes with
    | .error e => .error e
    | .ok (layout, slots, nodes) =>
      match allocateCases classOf rest slots nodes with
      | .error e => .error e
      | .ok (layouts, slots, nodes) => .ok (layout :: layouts, slots, nodes)

/-- The number of overlappable leaves that a case would have next to an overlap region. -/
def overlapCount (o : Options) (c : Case) : Nat :=
  Value.overlapCounts (.ofShape o true) c.values

/-- Whether at least two cases have data for an overlap region. -/
def sharesOverlap (u : Union) : Bool :=
  1 < u.cases.countP fun c => 0 < overlapCount u.options c

/-- Give every case of a union its storage, with an overlap region if one is allowed and shared. -/
def allocate (u : Union) (allowOverlap : Bool) : Except PlanError Layout :=
  let hasOverlap := allowOverlap && sharesOverlap u
  let overlap := if hasOverlap then some 0 else none
  let slots : Slots := { fields := if hasOverlap then [.overlapRegion] else [] }
  let cases := u.cases.map fun c => (c, hasOverlap && 1 < overlapCount u.options c)
  match allocateCases (.ofShape u.options hasOverlap) cases slots [] with
  | .error e => .error e
  | .ok (layouts, slots, nodes) => .ok ⟨slots.fields, nodes, slots.slots, overlap, layouts⟩

end Layout

end SumLayout
