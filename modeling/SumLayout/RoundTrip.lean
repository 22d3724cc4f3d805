import SumLayout.Storage

/-!
# Checking that reading inverts writing

The construction of each case is run on arguments that are nothing but their names. Reading the case
back must give the case's own value, put together from these arguments, and **no other case may be
read as active**: its tag must differ, and its guarded read must see a default. The first failure,
in order of cases, stops the check.
-/

namespace SumLayout

namespace NodeTree

variable {α : Type}

mutual

/-- The value that a node stands for, from the arguments at its leaves. -/
def content (arg : List String → α) : NodeTree → Content α
  | ⟨_, n, members⟩ =>
    if n.storage = .decomposable then
      if n.type.shape.isTuple then .tuple (contents arg members)
      else .record n.type.name (contents arg members)
    else .leaf (arg n.path)

/-- The values that some nodes stand for. -/
def contents (arg : List String → α) : List NodeTree → List (Content α)
  | [] => []
  | t :: ts => t.content arg :: contents arg ts

end

end NodeTree

namespace Layout

variable {α : Type}

/-- The value that reading the case at position `i` must give. -/
def expected (arg : List String → α) (l : Layout) (i : Nat) (c : Case) (bundle : Option Bundle) :
    Content α :=
  match l.forest (l.caseAt i).roots with
  | [] =>
    match c.singleton? with
    | some (typeName, accessor) => .singleton typeName accessor
    | none => .flag true
  | [root] => root.content arg
  | roots =>
    match bundle with
    | some (.grouping typeName) => .grouping typeName (NodeTree.contents arg roots)
    | some .tuple | none => .tuple (NodeTree.contents arg roots)

/-- A case together with its position and its mapping. -/
structure Entry where
  position : Nat
  subject : Case
  mapping : CaseMapping

/-- The failure that storage written for one case is read as another case. -/
def leak? (storage : Storage String) (own other : Entry) : Option PlanError :=
  if other.position = own.position then none
  else
    let seen := storage.read other.mapping.read
    if other.mapping.read.tag = storage.tag ∨ seen.isInactive = false then
      some (.roundTrip own.subject.name ("`" ++ other.subject.name ++ "` inactive")
        ("`" ++ other.subject.name ++ "` reads " ++ seen.text))
    else none

/-- The first failure of one case, among all of them. -/
def mismatch? (l : Layout) (all : List Entry) (own : Entry) : Option PlanError :=
  let storage := Storage.construct l Text.dotted own.mapping.construction
  let wanted := l.expected Text.dotted own.position own.subject own.mapping.bundle
  let actual := storage.read own.mapping.read
  if actual = wanted then all.findSome? (leak? storage own)
  else some (.roundTrip own.subject.name wanted.text actual.text)

/-- The cases of a union with their mappings; cases without one are left out. -/
def entries (u : Union) (mappings : List CaseMapping) : List Entry :=
  (u.cases.zip mappings).zipIdx.map fun p => ⟨p.2, p.1.1, p.1.2⟩

/-- Check that every case reads back as it was written and that no other case is read from it. -/
def verify (u : Union) (l : Layout) (mappings : List CaseMapping) : Except PlanError Unit :=
  let all := entries u mappings
  match all.findSome? (l.mismatch? all) with
  | some e => .error e
  | none => .ok ()

end Layout

end SumLayout
