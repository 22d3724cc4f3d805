import SumLayout.Names

/-!
# Derived members

Which of equality, text form, matching and the conveniences of a union of types are generated, and
how each case takes part in them. All of it follows from the declaration, the tags and the reads;
storage is never looked at.
-/

namespace SumLayout

/-- How two values of one case are compared. -/
inductive CaseEquality where
  /-- Equal tags are enough. -/
  | tagOnly
  /-- The values are compared. -/
  | value
  /-- The values are compared, and either may be null. -/
  | nullSafeValue
  deriving DecidableEq, Repr

/-- How two values of a union are compared. -/
inductive EqualityPlan where
  /-- No case has a value. -/
  | tagOnly
  /-- One entry per case. -/
  | perCase (cases : List CaseEquality)
  deriving DecidableEq, Repr

/-- The text form of one case. -/
inductive TextForm where
  /-- The name. -/
  | name
  /-- The name with the value. -/
  | nameWithValue
  /-- The name with all fields. -/
  | nameWithFields (fields : List String)
  /-- The text of the value. -/
  | value
  /-- The text of the value, or nothing for null. -/
  | nullSafeValue
  deriving DecidableEq, Repr

/-- The text form of a union. -/
inductive TextPlan where
  /-- No case has a value: the tag is shown. -/
  | tagName
  /-- One entry per case. -/
  | perCase (cases : List TextForm)
  deriving DecidableEq, Repr

/-- Matching helpers. -/
structure MatchPlan where
  /-- Public unless some case is not. -/
  accessibility : String
  /-- A case has the tag zero, so that a default value is a real case. -/
  hasDefault : Bool
  /-- Per case: a value cannot be a generic argument, so that delegates of its own are needed. -/
  customDelegates : List Bool
  deriving DecidableEq, Repr

/-- The conveniences of a union of types. -/
structure TypeUnionPlan where
  genericHelpers : Bool
  toolkit : Bool
  /-- The positions of the cases that are converted to implicitly. -/
  implicitConversions : List Nat
  deriving DecidableEq, Repr

/-- The derived members of a union. -/
structure DerivedMembers where
  equality : Option EqualityPlan
  text : Option TextPlan
  matching : Option MatchPlan
  typeUnion : Option TypeUnionPlan
  deriving DecidableEq, Repr

namespace Case

/-- How two values of a case are compared. -/
def equality (c : Case) : CaseRead → CaseEquality
  | .isCase _ => .tagOnly
  | .guarded _ _ =>
    match c.values with
    | [] => .tagOnly
    | [v] => if v.type.shape.mayBeNull then .nullSafeValue else .value
    | _ => .value

/-- The text form of a case. -/
def textForm (kind : UnionKind) (c : Case) : TextForm :=
  match kind with
  | .tags =>
    match c.values with
    | [] => .name
    | [_] => .nameWithValue
    | vs => .nameWithFields (vs.map (·.name))
  | .types => if c.wraps.any (·.shape.mayBeNull) then .nullSafeValue else .value

/-- Whether matching on a case needs a delegate of its own. -/
def needsDelegate (c : Case) : Bool :=
  match c.wraps with
  | some t => !t.shape.isGenericArgument
  | none => c.values.any fun v => !v.type.shape.isGenericArgument

end Case

namespace Union

/-- Whether no case has a value. -/
def isTagsOnly (u : Union) : Bool := u.cases.all (·.values.isEmpty)

def equalityPlan (u : Union) (mappings : List CaseMapping) : EqualityPlan :=
  if u.isTagsOnly then .tagOnly
  else .perCase ((u.cases.zip mappings).map fun p => p.1.equality p.2.read)

def textPlan (u : Union) : TextPlan :=
  if u.isTagsOnly then .tagName else .perCase (u.cases.map (·.textForm u.kind))

def matchPlan (u : Union) (tags : List UInt32) : MatchPlan where
  accessibility := if u.cases.all (·.visibility == "public") then "public" else "internal"
  hasDefault := tags.contains 0
  customDelegates := u.cases.map (·.needsDelegate)

/-- Whether every case wraps a type that can be a generic argument. -/
def hasGenericHelpers (u : Union) : Bool :=
  u.cases.all fun c => c.wraps.any (·.shape.isGenericArgument)

def typeUnionPlan (u : Union) (options : Options) : TypeUnionPlan where
  genericHelpers := u.hasGenericHelpers
  toolkit := u.hasGenericHelpers && options.useToolkit
  implicitConversions := (u.cases.zipIdx.filter fun p => u.convertsImplicitly p.1).map (·.2)

/-- The derived members of a union, under the options in effect for it. -/
def derive (u : Union) (tags : List UInt32) (mappings : List CaseMapping) : DerivedMembers :=
  let options := u.options.effectiveFor u.refLike
  { equality := if options.generateEquality then some (u.equalityPlan mappings) else none
    text := if options.generateText then some u.textPlan else none
    matching := if options.generateMatch then some (u.matchPlan tags) else none
    typeUnion := if u.kind = .types then some (u.typeUnionPlan options) else none }

end Union

end SumLayout
