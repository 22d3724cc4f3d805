import SumLayout.Options
import SumLayout.Shape

/-!
# Classification

How a value may be stored follows from the shape of its type and the options, in two steps. The
first picks a **candidate**; the second takes it back where the options do not allow it. The
second step is a chain, since what one downgrade answers the next may take back again:

1. overlapping becomes sharing by type, unless overlapping is on and permitted;
2. taking apart becomes sharing by type, unless it is on;
3. sharing as a reference becomes sharing by type, unless it is on;
4. sharing by type becomes a field of one's own, unless it is on.

Overlapping is *permitted* when the layout at hand has an overlap region. A shape that may either
overlap or be taken apart decides between the two already as a candidate, because what it falls
back on is being taken apart.
-/

namespace SumLayout

/-- How a value is stored. -/
inductive StorageClass where
  /-- In the overlap region. -/
  | overlappable
  /-- In a field shared with values of the same type. -/
  | sameType
  /-- In a field shared with any reference. -/
  | reference
  /-- Not as a whole, but member by member. -/
  | decomposable
  /-- In a field of its own. -/
  | unique
  deriving DecidableEq, Repr

namespace StorageClass

/-- The label of a class in listings. -/
def label : StorageClass → String
  | overlappable => "Overlappable"
  | sameType => "SameTypeSharable"
  | reference => "ReferenceSharable"
  | decomposable => "Decomposable"
  | unique => "Unique"

/-- What a composite declared elsewhere, which cannot overlap, is a candidate for. -/
def foreignCandidate (o : Options) : StorageClass :=
  if o.decomposeForeignStructs then decomposable else sameType

/-- The first step: what a shape is a candidate for. -/
def candidate (o : Options) (permitted : Bool) : Shape → StorageClass
  | .typeParam | .typeParamVal | .nonOverlapSafeStruct | .unknown | .refLike => sameType
  | .nonOverlapSafeTuple | .decomposableLocalRecord => decomposable
  | .decomposableForeignRecord => foreignCandidate o
  | .reference | .interface | .object | .typeParamRef => reference
  | .primitive | .overlapSafeLocalStruct | .overlapSafeLocalRecord => overlappable
  | .overlapSafeForeignStruct | .overlapSafeForeignRecord =>
    if o.overlapForeignStructs then overlappable else sameType
  | .overlapSafeTuple | .overlapDecomposableLocalRecord =>
    if o.overlapStructs && permitted then overlappable else decomposable
  | .overlapDecomposableForeignRecord =>
    if o.overlapStructs && o.overlapForeignStructs && permitted then overlappable
    else foreignCandidate o

/-- The class `k` becomes `lesser` unless it is allowed; other classes stay. -/
def downgrade (k lesser : StorageClass) (allowed : Bool) (c : StorageClass) : StorageClass :=
  if c = k ∧ allowed = false then lesser else c

/-- The class of a shape under options, for a layout with or without an overlap region. -/
def ofShape (o : Options) (permitted : Bool) (s : Shape) : StorageClass :=
  candidate o permitted s
    |> downgrade overlappable sameType (permitted && o.overlapStructs)
    |> downgrade decomposable sameType o.decomposeStructs
    |> downgrade reference sameType o.shareReferences
    |> downgrade sameType unique o.shareSameType

end StorageClass

end SumLayout
