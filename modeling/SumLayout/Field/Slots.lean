import SumLayout.Field
import SumLayout.Text.Lowercase

/-!
# Sharing fields between cases

A **slot** is a field on the union. Since a union holds one case at a time, a slot may serve one
value of each case, and a case *claims* the slots that it uses. A request names the kind of field
wanted; it is met by the first slot, in order of declaration, that the case has not claimed yet and
that suits the kind, and otherwise by a new slot at the end.

* A `sameType` request is met by a slot of exactly its type, unless that slot is `unique`.
* A `reference` request is met by any `reference` slot. Where the types differ, the slot is widened
  to the type of any reference.
* `unique` and `overlappable` requests are never met by an existing slot.

A slot that is claimed again loses the name of its first user: the slot at position `i` becomes
`shared(i+1)`.
-/

namespace SumLayout

/-- The fields declared so far, the slots among them, and the slots that the case at hand uses. -/
structure Slots where
  /-- All fields, regions and their contents included. -/
  fields : List Field := []
  /-- The slots, in order of declaration. -/
  slots : List FieldId := []
  /-- The slots that the current case has claimed. -/
  claims : List FieldId := []
  deriving DecidableEq, Repr

namespace Slots

/-- Declare a field that is not a slot. Its id is the number of fields before it. -/
def push (s : Slots) (f : Field) : FieldId × Slots :=
  (s.fields.length, { s with fields := s.fields ++ [f] })

/-- Start on the next case: every slot is free again. -/
def newCase (s : Slots) : Slots := { s with claims := [] }

/-- Whether a slot suits a request for a value of type `typeName`. -/
def suits (kind : FieldKind) (typeName : String) (f : Field) : Bool :=
  match kind with
  | .sameType => f.kind != .unique && f.typeName == typeName
  | .reference => f.kind == .reference
  | .overlappable | .unique => false

/-- Whether the slot with a given id is free and suits a request. -/
def isMatch (s : Slots) (kind : FieldKind) (typeName : String) (id : FieldId) : Bool :=
  !s.claims.contains id && (s.fields[id]?).any (suits kind typeName)

/-- The name of the argument of a shared slot, by its position. -/
def sharedName (position : Nat) : String := "shared" ++ toString (position + 1)

/-- A slot as it is once another case has claimed it for a value of type `typeName`. -/
def shareAs (typeName : String) (position : Nat) (f : Field) : Field :=
  { f with
    typeName := if f.typeName = typeName then f.typeName else Field.anyReference
    name := Field.dataName (sharedName position)
    argument := some (sharedName position) }

/-- Claim an existing slot. -/
def claim (s : Slots) (typeName : String) (position : Nat) (id : FieldId) : Slots :=
  { s with fields := s.fields.modify id (shareAs typeName position), claims := id :: s.claims }

/-- Declare a new slot and claim it. -/
def declare (s : Slots) (kind : FieldKind) (argument typeName : String) : FieldId × Slots :=
  let id := s.fields.length
  (id,
    { fields := s.fields ++ [Field.onUnion kind (Text.lowerFirst argument) typeName]
      slots := s.slots ++ [id]
      claims := id :: s.claims })

/-- Meet a request: the first free slot that suits it, or a new one. -/
def findOrDeclare (s : Slots) (kind : FieldKind) (argument typeName : String) : FieldId × Slots :=
  match s.slots.zipIdx.find? (fun p => s.isMatch kind typeName p.1) with
  | some (id, position) => (id, s.claim typeName position id)
  | none => s.declare kind argument typeName

end Slots

end SumLayout
