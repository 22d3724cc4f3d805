/-!
# Options of a union

Ten toggles say how storage may be shared and which helper members are generated; two names say
how the discriminant is presented. An option set is a plain record of Booleans (`Flags`), and
`Flags.get` and `Flags.set` treat it as a function from toggles. The packed form, one bit per
toggle (`Flags.bits`), exists because option sets are also given as numbers; bits that belong to
no toggle are dropped (`Flags.ofBits`).

**Packing loses nothing:** `Flags.ofBits_bits`.
-/

namespace SumLayout

/-- A switch of an option set. -/
inductive Toggle where
  /-- Fields of one type may be shared between cases. -/
  | shareSameType
  /-- Fields of any reference type may be shared between cases. -/
  | shareReferences
  /-- Plain data may lie in the overlap region. -/
  | overlapStructs
  /-- Plain data declared elsewhere may lie in the overlap region. -/
  | overlapForeignStructs
  /-- Composites may be replaced by their members. -/
  | decomposeStructs
  /-- Composites declared elsewhere may be replaced by their members. -/
  | decomposeForeignStructs
  /-- Generate equality. -/
  | generateEquality
  /-- Generate the text form. -/
  | generateText
  /-- Generate exhaustive matching helpers. -/
  | generateMatch
  /-- Use the runtime support toolkit. -/
  | useToolkit
  deriving DecidableEq, Repr

namespace Toggle

/-- Every toggle, in the order of declaration. -/
def all : List Toggle :=
  [shareSameType, shareReferences, overlapStructs, overlapForeignStructs, decomposeStructs,
   decomposeForeignStructs, generateEquality, generateText, generateMatch, useToolkit]

/-- The key of a toggle in input files. -/
def key : Toggle → String
  | shareSameType => "share_same_type_fields"
  | shareReferences => "share_reference_fields"
  | overlapStructs => "overlap_structs"
  | overlapForeignStructs => "overlap_foreign_structs"
  | decomposeStructs => "decompose_structs"
  | decomposeForeignStructs => "decompose_foreign_structs"
  | generateEquality => "generate_equality"
  | generateText => "generate_to_string"
  | generateMatch => "generate_match"
  | useToolkit => "use_toolkit"

/-- The toggle with a given key. -/
def ofKey? (s : String) : Option Toggle :=
  all.find? (·.key == s)

/-- The bit of a toggle, as a number. The storage toggles fill the low byte from below, the
generation toggles the high byte. -/
def weight : Toggle → Nat
  | shareSameType => 0x001
  | shareReferences => 0x002
  | overlapStructs => 0x004
  | overlapForeignStructs => 0x008
  | decomposeStructs => 0x010
  | decomposeForeignStructs => 0x020
  | generateEquality => 0x100
  | generateText => 0x200
  | generateMatch => 0x400
  | useToolkit => 0x800

end Toggle

/-- A setting for every toggle. By default all are on but the overlap of foreign data. -/
structure Flags where
  shareSameType : Bool := true
  shareReferences : Bool := true
  overlapStructs : Bool := true
  overlapForeignStructs : Bool := false
  decomposeStructs : Bool := true
  decomposeForeignStructs : Bool := true
  generateEquality : Bool := true
  generateText : Bool := true
  generateMatch : Bool := true
  useToolkit : Bool := true
  deriving DecidableEq, Repr

namespace Flags

/-- Whether a toggle is on. -/
def get (f : Flags) : Toggle → Bool
  | .shareSameType => f.shareSameType
  | .shareReferences => f.shareReferences
  | .overlapStructs => f.overlapStructs
  | .overlapForeignStructs => f.overlapForeignStructs
  | .decomposeStructs => f.decomposeStructs
  | .decomposeForeignStructs => f.decomposeForeignStructs
  | .generateEquality => f.generateEquality
  | .generateText => f.generateText
  | .generateMatch => f.generateMatch
  | .useToolkit => f.useToolkit

/-- The flags that answer as `p` does. -/
def ofFn (p : Toggle → Bool) : Flags where
  shareSameType := p .shareSameType
  shareReferences := p .shareReferences
  overlapStructs := p .overlapStructs
  overlapForeignStructs := p .overlapForeignStructs
  decomposeStructs := p .decomposeStructs
  decomposeForeignStructs := p .decomposeForeignStructs
  generateEquality := p .generateEquality
  generateText := p .generateText
  generateMatch := p .generateMatch
  useToolkit := p .useToolkit

@[simp] theorem get_ofFn (p : Toggle → Bool) (t : Toggle) : (ofFn p).get t = p t := by
  cases t <;> rfl

@[simp] theorem ofFn_get (f : Flags) : ofFn f.get = f := rfl

@[ext] theorem ext_get {f g : Flags} (h : ∀ t, f.get t = g.get t) : f = g := by
  rw [← ofFn_get f, ← ofFn_get g, funext h]

/-- Switch one toggle. -/
def set (f : Flags) (t : Toggle) (on : Bool) : Flags :=
  ofFn fun u => if u = t then on else f.get u

theorem get_set (f : Flags) (t u : Toggle) (on : Bool) :
    (f.set t on).get u = if u = t then on else f.get u := by
  simp [set]

/-- Switch every toggle that is on in `mask`. -/
def assign (f mask : Flags) (on : Bool) : Flags :=
  ofFn fun t => if mask.get t then on else f.get t

/-- Whether every toggle of `mask` is on. -/
def contains (f mask : Flags) : Bool :=
  Toggle.all.all fun t => !mask.get t || f.get t

/-- The packed form: one bit per toggle. -/
def bits (f : Flags) : Nat :=
  Toggle.all.foldl (fun n t => if f.get t then n + t.weight else n) 0

/-- The flags of a packed form. Bits that belong to no toggle are dropped. -/
def ofBits (n : Nat) : Flags :=
  ofFn fun t => n / t.weight % 2 == 1

/-- **Packing loses nothing.** -/
theorem ofBits_bits (f : Flags) : ofBits f.bits = f := by
  have h : ∀ a b c d e f g h i j : Bool,
      ofBits (bits ⟨a, b, c, d, e, f, g, h, i, j⟩) = ⟨a, b, c, d, e, f, g, h, i, j⟩ := by
    decide +kernel
  exact h _ _ _ _ _ _ _ _ _ _

end Flags

/-- The options of one union: its flags and the names of its discriminant. -/
structure Options extends Flags where
  /-- The name of the discriminant's type. -/
  tagTypeName : String := "Case"
  /-- The name of the discriminant's property. -/
  tagPropertyName : String := "Kind"
  deriving DecidableEq, Repr

namespace Options

/-- Switch one toggle. -/
def set (o : Options) (t : Toggle) (on : Bool) : Options :=
  { o with toFlags := o.toFlags.set t on }

/-- The options in effect for a union. A stack-only union can be neither boxed nor a generic
argument, so it has no equality, no text form and no toolkit; matching stays available. -/
def effectiveFor (o : Options) (refLike : Bool) : Options :=
  if refLike then
    { o with generateEquality := false, generateText := false, useToolkit := false }
  else o

end Options

end SumLayout
