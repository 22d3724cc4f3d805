import SumLayout.Mapping

/-!
# Storage and what is read from it

A union's storage holds a tag, one value per slot, and in the overlap region **only what was
written there last**: reading anything else from the region is invalid. The arguments that fill the
storage may be anything (`α`); what is read back is a `Content α`, built from arguments by records,
tuples and groupings.

With names for arguments, contents are expressions, and running a construction and a read on them is
a symbolic check of the two.
-/

namespace SumLayout

/-- What is read from storage. -/
inductive Content (α : Type) where
  /-- A value that was stored as a whole. -/
  | leaf (a : α)
  | record (typeName : String) (members : List (Content α))
  | tuple (members : List (Content α))
  | grouping (typeName : String) (members : List (Content α))
  | singleton (typeName accessor : String)
  | flag (b : Bool)
  /-- The default of the field's type. -/
  | vacant
  /-- Storage that holds something else. -/
  | invalid
  deriving Repr

namespace Content

variable {α : Type}

mutual

/-- Whether two contents are the same. -/
def same [DecidableEq α] : Content α → Content α → Bool
  | leaf a, leaf b => a = b
  | record t ms, record t' ms' => t = t' && sameAll ms ms'
  | tuple ms, tuple ms' => sameAll ms ms'
  | grouping t ms, grouping t' ms' => t = t' && sameAll ms ms'
  | singleton t a, singleton t' a' => t = t' && a = a'
  | flag b, flag b' => b = b'
  | vacant, vacant => true
  | invalid, invalid => true
  | _, _ => false

/-- Whether two lists of contents are the same. -/
def sameAll [DecidableEq α] : List (Content α) → List (Content α) → Bool
  | [], [] => true
  | c :: cs, d :: ds => same c d && sameAll cs ds
  | _, _ => false

end

mutual

theorem same_iff [DecidableEq α] : ∀ c d : Content α, same c d = true ↔ c = d
  | leaf _, d => by cases d <;> simp [same]
  | record _ ms, d => by cases d <;> simp [same, sameAll_iff ms]
  | tuple ms, d => by cases d <;> simp [same, sameAll_iff ms]
  | grouping _ ms, d => by cases d <;> simp [same, sameAll_iff ms]
  | singleton _ _, d => by cases d <;> simp [same]
  | flag _, d => by cases d <;> simp [same]
  | vacant, d => by cases d <;> simp [same]
  | invalid, d => by cases d <;> simp [same]

theorem sameAll_iff [DecidableEq α] : ∀ cs ds : List (Content α), sameAll cs ds = true ↔ cs = ds
  | [], ds => by cases ds <;> simp [sameAll]
  | c :: cs, ds => by cases ds <;> simp [sameAll, same_iff c, sameAll_iff cs]

end

instance [DecidableEq α] : DecidableEq (Content α) := fun c d =>
  decidable_of_iff _ (same_iff c d)

/-- What the read of a case yields when the union holds another case. -/
def isInactive : Content α → Bool
  | vacant | flag false => true
  | _ => false

mutual

/-- A content as text, for contents made of named arguments. -/
def text : Content String → String
  | leaf name => name
  | record typeName members | grouping typeName members =>
    typeName ++ "(" ++ Text.joinWith ", " (texts members) ++ ")"
  | tuple members => "(" ++ Text.joinWith ", " (texts members) ++ ")"
  | singleton typeName accessor => typeName ++ "." ++ accessor
  | flag true => "true"
  | flag false => "false"
  | vacant => "default"
  | invalid => "<invalid>"

/-- Some contents as text. -/
def texts : List (Content String) → List String
  | [] => []
  | c :: cs => c.text :: texts cs

end

end Content

/-- What the overlap region holds. -/
inductive Alternative (α : Type) where
  /-- A single leaf. -/
  | leaf (field : FieldId) (value : α)
  /-- The region of a case. -/
  | region (region : FieldId) (values : List (FieldId × α))
  deriving DecidableEq, Repr

/-- The storage of a union after a call of its constructor. -/
structure Storage (α : Type) where
  tag : UInt32
  /-- The field that is the overlap region. -/
  overlapField : Option FieldId
  /-- What was written to the slots, the latest first; a slot that the case does not use holds
  nothing. -/
  slots : List (FieldId × Option α)
  /-- What the overlap region holds. -/
  overlap : Option (Alternative α)
  deriving DecidableEq, Repr

namespace Storage

variable {α : Type}

/-- Do one write, where `arg` gives the argument at a path. -/
def write (arg : List String → α) (s : Storage α) (w : FieldId × WriteExpr) : Storage α :=
  match w.2 with
  | .argument path => { s with slots := (w.1, some (arg path)) :: s.slots }
  | .vacant =>
    if s.overlapField = some w.1 then { s with overlap := none }
    else { s with slots := (w.1, none) :: s.slots }
  | .overlap field path => { s with overlap := some (.leaf field (arg path)) }
  | .region region fields =>
    { s with overlap := some (.region region (fields.map fun f => (f.1, arg f.2)).reverse) }

/-- The storage that a call of the constructor leaves behind. -/
def construct (l : Layout) (arg : List String → α) (c : Construction) : Storage α :=
  c.writes.foldl (write arg) ⟨c.tag, l.overlap, [], none⟩

/-- What a slot holds. -/
def readSlot (s : Storage α) (id : FieldId) : Content α :=
  match s.slots.lookup id with
  | some (some a) => .leaf a
  | some none => .vacant
  | none => .invalid

/-- What a field in the overlap region holds, given by the path inside the region. -/
def readOverlap (s : Storage α) : List FieldId → Content α
  | [id] =>
    match s.overlap with
    | some (.leaf field value) => if id = field then .leaf value else .invalid
    | _ => .invalid
  | [own, id] =>
    match s.overlap with
    | some (.region region values) =>
      if own = region then
        match values.lookup id with
        | some value => .leaf value
        | none => .invalid
      else .invalid
    | _ => .invalid
  | _ => .invalid

/-- What the field at the end of a path holds. -/
def readPath (s : Storage α) : List FieldId → Content α
  | [] => .invalid
  | [id] => s.readSlot id
  | overlap :: rest => if s.overlapField = some overlap then s.readOverlap rest else .invalid

mutual

/-- The content that an expression reads. -/
def eval (s : Storage α) : ReadExpr → Content α
  | .field path => s.readPath path
  | .narrow _ inner => s.eval inner
  | .record typeName members => .record typeName (s.evalAll members)
  | .tuple members => .tuple (s.evalAll members)
  | .grouping typeName members => .grouping typeName (s.evalAll members)
  | .singleton typeName accessor => .singleton typeName accessor

/-- The contents that some expressions read. -/
def evalAll (s : Storage α) : List ReadExpr → List (Content α)
  | [] => []
  | r :: rs => s.eval r :: s.evalAll rs

end

/-- The content that the read of a case yields. -/
def read (s : Storage α) : CaseRead → Content α
  | .guarded tag value => if tag = s.tag then s.eval value else .vacant
  | .isCase tag => .flag (tag = s.tag)

end Storage

end SumLayout
