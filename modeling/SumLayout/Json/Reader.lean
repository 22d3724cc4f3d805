import SumLayout.Json.Chars
import SumLayout.Json.Number

/-!
# Typed reading of JSON

A reader takes a value of one type off the front of a text and gives back the rest. Readers are put
together from readers: of strings, Booleans and words, of lists, of records and of enumerations.

What a record is made of is data (`Record`): its fields in order, each with its key, whether it must
be there, and the reader of its value. A record is written as an object, or as the list of its
fields in order, in which fields at the end may be left out.

* **The first thing that is wrong is reported**, and a value of another type is known by its first
  token: a word, a number or a string is read to its end, of a list or an object the bracket is
  enough.
* Lists and objects may be nested to a depth below `depth`. A list or an object that is opened with
  less than two levels left is refused, so that depth is a measure for the readers of nested values.
-/

namespace SumLayout.Json

/-- A reader takes a value off the front of a text. -/
abbrev Reader (α : Type) : Type := List Char → Except Error (α × List Char)

/-- The depth of nesting that a text may have, counted from one above. -/
def maxDepth : Nat := 128

/-- Blanks between tokens. -/
def isBlank (c : Char) : Bool := c == ' ' || c == '\n' || c == '\t' || c == '\r'

/-- A text without the blanks at its front. -/
def skipBlanks (s : List Char) : List Char := s.dropWhile isBlank

/-- Read the rest of a word whose first letter has been read. -/
def readWord : List Char → Reader Unit
  | [], s => .ok ((), s)
  | _ :: _, [] => .error (.ended .value)
  | c :: cs, d :: s => if c = d then readWord cs s else .error (.malformed .misspeltWord)

/-- The error for a value that is not `expected`, from the front of the text. Its own token comes
first: what is wrong in there is reported instead. -/
def mismatch (expected : String) (s : List Char) : Error :=
  let unfit {α : Type} (found : α → Found) : Except Error (α × List Char) → Error
    | .error e => e
    | .ok (a, _) => .invalidType (found a) expected
  match s with
  | [] => .malformed .expectedValue
  | c :: rest =>
    if c = 'n' then unfit (fun _ => .null) (readWord "ull".toList rest)
    else if c = 't' then unfit (fun _ => .bool true) (readWord "rue".toList rest)
    else if c = 'f' then unfit (fun _ => .bool false) (readWord "alse".toList rest)
    else if c = '-' then unfit .number (Number.read true rest)
    else if c.isDigit then unfit .number (Number.read false s)
    else if c = '"' then unfit .string (readStringBody rest)
    else if c = '[' then .invalidType .list expected
    else if c = '\x7b' then .invalidType .object expected
    else .malformed .expectedValue

/-! ## Values without parts -/

/-- Read a string. -/
def string : Reader String := fun s =>
  match skipBlanks s with
  | [] => .error (.ended .value)
  | '"' :: rest => readStringBody rest
  | s => .error (mismatch "a string" s)

/-- Read a Boolean. -/
def bool : Reader Bool := fun s =>
  match skipBlanks s with
  | [] => .error (.ended .value)
  | 't' :: rest => (readWord "rue".toList rest).map fun r => (true, r.2)
  | 'f' :: rest => (readWord "alse".toList rest).map fun r => (false, r.2)
  | s => .error (mismatch "a boolean" s)

/-- Take a number as a word of 32 bits. -/
def wordOf : Number → Except Error UInt32
  | .whole n =>
    if 0 ≤ n ∧ n < 0x100000000 then .ok n.toNat.toUInt32
    else .error (.invalidValue (.number (.whole n)) "u32")
  | .double x => .error (.invalidType (.number (.double x)) "u32")

/-- Read a number and take it as a word of 32 bits. -/
def readWordOf (negative : Bool) (s : List Char) : Except Error (UInt32 × List Char) :=
  match Number.read negative s with
  | .error e => .error e
  | .ok (n, rest) => (wordOf n).map (·, rest)

/-- Read a word of 32 bits. -/
def word : Reader UInt32 := fun s =>
  match skipBlanks s with
  | [] => .error (.ended .value)
  | '-' :: rest => readWordOf true rest
  | c :: rest => if c.isDigit then readWordOf false (c :: rest) else .error (mismatch "u32" (c :: rest))

/-- Read nothing but a null. -/
def unit : Reader Unit := fun s =>
  match skipBlanks s with
  | [] => .error (.ended .value)
  | 'n' :: rest => readWord "ull".toList rest
  | s => .error (mismatch "unit" s)

/-- Read a value or a null. -/
def optional {α : Type} (item : Reader α) : Reader (Option α) := fun s =>
  match skipBlanks s with
  | 'n' :: rest => (readWord "ull".toList rest).map fun r => (none, r.2)
  | s => (item s).map fun r => (some r.1, r.2)

/-! ## Lists -/

/-- Go to the next element of a list; there is none where the list is closed. -/
def nextElement (isFirst : Bool) (s : List Char) : Except Error (Option (List Char)) :=
  match skipBlanks s with
  | [] => .error (.ended .list)
  | ']' :: _ => .ok none
  | c :: rest =>
    if isFirst then .ok (some (c :: rest))
    else if c = ',' then
      match skipBlanks rest with
      | [] => .error (.ended .value)
      | ']' :: _ => .error (.malformed .trailingComma)
      | s => .ok (some s)
    else .error (.malformed .expectedCommaInList)

/-- Read the end of a list. -/
def closeList (s : List Char) : Except Error (List Char) :=
  match skipBlanks s with
  | [] => .error (.ended .list)
  | ']' :: rest => .ok rest
  | ',' :: rest =>
    match skipBlanks rest with
    | ']' :: _ => .error (.malformed .trailingComma)
    | _ => .error (.malformed .trailingCharacters)
  | _ => .error (.malformed .trailingCharacters)

/-- Read the elements of a list up to its closing bracket. An item that takes nothing ends the list,
as it would be read for ever. -/
def elements {α : Type} (item : Reader α) (isFirst : Bool) (s : List Char) :
    Except Error (List α × List Char) :=
  match nextElement isFirst s with
  | .error e => .error e
  | .ok none => (closeList s).map fun rest => ([], rest)
  | .ok (some start) =>
    match item start with
    | .error e => .error e
    | .ok (a, rest) =>
      if rest.length < s.length then
        (elements item false rest).map fun r => (a :: r.1, r.2)
      else .error (.malformed .expectedValue)
termination_by s.length

/-- Read a list. -/
def list {α : Type} (depth : Nat) (item : Reader α) : Reader (List α) := fun s =>
  match skipBlanks s with
  | [] => .error (.ended .value)
  | '[' :: rest =>
    if depth < 2 then .error (.malformed .tooDeep) else elements item true rest
  | s => .error (mismatch "a sequence" s)

/-! ## Objects -/

/-- Go to the next key of an object; there is none where the object is closed. -/
def nextKey (isFirst : Bool) (s : List Char) : Except Error (Option (List Char)) :=
  match skipBlanks s with
  | [] => .error (.ended .object)
  | '\x7d' :: _ => .ok none
  | c :: rest =>
    if isFirst then
      if c = '"' then .ok (some rest) else .error (.malformed .keyNotString)
    else if c = ',' then
      match skipBlanks rest with
      | [] => .error (.ended .value)
      | '"' :: rest => .ok (some rest)
      | '\x7d' :: _ => .error (.malformed .trailingComma)
      | _ => .error (.malformed .keyNotString)
    else .error (.malformed .expectedCommaInObject)

/-- Read the end of an object. -/
def closeObject (s : List Char) : Except Error (List Char) :=
  match skipBlanks s with
  | [] => .error (.ended .object)
  | '\x7d' :: rest => .ok rest
  | ',' :: _ => .error (.malformed .trailingComma)
  | _ => .error (.malformed .trailingCharacters)

/-- Read the colon after a key. -/
def colon (s : List Char) : Except Error (List Char) :=
  match skipBlanks s with
  | [] => .error (.ended .object)
  | ':' :: rest => .ok rest
  | _ => .error (.malformed .expectedColon)

/-! ## Enumerations -/

/-- The constant with a given name. -/
def variant {α : Type} (variants : List (String × α)) (name : String) : Except Error α :=
  match variants.lookup name with
  | some a => .ok a
  | none => .error (.unknownVariant name (variants.map (·.1)))

/-- Read the key of the only entry of an object that stands for a constant. An object without an
entry lacks a value. -/
def variantKey : Reader String := fun s =>
  match skipBlanks s with
  | [] => .error (.ended .value)
  | '"' :: rest => readStringBody rest
  | '\x7d' :: _ => .error (.malformed .expectedValue)
  | _ => .error (.malformed .keyNotString)

/-- Read the only entry of an object that stands for a constant: its name with a null. -/
def variantEntry {α : Type} (variants : List (String × α)) (s : List Char) :
    Except Error (α × List Char) := do
  let (name, s) ← variantKey s
  let a ← variant variants name
  let ((), s) ← unit (← colon s)
  match skipBlanks s with
  | [] => .error (.ended .object)
  | '\x7d' :: rest => .ok (a, rest)
  | _ => .error (.malformed .expectedValue)

/-- Read a constant: its name, or an object whose only key is the name. -/
def enum {α : Type} (depth : Nat) (variants : List (String × α)) : Reader α := fun s =>
  match skipBlanks s with
  | [] => .error (.ended .value)
  | '"' :: rest => do
    let (name, rest) ← readStringBody rest
    let a ← variant variants name
    return (a, rest)
  | '\x7b' :: rest =>
    if depth < 2 then .error (.malformed .tooDeep) else variantEntry variants rest
  | _ => .error (.malformed .expectedValue)

/-! ## Records -/

/-- A field of a record of type `ρ`. -/
structure Entry (ρ : Type) where
  key : String
  /-- The field cannot be left out. -/
  isRequired : Bool
  /-- Read the value of the field; what comes back puts it into a record. -/
  read : Reader (ρ → ρ)

/-- A field that cannot be left out. -/
def Entry.required {ρ β : Type} (key : String) (item : Reader β) (put : β → ρ → ρ) : Entry ρ where
  key := key
  isRequired := true
  read := fun s => (item s).map fun r => (put r.1, r.2)

/-- A field that can be left out. -/
def Entry.defaulted {ρ β : Type} (key : String) (item : Reader β) (put : β → ρ → ρ) : Entry ρ where
  key := key
  isRequired := false
  read := fun s => (item s).map fun r => (put r.1, r.2)

/-- What a record is made of. -/
structure Record (ρ : Type) where
  name : String
  /-- The fields in order. -/
  entries : List (Entry ρ)
  /-- The record before any field has been read. -/
  blank : ρ

namespace Record

variable {ρ : Type}

/-- The name of the record in errors. -/
def expected (r : Record ρ) : String := "struct " ++ r.name

/-- The name of the record in errors on its length. -/
def expectedLength (r : Record ρ) : String :=
  r.expected ++ " with " ++ toString r.entries.length
    ++ if r.entries.length = 1 then " element" else " elements"

/-- The field with a given key, unless it has been read already. -/
def entry (r : Record ρ) (seen : List String) (key : String) : Except Error (Entry ρ) :=
  match r.entries.find? (·.key == key) with
  | none => .error (.unknownField key (r.entries.map (·.key)))
  | some e => if seen.contains key then .error (.duplicateField key) else .ok e

/-- The first field that cannot be left out and has not been read. -/
def missing? (r : Record ρ) (seen : List String) : Option (Entry ρ) :=
  r.entries.find? fun e => e.isRequired && !seen.contains e.key

/-- Finish an object whose keys are `seen`. -/
def finish (r : Record ρ) (seen : List String) (a : ρ) (s : List Char) :
    Except Error (ρ × List Char) :=
  match r.missing? seen with
  | some e => .error (.missingField e.key)
  | none => (closeObject s).map fun rest => (a, rest)

/-- Read the key and the value of one field. -/
def readField (r : Record ρ) (seen : List String) (s : List Char) :
    Except Error ((String × (ρ → ρ)) × List Char) := do
  let (key, s) ← readStringBody s
  let e ← r.entry seen key
  let (put, rest) ← e.read (← colon s)
  return ((key, put), rest)

/-- Read the fields of an object up to its closing brace. -/
def readFields (r : Record ρ) (isFirst : Bool) (seen : List String) (a : ρ) (s : List Char) :
    Except Error (ρ × List Char) :=
  match nextKey isFirst s with
  | .error e => .error e
  | .ok none => r.finish seen a s
  | .ok (some start) =>
    match r.readField seen start with
    | .error e => .error e
    | .ok ((key, put), rest) =>
      if rest.length < s.length then r.readFields false (key :: seen) (put a) rest
      else .error (.malformed .expectedValue)
termination_by s.length

/-- Read the fields of a list in order. The first of `entries` is the field at position `i`. Once
the list is closed, the fields that are left take their defaults. -/
def readRow (r : Record ρ) (i : Nat) (a : ρ) (s : List Char) :
    List (Entry ρ) → Except Error (ρ × List Char)
  | [] => (closeList s).map fun rest => (a, rest)
  | e :: es =>
    match nextElement (i == 0) s with
    | .error err => .error err
    | .ok none =>
      if e.isRequired then .error (.invalidLength i r.expectedLength)
      else r.readRow (i + 1) a s es
    | .ok (some start) =>
      match e.read start with
      | .error err => .error err
      | .ok (put, rest) => r.readRow (i + 1) (put a) rest es

/-- Read a record: an object or a list of its fields. -/
def read (depth : Nat) (r : Record ρ) : Reader ρ := fun s =>
  match skipBlanks s with
  | [] => .error (.ended .value)
  | '[' :: rest =>
    if depth < 2 then .error (.malformed .tooDeep) else r.readRow 0 r.blank rest r.entries
  | '\x7b' :: rest =>
    if depth < 2 then .error (.malformed .tooDeep) else r.readFields true [] r.blank rest
  | s => .error (mismatch r.expected s)

end Record

/-- Read a whole text: one value, and nothing after it but blanks. -/
def document {α : Type} (item : Reader α) (s : List Char) : Except Error α :=
  match item s with
  | .error e => .error e
  | .ok (a, rest) =>
    if (skipBlanks rest).isEmpty then .ok a else .error (.malformed .trailingCharacters)

end SumLayout.Json
