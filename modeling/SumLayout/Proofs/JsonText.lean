import SumLayout.Json.Reader

/-!
# How JSON is written

What a text says is a tree (`Tree`), and one tree can be written in many ways: with blanks between
tokens, with escapes in strings, with the fields of an object in any order. `Written s j t` says
that `s` begins with some way of writing `j` and goes on with `t`; it follows the grammar of JSON
and knows nothing of readers. Of numbers, only those without sign, fraction and exponent are needed.

The grammar gives what comes after a value no say in where the value ends. Numbers need it: they go
on for as long as there are digits. What follows a value in a whole text does end it (`Ends`).
-/

namespace SumLayout.Json

/-- What a JSON text says. -/
inductive Tree where
  | null
  | bool (b : Bool)
  | number (n : Nat)
  | string (x : String)
  | list (items : List Tree)
  /-- An object with its fields in the order in which they are written. -/
  | object (fields : List (String × Tree))

namespace Tree

mutual

/-- The number of lists and objects that are nested in each other. -/
def depth : Tree → Nat
  | list items => depthItems items + 1
  | object fields => depthFields fields + 1
  | null | bool _ | number _ | string _ => 0

def depthItems : List Tree → Nat
  | [] => 0
  | j :: js => max j.depth (depthItems js)

def depthFields : List (String × Tree) → Nat
  | [] => 0
  | (_, j) :: fs => max j.depth (depthFields fs)

end

theorem depth_le_depthItems {items : List Tree} {j : Tree} (h : j ∈ items) :
    j.depth ≤ depthItems items := by
  induction items with
  | nil => exact absurd h List.not_mem_nil
  | cons i is ih =>
    rw [depthItems]
    rcases List.mem_cons.mp h with rfl | h
    · exact Nat.le_max_left _ _
    · exact Nat.le_trans (ih h) (Nat.le_max_right _ _)

theorem depth_le_depthFields {fields : List (String × Tree)} {f : String × Tree} (h : f ∈ fields) :
    f.2.depth ≤ depthFields fields := by
  induction fields with
  | nil => exact absurd h List.not_mem_nil
  | cons g gs ih =>
    rw [depthFields]
    rcases List.mem_cons.mp h with rfl | h
    · exact Nat.le_max_left _ _
    · exact Nat.le_trans (ih h) (Nat.le_max_right _ _)

end Tree

/-! ## Blanks -/

/-- After some blanks, `s` goes on with `t`. -/
inductive Blanks : List Char → List Char → Prop
  | none (s : List Char) : Blanks s s
  | blank {c : Char} {s t : List Char} (h : c ∈ [' ', '\n', '\t', '\r']) (rest : Blanks s t) :
    Blanks (c :: s) t

/-! ## Strings -/

/-- `c` is the hexadecimal digit with value `d`, small or capital. -/
def IsHexDigit (d : Nat) (c : Char) : Prop := c = d.digitChar ∨ c = d.digitChar.toUpper

/-- A number of 16 bits, written with four hexadecimal digits. -/
inductive HexWritten : List Char → Nat → List Char → Prop
  | digits {n : Nat} {a b c d : Char} {t : List Char} (small : n < 0x10000)
    (first : IsHexDigit (n / 0x1000) a) (second : IsHexDigit (n / 0x100 % 16) b)
    (third : IsHexDigit (n / 0x10 % 16) c) (fourth : IsHexDigit (n % 16) d) :
    HexWritten (a :: b :: c :: d :: t) n t

/-- The letters that stand for a character after a backslash. -/
def shortEscapes : List (Char × Char) :=
  [('"', '"'), ('\\', '\\'), ('/', '/'), ('b', '\x08'), ('f', '\x0c'), ('n', '\n'), ('r', '\r'),
   ('t', '\t')]

/-- A character in a string. -/
inductive CharWritten : List Char → Char → List Char → Prop
  | plain {c : Char} {t : List Char} (printable : 0x20 ≤ c.toNat) (notQuote : c ≠ '"')
    (notBackslash : c ≠ '\\') : CharWritten (c :: t) c t
  | short {l c : Char} {t : List Char} (h : (l, c) ∈ shortEscapes) :
    CharWritten ('\\' :: l :: t) c t
  | unit {c : Char} {s t : List Char} (h : HexWritten s c.toNat t) :
    CharWritten ('\\' :: 'u' :: s) c t
  /-- Two surrogates stand for a character outside the basic plane. -/
  | pair {c : Char} {s s' t : List Char} (outside : 0x10000 ≤ c.toNat)
    (leading : HexWritten s (0xD800 + (c.toNat - 0x10000) / 0x400) ('\\' :: 'u' :: s'))
    (trailing : HexWritten s' (0xDC00 + (c.toNat - 0x10000) % 0x400) t) :
    CharWritten ('\\' :: 'u' :: s) c t

/-- The characters of a string with the closing quote. -/
inductive CharsWritten : List Char → List Char → List Char → Prop
  | close {t : List Char} : CharsWritten ('"' :: t) [] t
  | char {s s' t : List Char} {c : Char} {cs : List Char} (first : CharWritten s c s')
    (rest : CharsWritten s' cs t) : CharsWritten s (c :: cs) t

/-! ## Lists and objects -/

section Items

variable {α : Type} (W : List Char → α → List Char → Prop) (opening closing : Char)

/-- What follows an item: more items, each after a comma, and the closing bracket. -/
inductive TailWritten : List Char → List α → List Char → Prop
  | close {s t : List Char} (blanks : Blanks s (closing :: t)) : TailWritten s [] t
  | comma {s s₁ s₂ s₃ t : List Char} {a : α} {as : List α} (blanks : Blanks s (',' :: s₁))
    (blanks' : Blanks s₁ s₂) (item : W s₂ a s₃) (rest : TailWritten s₃ as t) :
    TailWritten s (a :: as) t

/-- Items in brackets, with commas between them. -/
inductive ItemsWritten : List Char → List α → List Char → Prop
  | none {s t : List Char} (blanks : Blanks s (closing :: t)) : ItemsWritten (opening :: s) [] t
  | some {s s₁ s₂ t : List Char} {a : α} {as : List α} (blanks : Blanks s s₁) (item : W s₁ a s₂)
    (rest : TailWritten W closing s₂ as t) : ItemsWritten (opening :: s) (a :: as) t

/-- The key and the value of a field. -/
inductive FieldWritten : List Char → String × α → List Char → Prop
  | field {key : String} {s s₁ s₂ s₃ t : List Char} {a : α} (chars : CharsWritten s key.toList s₁)
    (blanks : Blanks s₁ (':' :: s₂)) (blanks' : Blanks s₂ s₃) (value : W s₃ a t) :
    FieldWritten ('"' :: s) (key, a) t

end Items

/-- The text `s` begins with the tree `j`, written in some way, and goes on with `t`. -/
inductive Written : List Char → Tree → List Char → Prop
  | null {t : List Char} : Written ('n' :: 'u' :: 'l' :: 'l' :: t) .null t
  | boolTrue {t : List Char} : Written ('t' :: 'r' :: 'u' :: 'e' :: t) (.bool true) t
  | boolFalse {t : List Char} : Written ('f' :: 'a' :: 'l' :: 's' :: 'e' :: t) (.bool false) t
  | number (n : Nat) {t : List Char} : Written (Nat.toDigits 10 n ++ t) (.number n) t
  | string {x : String} {s t : List Char} (chars : CharsWritten s x.toList t) :
    Written ('"' :: s) (.string x) t
  | list {items : List Tree} {s t : List Char} (brackets : ItemsWritten Written '[' ']' s items t) :
    Written s (.list items) t
  | object {fields : List (String × Tree)} {s t : List Char}
    (braces : ItemsWritten (FieldWritten Written) '\x7b' '\x7d' s fields t) :
    Written s (.object fields) t

/-- A value ends where `t` begins: at a blank, a comma, a closing bracket or the end of the text. -/
def Ends (t : List Char) : Prop :=
  ∀ c ∈ t.head?, c ∈ [' ', '\n', '\t', '\r', ',', ']', '\x7d']

/-- A whole text that says `j`. -/
def IsText (s : List Char) (j : Tree) : Prop :=
  ∃ s₁ s₂, Blanks s s₁ ∧ Written s₁ j s₂ ∧ Blanks s₂ []

/-! ## Every tree can be written -/

/-- A character as it stands in a string, escaped if it has to be. -/
def charText (c : Char) : List Char :=
  if 0x20 ≤ c.toNat ∧ c ≠ '"' ∧ c ≠ '\\' then [c]
  else ['\\', 'u', '0', '0', (c.toNat / 0x10).digitChar, (c.toNat % 0x10).digitChar]

def stringText (x : String) : List Char := '"' :: x.toList.flatMap charText ++ ['"']

namespace Tree

mutual

/-- The tree without blanks and with no more escapes than are needed. -/
def text : Tree → List Char
  | null => ['n', 'u', 'l', 'l']
  | bool true => ['t', 'r', 'u', 'e']
  | bool false => ['f', 'a', 'l', 's', 'e']
  | number n => Nat.toDigits 10 n
  | string x => stringText x
  | list [] => ['[', ']']
  | list (j :: js) => '[' :: j.text ++ itemsText js
  | object [] => ['\x7b', '\x7d']
  | object ((key, j) :: fs) => '\x7b' :: stringText key ++ ':' :: j.text ++ fieldsText fs

/-- What follows an item of a list. -/
def itemsText : List Tree → List Char
  | [] => [']']
  | j :: js => ',' :: j.text ++ itemsText js

/-- What follows a field of an object. -/
def fieldsText : List (String × Tree) → List Char
  | [] => ['\x7d']
  | (key, j) :: fs => ',' :: stringText key ++ ':' :: j.text ++ fieldsText fs

end

end Tree

theorem charWritten_text (c : Char) (t : List Char) : CharWritten (charText c ++ t) c t := by
  rw [charText]
  split
  · next h => exact .plain h.1 h.2.1 h.2.2
  · next h =>
    have hsmall : c.toNat < 0x100 := by
      by_cases hq : c = '"'
      · rw [hq]
        decide
      · by_cases hb : c = '\\'
        · rw [hb]
          decide
        · have hlt : c.toNat < 0x20 := Nat.lt_of_not_le fun hle => h ⟨hle, hq, hb⟩
          omega
    have hfirst : c.toNat / 0x1000 = 0 := by omega
    have hsecond : c.toNat / 0x100 % 16 = 0 := by omega
    have hthird : c.toNat / 0x10 % 16 = c.toNat / 0x10 := by omega
    exact .unit (.digits (by omega) (.inl (by rw [hfirst]; rfl)) (.inl (by rw [hsecond]; rfl))
      (.inl (by rw [hthird])) (.inl rfl))

theorem charsWritten_text (cs t : List Char) :
    CharsWritten (cs.flatMap charText ++ '"' :: t) cs t := by
  induction cs with
  | nil => exact .close
  | cons c cs ih =>
    rw [List.flatMap_cons, List.append_assoc]
    exact .char (charWritten_text c _) ih

theorem fieldWritten_text {key : String} {j : Tree} {t : List Char}
    (h : Written (j.text ++ t) j t) :
    FieldWritten Written (stringText key ++ ':' :: j.text ++ t) (key, j) t := by
  rw [stringText, List.append_assoc, List.append_assoc]
  exact .field (charsWritten_text _ _) (.none _) (.none _) h

mutual

theorem written_text (t : List Char) : ∀ j : Tree, Written (j.text ++ t) j t
  | .null => .null
  | .bool true => .boolTrue
  | .bool false => .boolFalse
  | .number n => .number n
  | .string x => by
    rw [Tree.text, stringText, List.append_assoc, List.cons_append]
    exact .string (charsWritten_text _ t)
  | .list [] => .list (.none (.none _))
  | .list (j :: js) => by
    rw [Tree.text, List.append_assoc]
    exact .list (.some (.none _) (written_text _ j) (tailWritten_items t js))
  | .object [] => .object (.none (.none _))
  | .object ((key, j) :: fs) => by
    rw [Tree.text, List.append_assoc]
    exact .object
      (.some (.none _) (fieldWritten_text (written_text _ j)) (tailWritten_fields t fs))

theorem tailWritten_items (t : List Char) : ∀ js : List Tree,
    TailWritten Written ']' (Tree.itemsText js ++ t) js t
  | [] => .close (.none _)
  | j :: js => by
    rw [Tree.itemsText, List.append_assoc]
    exact .comma (.none _) (.none _) (written_text _ j) (tailWritten_items t js)

theorem tailWritten_fields (t : List Char) : ∀ fs : List (String × Tree),
    TailWritten (FieldWritten Written) '\x7d' (Tree.fieldsText fs ++ t) fs t
  | [] => .close (.none _)
  | (key, j) :: fs => by
    rw [Tree.fieldsText, List.append_assoc]
    exact .comma (.none _) (.none _) (fieldWritten_text (written_text _ j))
      (tailWritten_fields t fs)

end

/-- **Each tree can be written.** -/
theorem isText_text (j : Tree) : IsText j.text j := by
  have hw := written_text [] j
  rw [List.append_nil] at hw
  exact ⟨_, _, .none _, hw, .none _⟩

/-! ## Records -/

/-- A part of a record, written as a field of an object. -/
structure Part where
  key : String
  /-- The part has its default, so that the field may be left out. -/
  isDefault : Prop
  /-- The trees that say what the part is. -/
  writes : Tree → Prop

namespace Part

/-- A part that is always written. -/
def always (key : String) (writes : Tree → Prop) : Part := ⟨key, False, writes⟩

/-- A part that may be left out if it has its default. -/
def orLeftOut (key : String) (isDefault : Prop) (writes : Tree → Prop) : Part :=
  ⟨key, isDefault, writes⟩

/-- A part that may be left out, or be null, if it has its default. -/
def orNull (key : String) (isDefault : Prop) (writes : Tree → Prop) : Part :=
  ⟨key, isDefault, fun j => writes j ∨ isDefault ∧ j = .null⟩

/-- A part that may be missing, and is then left out or null. -/
def option {α : Type} (key : String) (writes : α → Tree → Prop) (x : Option α) : Part :=
  orNull key (x = none) fun j => ∃ a, x = some a ∧ writes a j

end Part

/-- Fields that say what the parts of a record are, in any order; only defaults are left out. -/
structure HaveParts (parts : List Part) (fields : List (String × Tree)) : Prop where
  nodup : (fields.map (·.1)).Nodup
  known : ∀ f ∈ fields, ∃ p ∈ parts, p.key = f.1 ∧ p.writes f.2
  complete : ∀ p ∈ parts, p.isDefault ∨ p.key ∈ fields.map (·.1)

/-- The tree is an object that says what the parts of a record are. -/
def Tree.IsRecord (parts : List Part) (j : Tree) : Prop :=
  ∃ fields, j = .object fields ∧ HaveParts parts fields

end SumLayout.Json
