import SumLayout.Json.Error

/-!
# Strings

The characters of a string are read up to its closing quote. Characters outside the basic plane are
escaped as two surrogates, and a surrogate without its partner is refused.
-/

namespace SumLayout.Json

/-- The value of a hexadecimal digit. -/
def hexValue? (c : Char) : Option Nat :=
  if '0' ≤ c ∧ c ≤ '9' then some (c.toNat - '0'.toNat)
  else if 'a' ≤ c ∧ c ≤ 'f' then some (c.toNat - 'a'.toNat + 10)
  else if 'A' ≤ c ∧ c ≤ 'F' then some (c.toNat - 'A'.toNat + 10)
  else none

/-- The number of bytes of some characters. -/
def byteCount (s : List Char) : Nat := s.foldr (fun c n => c.utf8Size + n) 0

/-- Read the four digits of an escape. They are taken as four bytes, so a text has ended if it has
fewer than four bytes left. -/
def readHex (s : List Char) : Except Error (Nat × List Char) :=
  if byteCount (s.take 4) < 4 then .error (.ended .string)
  else match s with
    | a :: b :: c :: d :: rest =>
      match hexValue? a, hexValue? b, hexValue? c, hexValue? d with
      | some a, some b, some c, some d => .ok (((a * 16 + b) * 16 + c) * 16 + d, rest)
      | _, _, _, _ => .error (.malformed .invalidEscape)
    | _ => .error (.malformed .invalidEscape)

/-- Whether a code unit is the first of two surrogates. -/
def isLeading (n : Nat) : Bool := 0xD800 ≤ n && n ≤ 0xDBFF

/-- Whether a code unit is the second of two surrogates. -/
def isTrailing (n : Nat) : Bool := 0xDC00 ≤ n && n ≤ 0xDFFF

/-- Read the second surrogate and put the two together. -/
def readTrailing (leading : Nat) (s : List Char) : Except Error (Char × List Char) :=
  match readHex s with
  | .error e => .error e
  | .ok (n, rest) =>
    if isTrailing n then
      .ok (Char.ofNat (0x10000 + (leading - 0xD800) * 0x400 + (n - 0xDC00)), rest)
    else .error (.malformed .loneSurrogate)

/-- Read the digits of an escape and the character that they stand for. -/
def readCodePoint (s : List Char) : Except Error (Char × List Char) :=
  match readHex s with
  | .error e => .error e
  | .ok (n, rest) =>
    if isTrailing n then .error (.malformed .loneSurrogate)
    else if isLeading n then
      match rest with
      | '\\' :: 'u' :: rest => readTrailing n rest
      | [] | ['\\'] => .error (.ended .string)
      | _ => .error (.malformed .unfinishedSurrogate)
    else .ok (Char.ofNat n, rest)

/-- The character that a letter stands for after a backslash. -/
def shortEscape? : Char → Option Char
  | '"' => some '"'
  | '\\' => some '\\'
  | '/' => some '/'
  | 'b' => some '\x08'
  | 'f' => some '\x0c'
  | 'n' => some '\n'
  | 'r' => some '\r'
  | 't' => some '\t'
  | _ => none

/-- Read an escape after its backslash. -/
def readEscape : List Char → Except Error (Char × List Char)
  | [] => .error (.ended .string)
  | c :: s =>
    if c = 'u' then readCodePoint s
    else match shortEscape? c with
      | some d => .ok (d, s)
      | none => .error (.malformed .invalidEscape)

theorem readHex_length {s rest : List Char} {n : Nat} (h : readHex s = .ok (n, rest)) :
    rest.length < s.length := by
  unfold readHex at h
  split at h
  · simp at h
  · split at h
    · split at h
      · cases h
        simp only [List.length_cons]
        omega
      · simp at h
    · simp at h

theorem readTrailing_length {k : Nat} {s rest : List Char} {c : Char}
    (h : readTrailing k s = .ok (c, rest)) : rest.length < s.length := by
  unfold readTrailing at h
  split at h
  · simp at h
  · next n r hr =>
    split at h
    · simp only [Except.ok.injEq, Prod.mk.injEq] at h
      exact h.2 ▸ readHex_length hr
    · simp at h

theorem readCodePoint_length {s rest : List Char} {c : Char}
    (h : readCodePoint s = .ok (c, rest)) : rest.length < s.length := by
  unfold readCodePoint at h
  split at h
  · simp at h
  · next n r hr =>
    have hs := readHex_length hr
    split at h
    · simp at h
    · split at h
      · split at h
        · have ht := readTrailing_length h
          simp only [List.length_cons] at hs
          omega
        all_goals simp at h
      · cases h
        exact hs

/-- Reading an escape takes at least one character. -/
theorem readEscape_length {s rest : List Char} {c : Char} (h : readEscape s = .ok (c, rest)) :
    rest.length < s.length := by
  cases s with
  | nil => simp [readEscape] at h
  | cons d s =>
    simp only [readEscape] at h
    split at h
    · have := readCodePoint_length h
      simp only [List.length_cons]
      omega
    · split at h
      · cases h
        simp
      · simp at h

/-- Read the characters of a string after its opening quote, with the closing one. -/
def readChars : List Char → Except Error (List Char × List Char)
  | [] => .error (.ended .string)
  | '"' :: s => .ok ([], s)
  | '\\' :: s =>
    match _h : readEscape s with
    | .error e => .error e
    | .ok (c, rest) => (readChars rest).map fun r => (c :: r.1, r.2)
  | c :: s =>
    if c.toNat < 0x20 then .error (.malformed .controlCharacter)
    else (readChars s).map fun r => (c :: r.1, r.2)
termination_by s => s.length
decreasing_by
  · have := readEscape_length _h
    simp only [List.length_cons]
    omega
  · simp

/-- Read a string after its opening quote. -/
def readStringBody (s : List Char) : Except Error (String × List Char) :=
  (readChars s).map fun r => (String.ofList r.1, r.2)

end SumLayout.Json
