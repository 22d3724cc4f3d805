import SumLayout.Proofs.JsonText

/-!
# Reading strings and numbers

A string is read back from any way of writing it (`readStringBody_of_written`), and a whole number
of at most 64 bits from its digits (`Number.read_toDigits`).
-/

namespace SumLayout.Json

variable {s t : List Char} {c : Char}

/-! ## Characters -/

theorem hexValue?_of_isHexDigit {d : Nat} (hd : d < 16) (h : IsHexDigit d c) :
    hexValue? c = some d := by
  have hall : ∀ e ∈ List.range 16, hexValue? e.digitChar = some e ∧
      hexValue? e.digitChar.toUpper = some e := by decide
  obtain ⟨hsmall, hcapital⟩ := hall d (List.mem_range.mpr hd)
  rcases h with rfl | rfl
  · exact hsmall
  · exact hcapital

/-- **Four digits are read as the number that they were written for.** -/
theorem readHex_of_written {n : Nat} (h : HexWritten s n t) : readHex s = .ok (n, t) := by
  obtain ⟨hn, ha, hb, hc, hd⟩ := h
  rename_i a b c d
  have hbytes : ¬byteCount [a, b, c, d] < 4 := by
    have h1 := a.utf8Size_pos
    have h2 := b.utf8Size_pos
    have h3 := c.utf8Size_pos
    have h4 := d.utf8Size_pos
    simp only [byteCount, List.foldr_cons, List.foldr_nil]
    omega
  have htake : (a :: b :: c :: d :: t).take 4 = [a, b, c, d] := rfl
  rw [readHex, htake, if_neg hbytes]
  simp only [hexValue?_of_isHexDigit (by omega) ha, hexValue?_of_isHexDigit (by omega) hb,
    hexValue?_of_isHexDigit (by omega) hc, hexValue?_of_isHexDigit (by omega) hd,
    Except.ok.injEq, Prod.mk.injEq, and_true]
  omega

/-- A character of the basic plane is not half of a pair. -/
theorem not_surrogate (c : Char) : isTrailing c.toNat = false ∧ isLeading c.toNat = false := by
  have hvalid : c.toNat < 0xD800 ∨ 0xDFFF < c.toNat ∧ c.toNat < 0x110000 := c.valid
  simp only [isTrailing, isLeading, Bool.and_eq_false_iff, decide_eq_false_iff_not]
  omega

theorem readCodePoint_of_unit (h : HexWritten s c.toNat t) : readCodePoint s = .ok (c, t) := by
  obtain ⟨htrailing, hleading⟩ := not_surrogate c
  rw [readCodePoint, readHex_of_written h]
  simp [htrailing, hleading, Char.ofNat_toNat]

theorem readCodePoint_of_pair {s' : List Char} (hc : 0x10000 ≤ c.toNat)
    (hl : HexWritten s (0xD800 + (c.toNat - 0x10000) / 0x400) ('\\' :: 'u' :: s'))
    (ht : HexWritten s' (0xDC00 + (c.toNat - 0x10000) % 0x400) t) :
    readCodePoint s = .ok (c, t) := by
  have hvalid : c.toNat < 0xD800 ∨ 0xDFFF < c.toNat ∧ c.toNat < 0x110000 := c.valid
  have hlead : isTrailing (0xD800 + (c.toNat - 0x10000) / 0x400) = false ∧
      isLeading (0xD800 + (c.toNat - 0x10000) / 0x400) = true := by
    simp only [isTrailing, isLeading, Bool.and_eq_false_iff, Bool.and_eq_true,
      decide_eq_false_iff_not, decide_eq_true_eq]
    omega
  have htrail : isTrailing (0xDC00 + (c.toNat - 0x10000) % 0x400) = true := by
    simp only [isTrailing, Bool.and_eq_true, decide_eq_true_eq]
    omega
  have hsum : 0x10000 + (0xD800 + (c.toNat - 0x10000) / 0x400 - 0xD800) * 0x400
      + (0xDC00 + (c.toNat - 0x10000) % 0x400 - 0xDC00) = c.toNat := by omega
  rw [readCodePoint, readHex_of_written hl]
  simp only [hlead, Bool.false_eq_true, if_false, if_true]
  rw [readTrailing, readHex_of_written ht]
  simp only [htrail, if_true, hsum, Char.ofNat_toNat]

/-- What comes after a backslash is read as the character that it was written for. -/
theorem readEscape_of_short {l : Char} (h : (l, c) ∈ shortEscapes) :
    readEscape (l :: t) = .ok (c, t) := by
  have hall : ∀ p ∈ shortEscapes, p.1 ≠ 'u' ∧ shortEscape? p.1 = some p.2 := by decide
  obtain ⟨hne, hl⟩ := hall _ h
  rw [readEscape, if_neg hne, hl]

theorem readEscape_of_codePoint (h : readCodePoint s = .ok (c, t)) :
    readEscape ('u' :: s) = .ok (c, t) := by
  rw [readEscape, if_pos rfl, h]

theorem readChars_of_escape (h : readEscape s = .ok (c, t)) :
    readChars ('\\' :: s) = (readChars t).map fun r => (c :: r.1, r.2) := by
  rw [readChars]
  split
  · next e he => exact absurd (h.symm.trans he) (by simp)
  · next d rest he =>
    rw [h, Except.ok.injEq, Prod.mk.injEq] at he
    rw [he.1, he.2]

/-- **A character is read from each way of writing it.** -/
theorem readChars_of_char (h : CharWritten s c t) :
    readChars s = (readChars t).map fun r => (c :: r.1, r.2) := by
  cases h with
  | plain printable notQuote notBackslash =>
    have hcontrol : ¬c.toNat < 0x20 := Nat.not_lt.mpr printable
    rw [readChars, if_neg hcontrol]
    · exact notQuote
    · exact notBackslash
  | short h => exact readChars_of_escape (readEscape_of_short h)
  | unit h => exact readChars_of_escape (readEscape_of_codePoint (readCodePoint_of_unit h))
  | pair outside leading trailing =>
    exact readChars_of_escape
      (readEscape_of_codePoint (readCodePoint_of_pair outside leading trailing))

theorem HexWritten.length_lt {n : Nat} (h : HexWritten s n t) : t.length < s.length := by
  cases h
  simp only [List.length_cons]
  omega

theorem CharWritten.length_lt (h : CharWritten s c t) : t.length < s.length := by
  cases h with
  | plain => exact Nat.lt_succ_self _
  | short =>
    simp only [List.length_cons]
    omega
  | unit h =>
    have hlt := h.length_lt
    simp only [List.length_cons]
    omega
  | pair _ leading trailing =>
    have hlead := leading.length_lt
    have htrail := trailing.length_lt
    simp only [List.length_cons] at hlead ⊢
    omega

/-- **A string is read from each way of writing it.** -/
theorem readChars_of_written {cs : List Char} (h : CharsWritten s cs t) :
    readChars s = .ok (cs, t) ∧ t.length < s.length := by
  induction h with
  | close =>
    rw [readChars]
    exact ⟨rfl, Nat.lt_succ_self _⟩
  | char first _ ih =>
    rw [readChars_of_char first, ih.1]
    exact ⟨rfl, Nat.lt_trans ih.2 first.length_lt⟩

theorem readStringBody_of_written {x : String} (h : CharsWritten s x.toList t) :
    readStringBody s = .ok (x, t) := by
  rw [readStringBody, (readChars_of_written h).1]
  simp [Except.map]

/-! ## Numbers -/

theorem ne_of_isDigit {d : Char} (hc : c.isDigit = true) (hd : d.isDigit = false) : c ≠ d := by
  rintro rfl
  exact absurd (hc.symm.trans hd) (by decide)

/-- The digits of a number begin with a digit. -/
theorem exists_toDigits (n : Nat) :
    ∃ c cs, Nat.toDigits 10 n = c :: cs ∧ ∀ d ∈ c :: cs, d.isDigit = true := by
  cases hd : Nat.toDigits 10 n with
  | nil => exact absurd hd Nat.toDigits_ne_nil
  | cons c cs =>
    exact ⟨c, cs, rfl, fun d hmem =>
      Nat.isDigit_of_mem_toDigits (by decide) (by decide) (hd ▸ hmem)⟩

namespace Number

theorem le_ofDigitChars (cs : List Char) (n : Nat) : n ≤ Nat.ofDigitChars 10 cs n := by
  rw [Nat.ofDigitChars_eq_ofDigitChars_zero]
  have hpos : 0 < 10 ^ cs.length := Nat.pow_pos (by decide)
  exact Nat.le_add_right_of_le (Nat.le_mul_of_pos_left _ hpos)

/-- All digits of a number that fits are taken. -/
theorem absorb_of_le (cs : List Char) : ∀ n, Nat.ofDigitChars 10 cs n ≤ largest →
    absorb n cs = (Nat.ofDigitChars 10 cs n, cs.length) := by
  induction cs with
  | nil =>
    intro n _
    rw [absorb, Nat.ofDigitChars_nil, List.length_nil]
  | cons c cs ih =>
    intro n h
    have hvalue : 10 * n + (c.toNat - '0'.toNat) = n * 10 + digitValue c := by
      rw [Nat.mul_comm, digitValue]
    rw [Nat.ofDigitChars_cons, hvalue] at h
    have hle : n * 10 + digitValue c ≤ largest := Nat.le_trans (le_ofDigitChars cs _) h
    rw [absorb, Nat.ofDigitChars_cons, hvalue]
    simp only [if_pos hle, ih _ h, List.length_cons]

/-- Only zero is written with a zero in front. -/
theorem head?_toDigits_ne {n : Nat} (hn : 0 < n) : (Nat.toDigits 10 n).head? ≠ some '0' := by
  induction n using Nat.strongRecOn with
  | ind n ih =>
    by_cases hlt : n < 10
    · rw [Nat.toDigits_of_lt_base hlt]
      simp [Nat.ne_of_gt hn]
    · rw [Nat.toDigits_of_base_le (by decide) (Nat.le_of_not_lt hlt), List.head?_append]
      have hrest := ih (n / 10) (by omega) (by omega)
      cases hd : Nat.toDigits 10 (n / 10) with
      | nil => exact absurd hd Nat.toDigits_ne_nil
      | cons c cs => simpa [hd] using hrest

/-- Where a value ends, there is no digit and nothing else that a number could go on with. -/
theorem isDigit_of_ends (h : Ends t) : ∀ c ∈ t.head?,
    c.isDigit = false ∧ c ≠ '.' ∧ c ≠ 'e' ∧ c ≠ 'E' := by
  have hall : ∀ c ∈ [' ', '\n', '\t', '\r', ',', ']', '\x7d'],
      c.isDigit = false ∧ c ≠ '.' ∧ c ≠ 'e' ∧ c ≠ 'E' := by simp
  exact fun c hc => hall c (h c hc)

theorem span_digits {cs : List Char} (hcs : ∀ c ∈ cs, c.isDigit = true) (ht : Ends t) :
    (cs ++ t).takeWhile Char.isDigit = cs ∧ (cs ++ t).dropWhile Char.isDigit = t := by
  rw [List.takeWhile_append_of_pos hcs, List.dropWhile_append_of_pos hcs]
  cases t with
  | nil => simp
  | cons c t =>
    have hc := (isDigit_of_ends ht c rfl).1
    rw [List.takeWhile_cons_of_neg (by simp [hc]), List.dropWhile_cons_of_neg (by simp [hc]),
      List.append_nil]
    exact ⟨rfl, rfl⟩

theorem afterWhole_of_ends (ht : Ends t) (digits : Nat) :
    afterWhole false digits 0 t = .ok (.whole digits, t) := by
  cases t with
  | nil => rfl
  | cons c t =>
    obtain ⟨-, hpoint, he, hE⟩ := isDigit_of_ends ht c rfl
    rw [afterWhole, if_pos rfl]
    · rfl
    · exact fun _ hs => hpoint (List.cons.inj hs).1
    · exact fun _ hs => he (List.cons.inj hs).1
    · exact fun _ hs => hE (List.cons.inj hs).1

/-- **A whole number is read from its digits.** -/
theorem read_toDigits {n : Nat} (hn : n ≤ largest) (ht : Ends t) :
    read false (Nat.toDigits 10 n ++ t) = .ok (.whole n, t) := by
  rcases Nat.eq_zero_or_pos n with rfl | hpos
  · have hnone : (t.head?).any Char.isDigit = false := by
      cases t with
      | nil => rfl
      | cons c t => exact (isDigit_of_ends ht c rfl).1
    rw [Nat.toDigits_zero, List.singleton_append, read, hnone]
    exact afterWhole_of_ends ht 0
  · have hhead := head?_toDigits_ne hpos
    have habsorb := absorb_of_le (Nat.toDigits 10 n) 0 (by rwa [Nat.ofDigitChars_ten_toDigits])
    rw [Nat.ofDigitChars_ten_toDigits] at habsorb
    obtain ⟨c, cs, hcs, hdigits⟩ := exists_toDigits n
    obtain ⟨hc, hrest⟩ := List.forall_mem_cons.mp hdigits
    obtain ⟨htake, hdrop⟩ := span_digits hrest ht
    rw [hcs] at hhead habsorb ⊢
    rw [List.cons_append, read]
    · simp only [hc, if_true, htake, hdrop, habsorb, Nat.sub_self]
      exact afterWhole_of_ends ht n
    · rintro rfl
      exact hhead rfl

end Number

end SumLayout.Json
