import Mathlib.Data.List.Forall2
import SumLayout.Proofs.JsonScalars

/-!
# Readers read what is written

`Reads r j x` says that the reader `r` gives `x` for **every** way of writing the tree `j`. Readers
are put together from readers, and so are the proofs: `reads_optional` from the reader of the value,
and `reads_list` from the readers of the elements.
-/

namespace SumLayout.Json

variable {α : Type} {s s' t : List Char}

/-! ## Blanks -/

theorem Blanks.length_le (h : Blanks s t) : t.length ≤ s.length := by
  induction h with
  | none => exact Nat.le_refl _
  | blank _ _ ih => exact Nat.le_succ_of_le ih

theorem Blanks.ends (h : Blanks s t) (ht : Ends t) : Ends s := by
  cases h with
  | none => exact ht
  | blank hc =>
    rintro _ ⟨⟩
    exact List.mem_append_left [',', ']', '\x7d'] hc

/-- **Blanks are skipped** up to a token. -/
theorem Blanks.skip (h : Blanks s t) (ht : ∀ c ∈ t.head?, isBlank c = false) :
    skipBlanks s = t := by
  induction h with
  | none s =>
    cases s with
    | nil => rfl
    | cons c s => rw [skipBlanks, List.dropWhile_cons_of_neg (by simp [ht c rfl])]
  | blank hc _ ih =>
    have hblank : ∀ c ∈ [' ', '\n', '\t', '\r'], isBlank c = true := by simp [isBlank]
    rw [skipBlanks, List.dropWhile_cons_of_pos (hblank _ hc)]
    exact ih ht

/-! ## The first character of a value -/

/-- A character that a value can begin with. -/
structure IsFirst (j : Tree) (c : Char) : Prop where
  token : isBlank c = false
  noList : c ≠ ']'
  noObject : c ≠ '\x7d'
  null : c = 'n' → j = .null

theorem isFirst_of_isDigit {c : Char} (h : c.isDigit = true) (j : Tree) : IsFirst j c := by
  have hne : ∀ d : Char, d.isDigit = false → c ≠ d := fun _ => ne_of_isDigit h
  refine ⟨?_, hne _ (by decide), hne _ (by decide), fun hn => absurd hn (hne _ (by decide))⟩
  simp [isBlank, hne ' ' (by decide), hne '\n' (by decide), hne '\t' (by decide),
    hne '\r' (by decide)]

theorem isFirst_of_mem {c : Char} (h : c ∈ ['t', 'f', '"', '[', '\x7b']) (j : Tree) :
    IsFirst j c := by
  have hall : ∀ c ∈ ['t', 'f', '"', '[', '\x7b'],
      isBlank c = false ∧ c ≠ ']' ∧ c ≠ '\x7d' ∧ c ≠ 'n' := by simp [isBlank]
  obtain ⟨htoken, hlist, hobject, hn⟩ := hall c h
  exact ⟨htoken, hlist, hobject, fun he => absurd he hn⟩

theorem Written.first {j : Tree} (h : Written s j t) : ∃ c s', s = c :: s' ∧ IsFirst j c := by
  cases h with
  | null => exact ⟨_, _, rfl, by decide, by decide, by decide, fun _ => rfl⟩
  | number n =>
    obtain ⟨c, cs, hcs, hdigits⟩ := exists_toDigits n
    rw [hcs]
    exact ⟨c, cs ++ t, rfl, isFirst_of_isDigit (hdigits c List.mem_cons_self) _⟩
  | list brackets | object brackets =>
    cases brackets <;> exact ⟨_, _, rfl, isFirst_of_mem (by decide) _⟩
  | _ => exact ⟨_, _, rfl, isFirst_of_mem (by decide) _⟩

/-- Blanks before a value are skipped. -/
theorem Written.skip {j : Tree} (h : Written s' j t) (hb : Blanks s s') : skipBlanks s = s' := by
  obtain ⟨c, r, rfl, hc⟩ := h.first
  refine hb.skip fun d hd => ?_
  rw [List.head?_cons, Option.mem_some_iff] at hd
  exact hd ▸ hc.token

/-! ## Values without parts -/

/-- The reader gives `x` for every way of writing `j`, and reads no further. -/
def Reads (r : Reader α) (j : Tree) (x : α) : Prop :=
  ∀ s s' t, Blanks s s' → Written s' j t → Ends t → r s = .ok (x, t) ∧ t.length < s'.length

theorem reads_string (x : String) : Reads string (.string x) x := by
  intro s s' t hb hw _
  have hskip := hw.skip hb
  cases hw with
  | string chars =>
    rw [string, hskip]
    exact ⟨readStringBody_of_written chars,
      Nat.lt_succ_of_lt (readChars_of_written chars).2⟩

theorem reads_bool (b : Bool) : Reads bool (.bool b) b := by
  intro s s' t hb hw _
  have hskip := hw.skip hb
  cases hw with
  | boolTrue =>
    rw [bool, hskip]
    refine ⟨rfl, ?_⟩
    simp only [List.length_cons]
    omega
  | boolFalse =>
    rw [bool, hskip]
    refine ⟨rfl, ?_⟩
    simp only [List.length_cons]
    omega

theorem wordOf_toNat (n : UInt32) : wordOf (.whole n.toNat) = .ok n := by
  have hn : n.toNat < 0x100000000 := n.toNat_lt
  have hin : (0 : Int) ≤ n.toNat ∧ (n.toNat : Int) < 0x100000000 := by omega
  rw [wordOf, if_pos hin]
  simp

theorem word_of_isDigit {c : Char} (hs : skipBlanks s = c :: t) (hc : c.isDigit = true) :
    word s = readWordOf false (c :: t) := by
  rw [word, hs]
  split
  · next he => simp at he
  · next he => exact absurd (List.cons.inj he).1 (ne_of_isDigit hc (by decide))
  · next he =>
    obtain ⟨rfl, rfl⟩ := List.cons.inj he
    rw [if_pos hc]

theorem reads_word (n : UInt32) : Reads word (.number n.toNat) n := by
  intro s s' t hb hw ht
  have hskip := hw.skip hb
  cases hw with
  | number =>
    have hlargest : n.toNat ≤ Number.largest := by
      have hn : n.toNat < 0x100000000 := n.toNat_lt
      rw [Number.largest]
      omega
    have hread := Number.read_toDigits hlargest ht
    obtain ⟨c, cs, hcs, hdigits⟩ := exists_toDigits n.toNat
    rw [hcs, List.cons_append] at hskip hread ⊢
    rw [word_of_isDigit hskip (hdigits c List.mem_cons_self), readWordOf, hread]
    simp only [wordOf_toNat, List.length_cons, List.length_append]
    exact ⟨rfl, by omega⟩

/-- **A value that may be null is read as its reader does.** -/
theorem reads_optional {item : Reader α} {j : Tree} {x : α} (h : Reads item j x)
    (hj : j ≠ .null) : Reads (optional item) j (some x) := by
  intro s s' t hb hw ht
  have hskip := hw.skip hb
  obtain ⟨hread, hlt⟩ := h s' s' t (.none _) hw ht
  obtain ⟨c, r, rfl, hc⟩ := hw.first
  refine ⟨?_, hlt⟩
  rw [optional, hskip]
  split
  · next hn => exact absurd (hc.null (List.cons.inj hn).1) hj
  · rw [hread]
    rfl

theorem reads_optional_null (item : Reader α) : Reads (optional item) .null none := by
  intro s s' t hb hw _
  have hskip := hw.skip hb
  cases hw with
  | null =>
    rw [optional, hskip]
    refine ⟨rfl, ?_⟩
    simp only [List.length_cons]
    omega

/-- A constant is read from its name. -/
theorem reads_enum (depth : Nat) {variants : List (String × α)} {name : String} {x : α}
    (h : variants.lookup name = some x) : Reads (enum depth variants) (.string name) x := by
  intro s s' t hb hw _
  have hskip := hw.skip hb
  cases hw with
  | string chars =>
    rw [enum, hskip]
    refine ⟨?_, Nat.lt_succ_of_lt (readChars_of_written chars).2⟩
    have hvariant : variant variants name = .ok x := by rw [variant, h]
    simp only [readStringBody_of_written chars]
    show (do let a ← variant variants name; return (a, t)) = _
    rw [hvariant]
    rfl

/-! ## Lists -/

theorem skipBlanks_of_token {c : Char} (h : Blanks s (c :: t)) (hc : isBlank c = false) :
    skipBlanks s = c :: t :=
  h.skip fun d hd => by rw [Option.mem_some_iff.mp hd] at hc; exact hc

/-- What follows an item ends it. -/
theorem TailWritten.ends {W : List Char → α → List Char → Prop} {closing : Char} {as : List α}
    (h : TailWritten W closing s as t) (hc : closing = ']' ∨ closing = '\x7d') : Ends s := by
  have hends : ∀ {c : Char} {r : List Char}, c ∈ [',', ']', '\x7d'] → Ends (c :: r) := by
    rintro c r hc _ ⟨⟩
    exact List.mem_append_right [' ', '\n', '\t', '\r'] hc
  cases h with
  | close blanks =>
    refine blanks.ends (hends ?_)
    rcases hc with rfl | rfl <;> decide
  | comma blanks => exact blanks.ends (hends (by decide))

section List

variable {item : Reader α} {js : List Tree} {xs : List α} {x : α} {isFirst : Bool}

theorem elements_close (h : Blanks s (']' :: t)) : elements item isFirst s = .ok ([], t) := by
  have hskip := skipBlanks_of_token h (by decide)
  have hnext : nextElement isFirst s = .ok none := by
    rw [nextElement, hskip]
    rfl
  have hclose : closeList s = .ok t := by
    rw [closeList, hskip]
    rfl
  rw [elements, hnext]
  simp only [hclose]
  rfl

theorem nextElement_first {j : Tree} (hb : Blanks s s') (hw : Written s' j t) :
    nextElement true s = .ok (some s') := by
  rw [nextElement, hw.skip hb]
  obtain ⟨c, r, rfl, hc⟩ := hw.first
  split
  · next he => simp at he
  · next he => exact absurd (List.cons.inj he).1 hc.noList
  · next he =>
    rw [if_pos rfl, he]

theorem nextElement_comma {j : Tree} {s₁ : List Char} (hb : Blanks s (',' :: s₁))
    (hb' : Blanks s₁ s') (hw : Written s' j t) : nextElement false s = .ok (some s') := by
  have hskip := hw.skip hb'
  obtain ⟨c, r, rfl, hc⟩ := hw.first
  simp [nextElement, skipBlanks_of_token hb (by decide), hskip, hc.noList]

theorem elements_item {start rest : List Char} (hnext : nextElement isFirst s = .ok (some start))
    (hitem : item start = .ok (x, rest)) (hlt : rest.length < s.length) :
    elements item isFirst s = (elements item false rest).map fun r => (x :: r.1, r.2) := by
  rw [elements, hnext]
  simp only [hitem, if_pos hlt]

/-- **The elements that follow one are read up to the closing bracket.** -/
theorem elements_of_tail (h : TailWritten Written ']' s js t) :
    ∀ {xs : List α}, List.Forall₂ (Reads item) js xs →
      elements item false s = .ok (xs, t) ∧ t.length < s.length := by
  induction h with
  | close blanks =>
    rintro _ ⟨⟩
    exact ⟨elements_close blanks, blanks.length_le⟩
  | comma blanks blanks' hw rest ih =>
    rintro _ ⟨⟩
    rename_i hx hxs
    obtain ⟨hread, hlt⟩ := hx _ _ _ (.none _) hw (rest.ends (.inl rfl))
    obtain ⟨hrest, hlt'⟩ := ih hxs
    have hlen := blanks.length_le
    have hlen' := blanks'.length_le
    rw [List.length_cons] at hlen
    rw [elements_item (nextElement_comma blanks blanks' hw) hread (by omega), hrest]
    exact ⟨rfl, by omega⟩

/-- **A list is read from each way of writing it**, if its elements are. -/
theorem reads_list {depth : Nat} (hd : 2 ≤ depth) (h : List.Forall₂ (Reads item) js xs) :
    Reads (list depth item) (.list js) xs := by
  intro s s' t hb hw _
  have hskip := hw.skip hb
  cases hw with
  | list brackets =>
    cases brackets with
    | none blanks =>
      cases h
      rw [list, hskip]
      simp only [if_neg (Nat.not_lt.mpr hd), elements_close blanks, true_and]
      exact Nat.lt_succ_of_le (Nat.le_of_lt blanks.length_le)
    | some blanks hw rest =>
      cases h with
      | cons hx hxs =>
        obtain ⟨hread, hlt⟩ := hx _ _ _ (.none _) hw (rest.ends (.inl rfl))
        obtain ⟨hrest, hlt'⟩ := elements_of_tail rest hxs
        have hlen := blanks.length_le
        rw [list, hskip]
        simp only [if_neg (Nat.not_lt.mpr hd), List.length_cons]
        rw [elements_item (nextElement_first blanks hw) hread (by omega), hrest]
        exact ⟨rfl, by omega⟩

end List

end SumLayout.Json
