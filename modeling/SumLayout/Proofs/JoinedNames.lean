import SumLayout.Text.Joined
import SumLayout.Text.Lowercase

/-!
# Telling joined names apart

Joining loses nothing as long as no segment contains the separator: a dotted path can be cut at its
dots again (`dotted_inj`), and an underscored name at its underscores, up to the segments that are
empty (`underscored_inj`).

An underscored name may be built in steps, since joining what is joined already changes nothing
(`underscored_underscored_cons`). Its first letter may be made small before or after joining
(`lowerFirst_underscored`), and no small form is empty or an underscore (`lowerFirst_ne_empty`,
`underscore_notMem_lowerFirst`).
-/

namespace SumLayout.Text

variable {sep : String} {c : Char} {xs ys zs : List String}

/-! ## Joining with any separator -/

theorem joinWith_cons (h : xs ≠ []) (x : String) :
    joinWith sep (x :: xs) = x ++ sep ++ joinWith sep xs := by
  cases xs with
  | nil => exact absurd rfl h
  | cons y ys => rfl

theorem toList_joinWith (sep : String) (xs : List String) :
    (joinWith sep xs).toList = sep.toList.intercalate (xs.map String.toList) := by
  induction xs with
  | nil => rfl
  | cons x xs ih =>
    cases xs with
    | nil => simp [joinWith]
    | cons y ys =>
      rw [joinWith_cons (List.cons_ne_nil y ys), String.toList_append, String.toList_append, ih]
      simp [List.intercalate]

/-- **Segments without the separator can be told from the text that joins them.** -/
theorem joinWith_inj (hsep : sep.toList = [c]) (hxs : xs ≠ []) (hys : ys ≠ [])
    (hx : ∀ x ∈ xs, c ∉ x.toList) (hy : ∀ y ∈ ys, c ∉ y.toList)
    (h : joinWith sep xs = joinWith sep ys) : xs = ys := by
  have hlist := congrArg String.toList h
  rw [toList_joinWith, toList_joinWith, hsep] at hlist
  have hcut := congrArg (List.splitOn c) hlist
  rw [List.splitOn_intercalate c (by simpa using hx) (by simpa using hxs),
    List.splitOn_intercalate c (by simpa using hy) (by simpa using hys)] at hcut
  exact (List.map_inj_right fun _ _ => String.toList_inj.mp).mp hcut

/-- **A dotted path tells its segments**, as long as none of them contains a dot. -/
theorem dotted_inj (hxs : xs ≠ []) (hys : ys ≠ []) (hx : ∀ x ∈ xs, '.' ∉ x.toList)
    (hy : ∀ y ∈ ys, '.' ∉ y.toList) (h : dotted xs = dotted ys) : xs = ys :=
  joinWith_inj rfl hxs hys hx hy h

/-! ## Underscored names -/

theorem joinWith_joinWith_cons (hys : ys ≠ []) (zs : List String) :
    joinWith sep (joinWith sep ys :: zs) = joinWith sep (ys ++ zs) := by
  induction ys with
  | nil => exact absurd rfl hys
  | cons y ys ih =>
    cases ys with
    | nil => rfl
    | cons y' ys =>
      have ih := ih (List.cons_ne_nil y' ys)
      rw [joinWith_cons (List.cons_ne_nil y' ys), List.cons_append,
        joinWith_cons (List.append_ne_nil_of_left_ne_nil (List.cons_ne_nil y' ys) zs), ← ih]
      cases zs with
      | nil => rfl
      | cons z zs =>
        rw [joinWith_cons (List.cons_ne_nil z zs), joinWith_cons (List.cons_ne_nil z zs)]
        simp only [String.append_assoc]

theorem joinWith_eq_empty (h : ∀ x ∈ xs, x ≠ "") : joinWith sep xs = "" ↔ xs = [] := by
  cases xs with
  | nil => simp [joinWith]
  | cons x xs =>
    have hx := h x List.mem_cons_self
    cases xs with
    | nil => simp [joinWith, hx]
    | cons y ys => simp [joinWith, hx]

theorem underscored_eq_empty : underscored xs = "" ↔ xs.filter (· ≠ "") = [] :=
  joinWith_eq_empty fun x hx => by simpa using (List.mem_filter.mp hx).2

/-- Joining what is joined already changes nothing. -/
theorem underscored_underscored_cons (xs ys : List String) :
    underscored (underscored xs :: ys) = underscored (xs ++ ys) := by
  by_cases h : underscored xs = ""
  · rw [h, underscored_cons_empty, underscored, underscored, List.filter_append,
      underscored_eq_empty.mp h, List.nil_append]
  · have hne : xs.filter (· ≠ "") ≠ [] := fun he => h (underscored_eq_empty.mpr he)
    rw [underscored, List.filter_cons_of_pos (by simpa using h), underscored,
      joinWith_joinWith_cons hne, ← List.filter_append, ← underscored]

theorem underscored_cons {x : String} (hx : x ≠ "") (xs : List String) :
    underscored (x :: xs) = if underscored xs = "" then x else x ++ "_" ++ underscored xs := by
  rw [underscored, List.filter_cons_of_pos (by simpa using hx)]
  by_cases h : underscored xs = ""
  · rw [if_pos h, underscored_eq_empty.mp h, joinWith]
  · rw [if_neg h, joinWith_cons fun he => h (underscored_eq_empty.mpr he), ← underscored]

theorem underscored_singleton (x : String) : underscored [x] = x := by
  by_cases hx : x = ""
  · rw [hx, underscored_cons_empty, underscored_nil]
  · rw [underscored_cons hx, underscored_nil, if_pos rfl]

/-- What comes after a segment matters only as it is joined. -/
theorem underscored_cons_congr (x : String) (h : underscored xs = underscored ys) :
    underscored (x :: xs) = underscored (x :: ys) := by
  by_cases hx : x = ""
  · rw [hx, underscored_cons_empty, underscored_cons_empty, h]
  · rw [underscored_cons hx, underscored_cons hx, h]

/-- **An underscored name tells its segments**, as long as none of them is empty or contains an
underscore. -/
theorem underscored_inj (hx : ∀ x ∈ xs, x ≠ "" ∧ '_' ∉ x.toList)
    (hy : ∀ y ∈ ys, y ≠ "" ∧ '_' ∉ y.toList) (h : underscored xs = underscored ys) : xs = ys := by
  have hfilter : ∀ {zs : List String}, (∀ z ∈ zs, z ≠ "" ∧ '_' ∉ z.toList) →
      zs.filter (· ≠ "") = zs := fun hz =>
    List.filter_eq_self.mpr fun z hmem => by simpa using (hz z hmem).1
  have hnil : ∀ {zs : List String}, (∀ z ∈ zs, z ≠ "" ∧ '_' ∉ z.toList) →
      (underscored zs = "" ↔ zs = []) := fun hz => by rw [underscored_eq_empty, hfilter hz]
  by_cases hxs : xs = []
  · rw [hxs, underscored_nil, eq_comm, hnil hy] at h
    rw [hxs, h]
  · have hys : ys ≠ [] := fun he => hxs ((hnil hx).mp (h.trans ((hnil hy).mpr he)))
    rw [underscored, underscored, hfilter hx, hfilter hy] at h
    exact joinWith_inj rfl hxs hys (fun x hm => (hx x hm).2) (fun y hm => (hy y hm).2) h

/-- A name of two parts has an underscore. -/
theorem mem_underscored {x : String} (hx : x ≠ "") (h : underscored xs ≠ "") :
    '_' ∈ (underscored (x :: xs)).toList := by
  rw [underscored_cons hx, if_neg h]
  simp

/-! ## A first letter in small form -/

theorem lowerFirst_append {s : String} (hs : s ≠ "") (t : String) :
    lowerFirst (s ++ t) = lowerFirst s ++ t := by
  have hne : s.toList ≠ [] := by simpa using hs
  rw [lowerFirst, lowerFirst, String.toList_append]
  cases hc : s.toList with
  | nil => exact absurd hc hne
  | cons c cs =>
    rw [List.cons_append]
    simp only [← List.append_assoc, String.ofList_append, String.ofList_toList]

/-- Only the first segment of a name has a first letter to put in small form. -/
theorem lowerFirst_underscored {x : String} (hx : x ≠ "") (hlow : lowerFirst x ≠ "")
    (xs : List String) :
    lowerFirst (underscored (x :: xs)) = underscored (lowerFirst x :: xs) := by
  rw [underscored_cons hx, underscored_cons hlow]
  split
  · rfl
  · rw [String.append_assoc, lowerFirst_append hx, String.append_assoc]

theorem lower_ne_nil (c : Char) : lower c ≠ [] := by
  unfold lower
  split
  · simp
  · split
    · simp
    · split <;> simp

theorem lowerFirst_ne_empty {s : String} (hs : s ≠ "") : lowerFirst s ≠ "" := by
  have hne : s.toList ≠ [] := by simpa using hs
  rw [lowerFirst]
  cases hc : s.toList with
  | nil => exact absurd hc hne
  | cons c cs =>
    intro he
    have hlist := congrArg String.toList he
    simp [lower_ne_nil] at hlist

theorem toLower_ne_underscore : ∀ n < 0x80, Char.ofNat n ≠ '_' →
    (Char.ofNat n).toLower ≠ '_' := by decide

theorem toNat_ofNat (n : Nat) : (Char.ofNat n).toNat = n ∨ (Char.ofNat n).toNat = 0 := by
  by_cases h : n.isValidChar
  · rw [Char.ofNat, dif_pos h]
    exact Or.inl rfl
  · rw [Char.ofNat, dif_neg h]
    exact Or.inr rfl

/-- No letter outside ASCII has an underscore for its small form. -/
theorem CapitalRun.lower_ne_underscore {r : CapitalRun} (hr : r ∈ capitalRuns) (n : Nat) :
    r.lower n ≠ '_' := by
  have hsmall : (capitalRuns.all fun r => '_'.toNat < r.small) = true := by decide +kernel
  have hlt := of_decide_eq_true (List.all_eq_true.mp hsmall r hr)
  intro he
  have hnat := congrArg Char.toNat he
  rw [CapitalRun.lower] at hnat
  rcases toNat_ofNat (n - r.first + r.small) with h | h
  · omega
  · exact absurd (hnat.symm.trans h) (by decide)

theorem underscore_notMem_lower {c : Char} (hc : c ≠ '_') : '_' ∉ lower c := by
  by_cases hascii : c.toNat < 0x80
  · have hlow := toLower_ne_underscore c.toNat hascii
    rw [Char.ofNat_toNat] at hlow
    rw [lower_of_ascii hascii]
    simpa [eq_comm] using hlow hc
  · rw [lower, if_neg hascii]
    split
    · decide
    · split
      · next r hfind =>
        simpa [eq_comm] using r.lower_ne_underscore (List.mem_of_find?_eq_some hfind) c.toNat
      · simpa [eq_comm] using hc

theorem underscore_notMem_lowerFirst {s : String} (hs : '_' ∉ s.toList) :
    '_' ∉ (lowerFirst s).toList := by
  rw [lowerFirst]
  cases hc : s.toList with
  | nil => simp
  | cons c cs =>
    rw [hc, List.mem_cons, not_or] at hs
    simp only [String.toList_ofList, List.mem_append, not_or]
    exact ⟨underscore_notMem_lower fun he => hs.1 he.symm, hs.2⟩

end SumLayout.Text
