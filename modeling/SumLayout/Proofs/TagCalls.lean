import SumLayout.Proofs.Tags

/-!
# Tags, one call after another

A call asks for a declared tag, or for the next free one (`UsedTags.call`). This module is about any
number of calls, in any order, after any tags have been reserved (`UsedTags.after`), also about
calls that no declaration of cases leads to, such as for a declared tag that is in use.

What the scan of the used tags gives is said without the scan: by the least used tag and the least
free one above it (`IsAbove`), and by when numbering starts over (`StartsOver`). The two cases
exclude each other, because a free tag above the least used one is found by the scan
(`leastFreeAbove_of_next?`), and without one the run that the scan follows goes up to the largest
tag (`mem_of_next?_eq_none`).

`Serves` collects what a call does to some tags in use. It holds of all tags in ascending order
(`serves_of_sorted`), calls keep that order (`Sorted.call`), and so **it holds after every run of
calls** (`serves_after`). The tags in use are then the reserved ones and those that were answered
(`mem_after`).
-/

namespace SumLayout

namespace UsedTags

variable {s s' : UsedTags} {t u m : UInt32}

/-! ## Calls -/

/-- Answer one call. A call that cannot be answered leaves the tags as they are. -/
def call (s : UsedTags) (declared : Option UInt32) : Option UInt32 × UsedTags :=
  match s.assign declared with
  | some (t, s') => (some t, s')
  | none => (none, s)

/-- The tags in use after some calls. -/
def after (s : UsedTags) : List (Option UInt32) → UsedTags
  | [] => s
  | d :: calls => (s.call d).2.after calls

/-- What some calls are answered with. -/
def answers (s : UsedTags) : List (Option UInt32) → List (Option UInt32)
  | [] => []
  | d :: calls => (s.call d).1 :: (s.call d).2.answers calls

theorem call_declared (s : UsedTags) (d : UInt32) : s.call (some d) = (some d, s.insert d) := rfl

theorem call_automatic (h : s.nextTag? = some t) : s.call none = (some t, s.insert t) := by
  unfold call assign
  rw [h]
  rfl

theorem call_exhausted (h : s.nextTag? = none) : s.call none = (none, s) := by
  unfold call assign
  rw [h]
  rfl

/-- A call reserves the tag that it is answered with, and does nothing else. -/
theorem call_cases (s : UsedTags) (declared : Option UInt32) :
    (∃ t, s.call declared = (some t, s.insert t)) ∨ s.call declared = (none, s) := by
  cases declared with
  | some d => exact Or.inl ⟨d, call_declared s d⟩
  | none =>
    cases h : s.nextTag? with
    | some t => exact Or.inl ⟨t, call_automatic h⟩
    | none => exact Or.inr (call_exhausted h)

theorem Sorted.call (h : s.Sorted) (declared : Option UInt32) : (s.call declared).2.Sorted := by
  rcases call_cases s declared with ⟨t, he⟩ | he
  · rw [he]
    exact h.insert t
  · rw [he]
    exact h

theorem Sorted.after (h : s.Sorted) (calls : List (Option UInt32)) : (s.after calls).Sorted := by
  induction calls generalizing s with
  | nil => exact h
  | cons d calls ih => exact ih (h.call d)

theorem mem_call (declared : Option UInt32) :
    u ∈ (s.call declared).2.tags ↔ u ∈ s.tags ∨ (s.call declared).1 = some u := by
  rcases call_cases s declared with ⟨t, he⟩ | he
  · rw [he, mem_insert, or_comm, Option.some.injEq, eq_comm]
  · rw [he]
    simp

/-- **The tags in use after some calls are those before and the answers.** -/
theorem mem_after (calls : List (Option UInt32)) :
    u ∈ (s.after calls).tags ↔ u ∈ s.tags ∨ some u ∈ s.answers calls := by
  induction calls generalizing s with
  | nil =>
    show u ∈ s.tags ↔ u ∈ s.tags ∨ some u ∈ []
    simp
  | cons d calls ih =>
    show u ∈ ((s.call d).2.after calls).tags
      ↔ u ∈ s.tags ∨ some u ∈ (s.call d).1 :: (s.call d).2.answers calls
    rw [ih, mem_call, or_assoc, List.mem_cons, eq_comm (a := some u)]

/-! ## The next tag, told without the scan -/

/-- `m` is the least tag in use. -/
def LeastUsed (s : UsedTags) (m : UInt32) : Prop := m ∈ s.tags ∧ ∀ u ∈ s.tags, m ≤ u

/-- `t` is the least tag above `m` that is not in use. -/
def LeastFreeAbove (s : UsedTags) (m t : UInt32) : Prop :=
  (m < t ∧ t ∉ s.tags) ∧ ∀ u, m < u → u ∉ s.tags → t ≤ u

/-- `t` is the least free tag above the least one in use. -/
def IsAbove (s : UsedTags) (t : UInt32) : Prop := ∃ m, s.LeastUsed m ∧ s.LeastFreeAbove m t

/-- Nothing is in use, or everything from the least used tag up is in use, and that tag is above
1. -/
def StartsOver (s : UsedTags) : Prop :=
  s.tags = [] ∨ ∃ m, s.LeastUsed m ∧ 1 < m ∧ ∀ u, m ≤ u → u ∈ s.tags

theorem LeastUsed.unique (h : s.LeastUsed m) (h' : s.LeastUsed t) : m = t :=
  UInt32.le_antisymm (h.2 t h'.1) (h'.2 m h.1)

theorem LeastFreeAbove.unique (h : s.LeastFreeAbove m t) (h' : s.LeastFreeAbove m u) : t = u :=
  UInt32.le_antisymm (h.2 u h'.1.1 h'.1.2) (h'.2 t h.1.1 h.1.2)

section Scan

variable {first : UInt32} {rest : List UInt32}

/-- The scan starts at the least used tag. -/
theorem leastUsed_head (hs : Sorted ⟨first :: rest⟩) : LeastUsed ⟨first :: rest⟩ first := by
  refine ⟨List.mem_cons_self, fun u hu => ?_⟩
  rcases List.mem_cons.mp hu with rfl | hu
  · exact UInt32.le_refl u
  · exact UInt32.le_of_lt ((List.pairwise_cons.mp hs).1 u hu)

/-- A tag after the end of the run is the least free one above its start: what lies between the two
is the run. -/
theorem leastFreeAbove_of_next? (hs : Sorted ⟨first :: rest⟩)
    (h : next? (runEnd first rest) = some t) : LeastFreeAbove ⟨first :: rest⟩ first t := by
  have hrun := isRun_runEnd first rest hs
  have hle := UInt32.le_iff_toNat_le.mp hrun.le
  have hnext := next?_eq_some_iff.mp h
  refine ⟨⟨UInt32.lt_iff_toNat_lt.mpr (by omega), hrun.next t h⟩, fun u hu hfree => ?_⟩
  rw [UInt32.le_iff_toNat_le]
  by_contra hlt
  refine hfree (hrun.run u (UInt32.le_of_lt hu) ?_)
  rw [UInt32.le_iff_toNat_le]
  omega

/-- If there is no tag after the end of the run, the run has everything from its start up. -/
theorem mem_of_next?_eq_none (hs : Sorted ⟨first :: rest⟩) (h : next? (runEnd first rest) = none)
    (hu : first ≤ u) : u ∈ first :: rest := by
  refine (isRun_runEnd first rest hs).run u hu ?_
  have hlast := next?_eq_none_iff.mp h
  have hlt := u.toNat_lt
  rw [UInt32.le_iff_toNat_le]
  omega

end Scan

/-- **The next tag is the least free one above the least used one**, if there is one. -/
theorem nextTag?_of_isAbove (hs : s.Sorted) (h : s.IsAbove t) : s.nextTag? = some t := by
  obtain ⟨m, hm, ht⟩ := h
  obtain ⟨tags⟩ := s
  match tags with
  | [] => exact absurd hm.1 List.not_mem_nil
  | first :: rest =>
    obtain rfl := hm.unique (leastUsed_head hs)
    cases hn : next? (runEnd m rest) with
    | some u =>
      obtain rfl := ht.unique (leastFreeAbove_of_next? hs hn)
      simp only [nextTag?, hn]
    | none => exact absurd (mem_of_next?_eq_none hs hn (UInt32.le_of_lt ht.1.1)) ht.1.2

/-- **Numbering starts over at 1** if there is nothing above and 1 is below. -/
theorem nextTag?_of_startsOver (hs : s.Sorted) (h : s.StartsOver) : s.nextTag? = some 1 := by
  obtain ⟨tags⟩ := s
  match tags, h with
  | [], _ => rfl
  | first :: rest, Or.inr ⟨m, hm, hone, hall⟩ =>
    obtain rfl := hm.unique (leastUsed_head hs)
    cases hn : next? (runEnd m rest) with
    | some u =>
      obtain ⟨⟨hlt, hfree⟩, -⟩ := leastFreeAbove_of_next? hs hn
      exact absurd (hall u (UInt32.le_of_lt hlt)) hfree
    | none => simp only [nextTag?, hn, if_pos hone]

/-- The two cases are all in which there is a next tag. -/
theorem isAbove_or_startsOver (hs : s.Sorted) (h : s.nextTag? = some t) :
    s.IsAbove t ∨ s.StartsOver := by
  obtain ⟨tags⟩ := s
  match tags with
  | [] => exact Or.inr (Or.inl rfl)
  | first :: rest =>
    cases hn : next? (runEnd first rest) with
    | some u =>
      simp only [nextTag?, hn, Option.some.injEq] at h
      subst h
      exact Or.inl ⟨first, leastUsed_head hs, leastFreeAbove_of_next? hs hn⟩
    | none =>
      by_cases hone : 1 < first
      · exact Or.inr (Or.inr ⟨first, leastUsed_head hs, hone,
          fun u hu => mem_of_next?_eq_none hs hn hu⟩)
      · simp only [nextTag?, hn, if_neg hone] at h
        exact absurd h (by simp)

/-- **There is no next tag exactly if all tags from 1 up are in use.** -/
theorem nextTag?_eq_none_iff (hs : s.Sorted) : s.nextTag? = none ↔ ∀ u, 1 ≤ u → u ∈ s.tags := by
  have hzero : ∀ u : UInt32, 1 ≤ u ↔ u ≠ 0 := by
    intro u
    have h0 : u ≠ 0 ↔ u.toNat ≠ 0 := not_congr UInt32.toNat_inj.symm
    rw [UInt32.le_iff_toNat_le, h0]
    exact Nat.one_le_iff_ne_zero
  constructor
  · intro h u hu
    exact nextTag?_none hs h ((hzero u).mp hu)
  · intro h
    cases hn : s.nextTag? with
    | none => rfl
    | some t =>
      obtain ⟨hfree, hne⟩ := nextTag?_fresh hs hn
      exact absurd (h t ((hzero t).mpr hne)) hfree

/-- The scan counts without overflow: the tag after `t` has the next number, and only the largest
tag has none after it. -/
theorem map_next? (t : UInt32) :
    (next? t).map UInt32.toNat
      = if t.toNat < largest.toNat then some (t.toNat + 1) else none := by
  have hlargest : largest.toNat = 4294967295 := rfl
  have hlt := t.toNat_lt
  rw [hlargest]
  cases h : next? t with
  | some u =>
    have hu := u.toNat_lt
    rw [next?_eq_some_iff] at h
    rw [Option.map_some, if_pos (by omega), h]
  | none =>
    rw [next?_eq_none_iff] at h
    rw [Option.map_none, if_neg (by omega)]

/-! ## What a call does -/

/-- What a call does to the tags in use. -/
structure Serves (s : UsedTags) : Prop where
  above : ∀ t, s.IsAbove t → s.nextTag? = some t
  startsOver : s.StartsOver → s.nextTag? = some 1
  otherwise : (∀ t, ¬s.IsAbove t) → ¬s.StartsOver → s.nextTag? = none
  exhausted : s.nextTag? = none ↔ ∀ u, 1 ≤ u → u ∈ s.tags
  /-- Without a declared tag, the answer is the next tag. It is not zero, it was free, and it is the
  only one that is reserved. -/
  automatic : (s.call none).1 = s.nextTag? ∧ ∀ t, (s.call none).1 = some t →
    t ≠ 0 ∧ t ∉ s.tags ∧ ∀ u, u ∈ (s.call none).2.tags ↔ u = t ∨ u ∈ s.tags
  /-- A declared tag is answered with itself, and it is the only one that is reserved. -/
  declared : ∀ d, (s.call (some d)).1 = some d ∧
    ∀ u, u ∈ (s.call (some d)).2.tags ↔ u = d ∨ u ∈ s.tags
  failing : ∀ d, (s.call d).1 = none → (s.call d).2 = s

theorem serves_of_sorted (hs : s.Sorted) : s.Serves where
  above _ ht := nextTag?_of_isAbove hs ht
  startsOver h := nextTag?_of_startsOver hs h
  otherwise habove hover := by
    cases hn : s.nextTag? with
    | none => rfl
    | some t =>
      rcases isAbove_or_startsOver hs hn with h | h
      · exact absurd h (habove t)
      · exact absurd h hover
  exhausted := nextTag?_eq_none_iff hs
  automatic := by
    cases hn : s.nextTag? with
    | none =>
      rw [call_exhausted hn]
      exact ⟨rfl, fun t ht => absurd ht (by simp)⟩
    | some t =>
      obtain ⟨hfree, hne⟩ := nextTag?_fresh hs hn
      rw [call_automatic hn]
      refine ⟨rfl, fun u hu => ?_⟩
      obtain rfl := Option.some.inj hu
      exact ⟨hne, hfree, fun v => mem_insert⟩
  declared d := ⟨rfl, fun u => mem_insert⟩
  failing d h := by
    rcases call_cases s d with ⟨t, he⟩ | he
    · rw [he] at h
      exact absurd h (by simp)
    · rw [he]

/-- **What any run of calls leads to.** Whatever tags are reserved first and whatever is asked for
after that, the next call does what `Serves` says; the tags in use are the reserved ones and the
answers; and counting never overflows. -/
theorem serves_after (reserved : List UInt32) (calls : List (Option UInt32)) :
    ((ofList reserved).after calls).Serves ∧
      (∀ u, u ∈ ((ofList reserved).after calls).tags
        ↔ u ∈ reserved ∨ some u ∈ (ofList reserved).answers calls) ∧
      ∀ t, (next? t).map UInt32.toNat
        = if t.toNat < largest.toNat then some (t.toNat + 1) else none := by
  have hs : ((ofList reserved).after calls).Sorted := (sorted_ofList reserved).after calls
  refine ⟨serves_of_sorted hs, fun u => ?_, map_next?⟩
  rw [mem_after, mem_ofList]

/-- With the largest tag in use, numbering starts over below the least used one. -/
example : (ofList [0xFFFFFFFE]).answers [none, none, some 2, none]
    = [some 0xFFFFFFFF, some 1, some 2, some 3] := by decide

end UsedTags

end SumLayout
