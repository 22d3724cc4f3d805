import Mathlib.Data.Finset.Card
import Mathlib.Order.Interval.Finset.Nat
import SumLayout.Tag

/-!
# Which tags are handed out

The tags in use are kept in strictly ascending order, so that the scan for the end of a run sees the
tags of the run one by one (`isRun_runEnd`). The number after the run is free, and if there is none,
the run covers everything from its start upwards. **A tag is found unless all of them are used**
(`nextTag?_fresh`, `nextTag?_none`), and reserving it leaves one free tag less
(`card_free_insert`).
-/

namespace SumLayout

namespace UsedTags

variable {s : UsedTags} {t u : UInt32} {us : List UInt32}

/-! ## The tags in use -/

theorem mem_insertSorted : u ∈ insertSorted t us ↔ u = t ∨ u ∈ us := by
  induction us with
  | nil => rw [insertSorted, List.mem_singleton]; simp
  | cons v us ih =>
    unfold insertSorted
    split
    · exact List.mem_cons
    · split
      · next he =>
        subst he
        simp
      · rw [List.mem_cons, ih, List.mem_cons]
        exact or_left_comm

theorem sorted_insertSorted (h : us.Pairwise (· < ·)) :
    (insertSorted t us).Pairwise (· < ·) := by
  induction us with
  | nil => exact List.pairwise_singleton ..
  | cons v us ih =>
    obtain ⟨hv, hus⟩ := List.pairwise_cons.mp h
    unfold insertSorted
    split
    · next hlt =>
      refine List.pairwise_cons.mpr ⟨fun w hw => ?_, h⟩
      rcases List.mem_cons.mp hw with rfl | hw
      · exact hlt
      · exact UInt32.lt_trans hlt (hv w hw)
    · next hle =>
      split
      · exact h
      · next hne =>
        refine List.pairwise_cons.mpr ⟨fun w hw => ?_, ih hus⟩
        rcases mem_insertSorted.mp hw with rfl | hw
        · exact UInt32.lt_of_le_of_ne (UInt32.not_lt.mp hle) fun he => hne he.symm
        · exact hv w hw

/-- Reserving a tag again changes nothing. -/
theorem insertSorted_of_mem (h : us.Pairwise (· < ·)) (ht : t ∈ us) : insertSorted t us = us := by
  induction us with
  | nil => exact absurd ht List.not_mem_nil
  | cons v us ih =>
    obtain ⟨hv, hus⟩ := List.pairwise_cons.mp h
    unfold insertSorted
    rcases List.mem_cons.mp ht with rfl | ht
    · rw [if_neg (UInt32.lt_irrefl t), if_pos rfl]
    · rw [if_neg (UInt32.lt_asymm (hv t ht)), if_neg (UInt32.ne_of_lt (hv t ht)).symm, ih hus ht]

/-- The tags are in strictly ascending order. -/
def Sorted (s : UsedTags) : Prop := s.tags.Pairwise (· < ·)

theorem Sorted.insert (h : s.Sorted) (t : UInt32) : (s.insert t).Sorted := sorted_insertSorted h

theorem Sorted.insert_of_mem (h : s.Sorted) (ht : t ∈ s.tags) : s.insert t = s := by
  rw [UsedTags.insert, insertSorted_of_mem h ht]

theorem mem_insert : u ∈ (s.insert t).tags ↔ u = t ∨ u ∈ s.tags := mem_insertSorted

theorem foldl_insert (ts : List UInt32) : ∀ s : UsedTags, s.Sorted →
    (ts.foldl insert s).Sorted ∧ ∀ u, u ∈ (ts.foldl insert s).tags ↔ u ∈ ts ∨ u ∈ s.tags := by
  induction ts with
  | nil => exact fun s hs => ⟨hs, fun u => by simp⟩
  | cons t ts ih =>
    intro s hs
    obtain ⟨hsorted, hmem⟩ := ih (s.insert t) (hs.insert t)
    refine ⟨hsorted, fun u => ?_⟩
    rw [List.foldl_cons, hmem, mem_insert, List.mem_cons]
    exact or_left_comm.trans (or_assoc.symm.trans Iff.rfl)

theorem sorted_ofList (ts : List UInt32) : (ofList ts).Sorted :=
  (foldl_insert ts {} List.Pairwise.nil).1

theorem mem_ofList {ts : List UInt32} : t ∈ (ofList ts).tags ↔ t ∈ ts := by
  rw [ofList, (foldl_insert ts {} List.Pairwise.nil).2 t]
  simp

/-! ## The end of a run -/

theorem next?_eq_some_iff : next? t = some u ↔ u.toNat = t.toNat + 1 := by
  unfold next?
  have hu := u.toNat_lt
  split
  · next h =>
    have hl : t.toNat = 4294967295 := by rw [h]; rfl
    constructor
    · exact fun he => absurd he (by simp)
    · intro he
      omega
  · next h =>
    have hne : t.toNat ≠ 4294967295 := fun he => h (UInt32.toNat_inj.mp he)
    have ht := t.toNat_lt
    rw [Option.some.injEq, ← UInt32.toNat_inj, UInt32.toNat_add]
    show (t.toNat + 1) % 2 ^ 32 = u.toNat ↔ _
    omega

theorem next?_eq_none_iff : next? t = none ↔ t.toNat = 4294967295 := by
  unfold next?
  split
  · next h =>
    rw [h]
    exact iff_of_true rfl rfl
  · next h => exact iff_of_false (by simp) fun he => h (UInt32.toNat_inj.mp he)

/-- The next tag in use continues the run if it is the next number. -/
theorem runEnd_cons {last : UInt32} (h : last < u) (us : List UInt32) :
    runEnd last (u :: us) = if u.toNat = last.toNat + 1 then runEnd u us else last := by
  rw [UInt32.lt_iff_toNat_lt] at h
  have hgap : (next? last).any (· < u) = true ↔ u.toNat ≠ last.toNat + 1 := by
    rw [Option.any_eq_true]
    constructor
    · rintro ⟨n, hn, hlt⟩
      have hlt := UInt32.lt_iff_toNat_lt.mp (of_decide_eq_true hlt)
      rw [next?_eq_some_iff] at hn
      omega
    · intro hne
      cases hn : next? last with
      | none =>
        rw [next?_eq_none_iff] at hn
        have hu := u.toNat_lt
        omega
      | some n =>
        rw [next?_eq_some_iff] at hn
        refine ⟨n, rfl, decide_eq_true (UInt32.lt_iff_toNat_lt.mpr ?_)⟩
        omega
  rw [runEnd]
  by_cases hu : u.toNat = last.toNat + 1
  · rw [if_neg fun hg => hgap.mp hg hu, if_pos hu]
  · rw [if_pos (hgap.mpr hu), if_neg hu]

/-- The run that starts at `first` ends at `last`: it lies among the used tags, and the number after
it does not. -/
structure IsRun (used : List UInt32) (first last : UInt32) : Prop where
  le : first ≤ last
  run : ∀ t, first ≤ t → t ≤ last → t ∈ used
  next : ∀ t, next? last = some t → t ∉ used

/-- A tag that all others leave a gap after is a run by itself. -/
theorem isRun_of_gap {first : UInt32} (h : ∀ t ∈ us, first.toNat + 1 < t.toNat) :
    IsRun (first :: us) first first where
  le := UInt32.le_refl first
  run t h1 h2 := by
    rw [UInt32.le_antisymm h2 h1]
    exact List.mem_cons_self
  next t ht hmem := by
    rw [next?_eq_some_iff] at ht
    rcases List.mem_cons.mp hmem with rfl | hmem
    · omega
    · have hlt := h t hmem
      omega

/-- A tag right before a run makes it longer. -/
theorem IsRun.cons {first last : UInt32} (h : IsRun us u last) (hu : u.toNat = first.toNat + 1) :
    IsRun (first :: us) first last := by
  have hle : first ≤ last := by
    have hul := UInt32.le_iff_toNat_le.mp h.le
    rw [UInt32.le_iff_toNat_le]
    omega
  refine ⟨hle, fun t h1 h2 => ?_, fun t ht hmem => ?_⟩
  · by_cases he : t = first
    · rw [he]
      exact List.mem_cons_self
    · refine List.mem_cons_of_mem _ (h.run t ?_ h2)
      have hlt := UInt32.lt_iff_toNat_lt.mp (UInt32.lt_of_le_of_ne h1 (Ne.symm he))
      rw [UInt32.le_iff_toNat_le]
      omega
  · rcases List.mem_cons.mp hmem with rfl | hmem
    · rw [next?_eq_some_iff] at ht
      rw [UInt32.le_iff_toNat_le] at hle
      omega
    · exact h.next t ht hmem

/-- **The scan finds the end of the run that an ascending list starts with.** -/
theorem isRun_runEnd : ∀ (first : UInt32) (us : List UInt32), (first :: us).Pairwise (· < ·) →
    IsRun (first :: us) first (runEnd first us) := by
  intro first us
  induction us generalizing first with
  | nil => exact fun _ => isRun_of_gap fun t ht => absurd ht List.not_mem_nil
  | cons u us ih =>
    intro h
    obtain ⟨hfirst, hus⟩ := List.pairwise_cons.mp h
    have hlt := hfirst u List.mem_cons_self
    rw [runEnd_cons hlt]
    split
    · next hu => exact (ih u hus).cons hu
    · next hgap =>
      -- the list ascends, so that a gap before its next tag is a gap before all of them
      refine isRun_of_gap fun t ht => ?_
      rw [UInt32.lt_iff_toNat_lt] at hlt
      rcases List.mem_cons.mp ht with rfl | ht
      · omega
      · have hut := UInt32.lt_iff_toNat_lt.mp ((List.pairwise_cons.mp hus).1 t ht)
        omega

/-! ## The next tag -/

/-- **A tag that is handed out is free and not zero.** -/
theorem nextTag?_fresh (hs : s.Sorted) (h : s.nextTag? = some t) : t ∉ s.tags ∧ t ≠ 0 := by
  obtain ⟨tags⟩ := s
  unfold nextTag? at h
  match tags with
  | [] =>
    rw [Option.some.injEq] at h
    subst h
    exact ⟨List.not_mem_nil, by decide⟩
  | first :: rest =>
    have hrun := isRun_runEnd first rest hs
    simp only at h
    split at h
    · next u hu =>
      rw [Option.some.injEq] at h
      subst h
      refine ⟨hrun.next u hu, fun he => ?_⟩
      rw [next?_eq_some_iff, he] at hu
      exact absurd hu (by simp)
    · split at h
      · next hone =>
        rw [Option.some.injEq] at h
        subst h
        refine ⟨fun hmem => ?_, by decide⟩
        rcases List.mem_cons.mp hmem with he | hmem
        · exact UInt32.lt_irrefl _ (he ▸ hone)
        · exact UInt32.lt_asymm hone ((List.pairwise_cons.mp hs).1 1 hmem)
      · exact absurd h (by simp)

/-- **There is no tag left only if all tags but zero are in use.** -/
theorem nextTag?_none (hs : s.Sorted) (h : s.nextTag? = none) (ht : t ≠ 0) : t ∈ s.tags := by
  obtain ⟨tags⟩ := s
  unfold nextTag? at h
  match tags with
  | [] => exact absurd h (by simp)
  | first :: rest =>
    have hrun := isRun_runEnd first rest hs
    simp only at h
    split at h
    · exact absurd h (by simp)
    · next hn =>
      split at h
      · exact absurd h (by simp)
      · next hone =>
        rw [next?_eq_none_iff] at hn
        rw [UInt32.lt_iff_toNat_lt] at hone
        have hpos : t.toNat ≠ 0 := fun he => ht (UInt32.toNat_inj.mp he)
        have hlt := t.toNat_lt
        refine hrun.run t ?_ ?_
        · rw [UInt32.le_iff_toNat_le]
          have h1 : (1 : UInt32).toNat = 1 := rfl
          omega
        · rw [UInt32.le_iff_toNat_le]
          omega

/-! ## Counting the free tags -/

/-- The numbers from one up that are not in use. -/
def free (used : List UInt32) : Finset Nat :=
  (Finset.Icc 1 0xFFFFFFFF).filter fun n => UInt32.ofNat n ∉ used

theorem mem_free {used : List UInt32} {n : Nat} :
    n ∈ free used ↔ ∃ t : UInt32, t ≠ 0 ∧ t ∉ used ∧ t.toNat = n := by
  rw [free, Finset.mem_filter, Finset.mem_Icc]
  constructor
  · rintro ⟨⟨h1, h2⟩, hn⟩
    have hto : (UInt32.ofNat n).toNat = n := by
      rw [UInt32.toNat_ofNat']
      exact Nat.mod_eq_of_lt (by omega)
    refine ⟨UInt32.ofNat n, fun he => ?_, hn, hto⟩
    rw [he] at hto
    have h0 : (0 : UInt32).toNat = 0 := rfl
    omega
  · rintro ⟨t, ht, hn, rfl⟩
    have hpos : t.toNat ≠ 0 := fun he => ht (UInt32.toNat_inj.mp he)
    have hlt := t.toNat_lt
    refine ⟨⟨by omega, by omega⟩, ?_⟩
    rwa [UInt32.ofNat_toNat]

theorem free_congr {used used' : List UInt32} (h : ∀ t, t ∈ used ↔ t ∈ used') :
    free used = free used' := by
  rw [free, free]
  simp only [h]

/-- Each tag in use takes away one number at most. -/
theorem le_card_free (used : List UInt32) : 0xFFFFFFFF ≤ (free used).card + used.length := by
  have hcover : Finset.Icc 1 0xFFFFFFFF ⊆ free used ∪ (used.map UInt32.toNat).toFinset := by
    intro n hn
    rw [Finset.mem_union, free, Finset.mem_filter, List.mem_toFinset, List.mem_map]
    by_cases hin : UInt32.ofNat n ∈ used
    · refine Or.inr ⟨_, hin, ?_⟩
      rw [Finset.mem_Icc] at hn
      rw [UInt32.toNat_ofNat']
      exact Nat.mod_eq_of_lt (by omega)
    · exact Or.inl ⟨hn, hin⟩
  calc 0xFFFFFFFF = (Finset.Icc 1 0xFFFFFFFF).card := by rw [Nat.card_Icc]
    _ ≤ (free used ∪ (used.map UInt32.toNat).toFinset).card := Finset.card_le_card hcover
    _ ≤ (free used).card + (used.map UInt32.toNat).toFinset.card := Finset.card_union_le _ _
    _ ≤ (free used).card + used.length := by
      have hle := List.toFinset_card_le (used.map UInt32.toNat)
      rw [List.length_map] at hle
      omega

/-- Reserving a free tag leaves one less. -/
theorem card_free_insert (ht : t ∉ s.tags) (h0 : t ≠ 0) :
    (free (s.insert t).tags).card + 1 = (free s.tags).card := by
  have hmem : t.toNat ∈ free s.tags := mem_free.mpr ⟨t, h0, ht, rfl⟩
  -- as a number, the tag is the only one that is taken away
  have herase : free (s.insert t).tags = (free s.tags).erase t.toNat := by
    ext n
    rw [Finset.mem_erase, mem_free, mem_free]
    constructor
    · rintro ⟨u, hu, hnot, rfl⟩
      rw [mem_insert, not_or] at hnot
      exact ⟨fun he => hnot.1 (UInt32.toNat_inj.mp he), u, hu, hnot.2, rfl⟩
    · rintro ⟨hne, u, hu, hnot, rfl⟩
      refine ⟨u, hu, fun hin => ?_, rfl⟩
      rcases mem_insert.mp hin with rfl | hin
      · exact hne rfl
      · exact hnot hin
  rw [herase]
  exact Finset.card_erase_add_one hmem

theorem free_eq_empty (hs : s.Sorted) (h : s.nextTag? = none) : free s.tags = ∅ := by
  refine Finset.eq_empty_of_forall_notMem fun n hn => ?_
  obtain ⟨t, h0, ht, -⟩ := mem_free.mp hn
  exact ht (nextTag?_none hs h h0)

end UsedTags

end SumLayout
