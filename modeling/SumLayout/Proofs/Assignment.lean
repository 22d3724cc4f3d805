import SumLayout.Proofs.Tags

/-!
# Assigning tags to cases

Whether the tags suffice is a matter of counting: each case without a declared tag takes one off the
free ones, and a case with a declared tag takes none, as it is reserved already
(`assignTags_of_enough`, `assignTags_of_exhausted`).

The tags that are handed out were free at the time, so that **no two cases get the same tag** if no
two declare it (`AssignedAll.nodup`).
-/

namespace SumLayout

namespace UsedTags

variable {s : UsedTags} {t : UInt32} {cs : List Case} {ts : List UInt32}

theorem assignAll_declared (hs : s.Sorted) {c : Case} {d : UInt32} (hc : c.tag = some d)
    (hd : d ∈ s.tags) (cs : List Case) :
    s.assignAll (c :: cs) = (s.assignAll cs).map fun ts => d :: ts := by
  rw [assignAll, hc, assign]
  simp only [hs.insert_of_mem hd]
  cases s.assignAll cs <;> rfl

theorem assignAll_automatic {c : Case} (hc : c.tag = none) (ht : s.nextTag? = some t)
    (cs : List Case) :
    s.assignAll (c :: cs) = ((s.insert t).assignAll cs).map fun ts => t :: ts := by
  rw [assignAll, hc, assign, ht]
  simp only [Option.map_some]
  cases (s.insert t).assignAll cs <;> rfl

theorem assignAll_exhausted {c : Case} (hc : c.tag = none) (ht : s.nextTag? = none)
    (cs : List Case) : s.assignAll (c :: cs) = .error (.tagsExhausted c.name) := by
  rw [assignAll, hc, assign, ht]
  rfl

/-- The tags that some cases are given when the tags in `used` are taken. -/
structure AssignedAll (used : List UInt32) (cs : List Case) (ts : List UInt32) : Prop where
  length : ts.length = cs.length
  declared : ∀ (i : Nat) (c : Case) (d : UInt32), cs[i]? = some c → c.tag = some d →
    ts[i]? = some d
  fresh : ∀ t ∈ ts, t ∈ cs.filterMap (·.tag) ∨ t ∉ used ∧ t ≠ 0
  nodup : (cs.filterMap (·.tag)).Nodup → ts.Nodup

theorem AssignedAll.cons_declared {used : List UInt32} (h : AssignedAll used cs ts) {c : Case}
    {d : UInt32} (hc : c.tag = some d) (hd : d ∈ used) : AssignedAll used (c :: cs) (d :: ts) where
  length := congrArg Nat.succ h.length
  declared i c' d' hi hc' := by
    cases i with
    | zero =>
      rw [List.getElem?_cons_zero, Option.some.injEq] at hi
      subst hi
      exact hc.symm.trans hc'
    | succ i => exact h.declared i c' d' hi hc'
  fresh t ht := by
    rw [List.filterMap_cons, hc]
    rcases List.mem_cons.mp ht with rfl | ht
    · exact Or.inl List.mem_cons_self
    · exact (h.fresh t ht).imp_left (List.mem_cons_of_mem _)
  nodup hnd := by
    rw [List.filterMap_cons, hc, List.nodup_cons] at hnd
    refine List.nodup_cons.mpr ⟨fun ht => ?_, h.nodup hnd.2⟩
    rcases h.fresh d ht with hin | ⟨hno, -⟩
    · exact hnd.1 hin
    · exact hno hd

theorem AssignedAll.cons_automatic (h : AssignedAll (s.insert t).tags cs ts) {c : Case}
    (hc : c.tag = none) (hd : ∀ d ∈ cs.filterMap (·.tag), d ∈ s.tags) (ht : t ∉ s.tags)
    (h0 : t ≠ 0) : AssignedAll s.tags (c :: cs) (t :: ts) where
  length := congrArg Nat.succ h.length
  declared i c' d' hi hc' := by
    cases i with
    | zero =>
      rw [List.getElem?_cons_zero, Option.some.injEq] at hi
      subst hi
      exact absurd (hc.symm.trans hc') (by simp)
    | succ i => exact h.declared i c' d' hi hc'
  fresh u hu := by
    rw [List.filterMap_cons, hc]
    rcases List.mem_cons.mp hu with rfl | hu
    · exact Or.inr ⟨ht, h0⟩
    · refine (h.fresh u hu).imp_right fun ⟨hno, hu0⟩ => ⟨fun hin => ?_, hu0⟩
      exact hno (mem_insert.mpr (Or.inr hin))
  nodup hnd := by
    -- the tag is in use for the cases that follow, and none of them declares it
    rw [List.filterMap_cons, hc] at hnd
    refine List.nodup_cons.mpr ⟨fun hin => ?_, h.nodup hnd⟩
    rcases h.fresh t hin with hdecl | ⟨hno, -⟩
    · exact ht (hd t hdecl)
    · exact hno (mem_insert.mpr (Or.inl rfl))

/-- Cases are given tags as long as there are free ones for those that declare none. -/
theorem assignAll_of_le (cs : List Case) : ∀ s : UsedTags, s.Sorted →
    (∀ d ∈ cs.filterMap (·.tag), d ∈ s.tags) →
    cs.countP (·.tag.isNone) ≤ (free s.tags).card →
    ∃ ts, s.assignAll cs = .ok ts ∧ AssignedAll s.tags cs ts := by
  induction cs with
  | nil =>
    intro s _ _ _
    exact ⟨[], rfl, rfl, fun i c d hi => absurd hi (by simp), fun t ht => absurd ht (by simp),
      fun _ => List.nodup_nil⟩
  | cons c cs ih =>
    intro s hs hd hle
    cases hc : c.tag with
    | some d =>
      rw [List.filterMap_cons, hc, List.forall_mem_cons] at hd
      rw [List.countP_cons_of_neg (by simp [hc])] at hle
      obtain ⟨ts, hts, hall⟩ := ih s hs hd.2 hle
      refine ⟨d :: ts, ?_, hall.cons_declared hc hd.1⟩
      rw [assignAll_declared hs hc hd.1, hts]
      rfl
    | none =>
      rw [List.filterMap_cons, hc] at hd
      rw [List.countP_cons_of_pos (by simp [hc])] at hle
      cases ht : s.nextTag? with
      | none =>
        rw [free_eq_empty hs ht, Finset.card_empty] at hle
        exact absurd hle (by omega)
      | some t =>
        obtain ⟨hfree, h0⟩ := nextTag?_fresh hs ht
        have hcard := card_free_insert hfree h0
        obtain ⟨ts, hts, hall⟩ := ih (s.insert t) (hs.insert t)
          (fun d hdecl => mem_insert.mpr (Or.inr (hd d hdecl))) (by omega)
        refine ⟨t :: ts, ?_, hall.cons_automatic hc hd hfree h0⟩
        rw [assignAll_automatic hc ht, hts]
        rfl

/-- If there are too few free tags, some case is left without one. -/
theorem assignAll_of_lt (cs : List Case) : ∀ s : UsedTags, s.Sorted →
    (∀ d ∈ cs.filterMap (·.tag), d ∈ s.tags) →
    (free s.tags).card < cs.countP (·.tag.isNone) →
    ∃ c ∈ cs, c.tag = none ∧ s.assignAll cs = .error (.tagsExhausted c.name) := by
  induction cs with
  | nil => exact fun s _ _ hlt => absurd hlt (by simp)
  | cons c cs ih =>
    intro s hs hd hlt
    cases hc : c.tag with
    | some d =>
      rw [List.filterMap_cons, hc, List.forall_mem_cons] at hd
      rw [List.countP_cons_of_neg (by simp [hc])] at hlt
      obtain ⟨c', hmem, hnone, herr⟩ := ih s hs hd.2 hlt
      refine ⟨c', List.mem_cons_of_mem _ hmem, hnone, ?_⟩
      rw [assignAll_declared hs hc hd.1, herr]
      rfl
    | none =>
      rw [List.filterMap_cons, hc] at hd
      rw [List.countP_cons_of_pos (by simp [hc])] at hlt
      cases ht : s.nextTag? with
      | none => exact ⟨c, List.mem_cons_self, hc, assignAll_exhausted hc ht cs⟩
      | some t =>
        obtain ⟨hfree, h0⟩ := nextTag?_fresh hs ht
        have hcard := card_free_insert hfree h0
        obtain ⟨c', hmem, hnone, herr⟩ := ih (s.insert t) (hs.insert t)
          (fun d hdecl => mem_insert.mpr (Or.inr (hd d hdecl))) (by omega)
        refine ⟨c', List.mem_cons_of_mem _ hmem, hnone, ?_⟩
        rw [assignAll_automatic hc ht, herr]
        rfl

end UsedTags

variable {cs : List Case}

/-- More cases declare no tag than there are tags, other than zero, that no case declares. -/
def OutOfTags (cs : List Case) : Prop :=
  (UsedTags.free (cs.filterMap (·.tag))).card < cs.countP (·.tag.isNone)

/-- A union with fewer than 2³² cases has enough tags. -/
theorem not_outOfTags (h : cs.length ≤ 0xFFFFFFFF) : ¬OutOfTags cs := by
  have hlen : cs.length = (cs.filterMap (·.tag)).length + cs.countP (·.tag.isNone) := by
    clear h
    induction cs with
    | nil => rfl
    | cons c cs ih => cases hc : c.tag <;> simp [hc] <;> omega
  have hfree := UsedTags.le_card_free (cs.filterMap (·.tag))
  rw [OutOfTags, Nat.not_lt]
  omega

theorem free_ofList (ts : List UInt32) :
    UsedTags.free (UsedTags.ofList ts).tags = UsedTags.free ts :=
  UsedTags.free_congr fun _ => UsedTags.mem_ofList

/-- **If there are enough tags, every case is given one**: the declared one if it declares one, and
otherwise one that nobody declares. -/
theorem assignTags_of_enough (h : ¬OutOfTags cs) :
    ∃ ts, assignTags cs = .ok ts ∧ UsedTags.AssignedAll (cs.filterMap (·.tag)) cs ts := by
  obtain ⟨ts, hts, hall⟩ := UsedTags.assignAll_of_le cs (.ofList (cs.filterMap (·.tag)))
    (UsedTags.sorted_ofList _) (fun _ hd => UsedTags.mem_ofList.mpr hd)
    (by rw [free_ofList]; exact Nat.le_of_not_lt h)
  refine ⟨ts, hts, hall.length, hall.declared, fun t ht => ?_, hall.nodup⟩
  refine (hall.fresh t ht).imp_right fun ⟨hno, h0⟩ => ⟨fun hin => ?_, h0⟩
  exact hno (UsedTags.mem_ofList.mpr hin)

/-- **If there are too few tags, a case is named that is left without one.** -/
theorem assignTags_of_exhausted (h : OutOfTags cs) :
    ∃ c ∈ cs, c.tag = none ∧ assignTags cs = .error (.tagsExhausted c.name) :=
  UsedTags.assignAll_of_lt cs (.ofList (cs.filterMap Case.tag)) (UsedTags.sorted_ofList _)
    (fun _ hd => UsedTags.mem_ofList.mpr hd) (by rw [free_ofList]; exact h)

end SumLayout
