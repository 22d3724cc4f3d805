import SumLayout.Proofs.Assignment

/-!
# The order in which tags are handed out

Each tag is looked for anew among those in use, which grow from case to case. Even so the tags of a
declaration are **one fixed sequence**, told from the declared tags alone (`UsedTags.order`): first
the numbers above the least declared one that are not declared, ascending, and then those below it,
from one on. The scan finds the head of this sequence (`nextTag?_eq_head?`), and once the head is
reserved the sequence of what is in use then is the tail (`order_insert`). The second step needs
care where the first part is used up: reserving 1 makes 1 the least used tag, and what was the
second part becomes the first.

So assigning tags is dealing this sequence out to the cases that declare none
(`assignTags_eq_deal`), from which everything is read off that there is to say about it
(`assignTags_closedForm`).
-/

namespace SumLayout

namespace UsedTags

variable {used used' : List UInt32} {t u : UInt32} {a b c : Nat}

/-! ## Consecutive tags -/

/-- The tags with the numbers from `a` on that are less than `b`, ascending. -/
def interval (a b : Nat) : List UInt32 := (List.range' a (b - a)).map UInt32.ofNat

theorem toNat_ofNat_of_lt (h : a < 0x100000000) : (UInt32.ofNat a).toNat = a := by
  rw [UInt32.toNat_ofNat']
  exact Nat.mod_eq_of_lt h

theorem interval_of_le (h : b ≤ a) : interval a b = [] := by
  rw [interval, Nat.sub_eq_zero_of_le h]
  rfl

theorem interval_cons (h : a < b) : interval a b = UInt32.ofNat a :: interval (a + 1) b := by
  rw [interval, interval, show b - a = b - (a + 1) + 1 by omega, List.range'_succ, List.map_cons]

theorem interval_append (hab : a ≤ b) (hbc : b ≤ c) :
    interval a b ++ interval b c = interval a c := by
  have hsplit := @List.range'_append_1 a (b - a) (c - b)
  rw [show a + (b - a) = b by omega, show b - a + (c - b) = c - a by omega] at hsplit
  rw [interval, interval, interval, ← List.map_append, hsplit]

theorem mem_interval (hb : b ≤ 0x100000000) :
    t ∈ interval a b ↔ a ≤ t.toNat ∧ t.toNat < b := by
  rw [interval, List.mem_map]
  constructor
  · rintro ⟨n, hn, rfl⟩
    rw [List.mem_range'_1] at hn
    rw [toNat_ofNat_of_lt (by omega)]
    omega
  · rintro ⟨h1, h2⟩
    exact ⟨t.toNat, List.mem_range'_1.mpr (by omega), UInt32.ofNat_toNat⟩

theorem nodup_interval (hb : b ≤ 0x100000000) : (interval a b).Nodup := by
  refine List.Nodup.map_on (fun m hm n hn he => ?_) List.nodup_range'
  rw [List.mem_range'_1] at hm hn
  rw [← toNat_ofNat_of_lt (a := m) (by omega), he, toNat_ofNat_of_lt (by omega)]

/-! ## The least tag in use -/

/-- The number of the least tag in use, and zero if none is. -/
def least (used : List UInt32) : Nat := (used.min?.map UInt32.toNat).getD 0

theorem least_eq (ht : t ∈ used) (hle : ∀ u ∈ used, t ≤ u) : least used = t.toNat := by
  rw [least, List.min?_eq_some_iff.mpr ⟨ht, hle⟩]
  rfl

theorem exists_least (ht : t ∈ used) : ∃ m ∈ used, (∀ u ∈ used, m ≤ u) ∧ least used = m.toNat := by
  cases hm : used.min? with
  | none =>
    rw [List.min?_eq_none_iff] at hm
    exact absurd ht (by simp [hm])
  | some m =>
    obtain ⟨hmem, hle⟩ := List.min?_eq_some_iff.mp hm
    exact ⟨m, hmem, hle, least_eq hmem hle⟩

theorem least_le (ht : t ∈ used) : least used ≤ t.toNat := by
  obtain ⟨m, -, hle, he⟩ := exists_least ht
  exact he ▸ UInt32.le_iff_toNat_le.mp (hle t ht)

theorem least_congr (h : ∀ t, t ∈ used ↔ t ∈ used') : least used = least used' := by
  cases used with
  | nil =>
    have hnil : used' = [] := List.eq_nil_iff_forall_not_mem.mpr fun t ht => by
      simpa using (h t).mpr ht
    rw [hnil]
  | cons t us =>
    obtain ⟨m, hm, hle, he⟩ := exists_least (List.mem_cons_self (a := t) (l := us))
    rw [he, least_eq ((h m).mp hm) fun u hu => hle u ((h u).mpr hu)]

/-! ## The sequence -/

/-- The tags that are not in use, in the order in which they are handed out: those above the least
used one, ascending, and then those below it from one on. -/
def order (used : List UInt32) : List UInt32 :=
  (interval (least used + 1) 0x100000000).filter (· ∉ used) ++ interval 1 (least used)

theorem least_le_largest (used : List UInt32) : least used ≤ 0xFFFFFFFF := by
  cases used with
  | nil => exact Nat.zero_le _
  | cons t us =>
    have hle := least_le (List.mem_cons_self (a := t) (l := us))
    have hlt := t.toNat_lt
    omega

theorem mem_order : t ∈ order used ↔ t ≠ 0 ∧ t ∉ used := by
  have hbound := least_le_largest used
  have hlt := t.toNat_lt
  have hzero : t ≠ 0 ↔ t.toNat ≠ 0 := not_congr UInt32.toNat_inj.symm
  rw [order, List.mem_append, List.mem_filter, mem_interval (Nat.le_refl _),
    mem_interval (by omega), decide_eq_true_eq, hzero]
  constructor
  · rintro (⟨hrange, hno⟩ | hrange)
    · exact ⟨by omega, hno⟩
    · exact ⟨by omega, fun ht => absurd (least_le ht) (by omega)⟩
  · rintro ⟨hpos, hno⟩
    rcases Nat.lt_trichotomy t.toNat (least used) with hless | he | hmore
    · exact Or.inr ⟨by omega, hless⟩
    · -- the least tag is in use, unless there is none and it is zero
      cases used with
      | nil => exact absurd he hpos
      | cons u us =>
        obtain ⟨m, hm, -, hleast⟩ := exists_least (List.mem_cons_self (a := u) (l := us))
        exact absurd (UInt32.toNat_inj.mp (he.trans hleast) ▸ hm) hno
    · exact Or.inl ⟨by omega, hno⟩

theorem nodup_order (used : List UInt32) : (order used).Nodup := by
  have hbound := least_le_largest used
  refine List.nodup_append.mpr ⟨(nodup_interval (Nat.le_refl _)).filter _,
    nodup_interval (by omega), fun t ht u hu he => ?_⟩
  subst he
  rw [List.mem_filter, mem_interval (Nat.le_refl _)] at ht
  rw [mem_interval (by omega)] at hu
  omega

/-- The sequence depends on which tags are in use and on nothing else. -/
theorem order_congr (h : ∀ t, t ∈ used ↔ t ∈ used') : order used = order used' := by
  rw [order, order, least_congr h]
  simp only [h]

/-- The sequence has all tags that are free. -/
theorem length_order (used : List UInt32) : (order used).length = (free used).card := by
  have hfree : free used = ((order used).map UInt32.toNat).toFinset := by
    ext n
    rw [mem_free, List.mem_toFinset, List.mem_map]
    simp only [mem_order, and_assoc]
  have hnodup : ((order used).map UInt32.toNat).Nodup :=
    (nodup_order used).map fun _ _ he => UInt32.toNat_inj.mp he
  rw [hfree, List.toFinset_card_of_nodup hnodup, List.length_map]

/-! ## Handing out the head -/

/-- What is free in an interval that starts with used tags. -/
theorem filter_interval_of_used (hab : a ≤ b) (hbc : b ≤ c) (hc : c ≤ 0x100000000)
    (h : ∀ t, a ≤ t.toNat → t.toNat < b → t ∈ used) :
    (interval a c).filter (· ∉ used) = (interval b c).filter (· ∉ used) := by
  have hnone : (interval a b).filter (· ∉ used) = [] := by
    refine List.filter_eq_nil_iff.mpr fun t ht => ?_
    rw [mem_interval (by omega)] at ht
    simpa using h t ht.1 ht.2
  rw [← interval_append hab hbc, List.filter_append, hnone, List.nil_append]

/-- **The scan finds the head of the sequence.** -/
theorem nextTag?_eq_head? {s : UsedTags} (hs : s.Sorted) : s.nextTag? = (order s.tags).head? := by
  obtain ⟨tags⟩ := s
  match tags with
  | [] =>
    rw [order, show least [] + 1 = 1 from rfl, interval_cons (by omega)]
    rfl
  | first :: rest =>
    have hrun := isRun_runEnd first rest hs
    have hleast : least (first :: rest) = first.toNat := by
      refine least_eq List.mem_cons_self fun u hu => ?_
      rcases List.mem_cons.mp hu with rfl | hu
      · exact UInt32.le_refl u
      · exact UInt32.le_of_lt ((List.pairwise_cons.mp hs).1 u hu)
    have hle := UInt32.le_iff_toNat_le.mp hrun.le
    have hlast := (runEnd first rest).toNat_lt
    -- the run is in use, so that the free numbers above its start come after it
    have hskip : (interval (first.toNat + 1) 0x100000000).filter (· ∉ first :: rest)
        = (interval ((runEnd first rest).toNat + 1) 0x100000000).filter (· ∉ first :: rest) :=
      filter_interval_of_used (by omega) (by omega) (Nat.le_refl _) fun t h1 h2 =>
        hrun.run t (UInt32.le_iff_toNat_le.mpr (by omega)) (UInt32.le_iff_toNat_le.mpr (by omega))
    rw [order, hleast, hskip, nextTag?]
    cases hn : next? (runEnd first rest) with
    | some t =>
      have hnext := next?_eq_some_iff.mp hn
      have hlt := t.toNat_lt
      rw [interval_cons (by omega), ← hnext, UInt32.ofNat_toNat,
        List.filter_cons_of_pos (by simpa using hrun.next t hn)]
      simp only [hn, List.cons_append, List.head?_cons]
    | none =>
      rw [next?_eq_none_iff.mp hn, interval_of_le (by omega), List.filter_nil, List.nil_append]
      have hone : 1 < first ↔ 1 < first.toNat := UInt32.lt_iff_toNat_lt
      simp only [hn, hone]
      by_cases h : 1 < first.toNat
      · rw [if_pos h, interval_cons h]
        rfl
      · rw [if_neg h, interval_of_le (by omega)]
        rfl

/-- What is left of a list without repetition when its first free tag is reserved. -/
theorem filter_of_insert {xs rest : List UInt32} (hnodup : xs.Nodup)
    (h : xs.filter (· ∉ used) = t :: rest) (hmem : ∀ v, v ∈ used' ↔ v = t ∨ v ∈ used) :
    xs.filter (· ∉ used') = rest := by
  have hfree := hnodup.filter (· ∉ used)
  rw [h, List.nodup_cons] at hfree
  calc xs.filter (· ∉ used')
      = (xs.filter (· ∉ used)).filter (· ≠ t) := by
        rw [List.filter_filter]
        refine List.filter_congr fun v _ => ?_
        simp [hmem]
    _ = rest := by
        rw [h, List.filter_cons_of_neg (by simp), List.filter_eq_self]
        intro v hv
        simpa using fun he : v = t => hfree.1 (he ▸ hv)

/-- With 0 or 1 in use, or nothing at all, the free tags are handed out in ascending order. -/
theorem order_of_least_le_one (h : least used ≤ 1) :
    order used = (interval 1 0x100000000).filter (· ∉ used) := by
  have hskip : (interval 1 0x100000000).filter (· ∉ used)
      = (interval (least used + 1) 0x100000000).filter (· ∉ used) := by
    refine filter_interval_of_used (by omega) (by omega) (Nat.le_refl _) fun t h1 h2 => ?_
    by_contra ht
    have horder : t ∈ order used := mem_order.mpr ⟨fun h0 => by simp [h0] at h1, ht⟩
    rw [order, List.mem_append, List.mem_filter, mem_interval (Nat.le_refl _),
      mem_interval (by omega)] at horder
    omega
  rw [order, interval_of_le h, List.append_nil, hskip]

/-- With everything above the least tag in use, what is left is handed out in ascending order. -/
theorem order_of_none_above (hu : u ∈ used)
    (h : (interval (least used + 1) 0x100000000).filter (· ∉ used) = []) :
    order used = (interval 1 0x100000000).filter (· ∉ used) := by
  have hbound := least_le_largest used
  obtain ⟨m, hm, -, hleast⟩ := exists_least hu
  by_cases hone : least used ≤ 1
  · exact order_of_least_le_one hone
  · have hbelow : (interval 1 (least used)).filter (· ∉ used) = interval 1 (least used) := by
      refine List.filter_eq_self.mpr fun v hv => decide_eq_true fun hin => ?_
      rw [mem_interval (by omega)] at hv
      exact absurd (least_le hin) (by omega)
    have hfrom : (interval (least used) 0x100000000).filter (· ∉ used) = [] := by
      rw [interval_cons (by omega), hleast, UInt32.ofNat_toNat,
        List.filter_cons_of_neg (by rw [decide_eq_true_eq]; exact not_not_intro hm), ← hleast, h]
    have hsplit : interval 1 (least used) ++ interval (least used) 0x100000000
        = interval 1 0x100000000 := interval_append (by omega) (by omega)
    rw [order, h, List.nil_append, ← hsplit, List.filter_append, hbelow, hfrom, List.append_nil]

/-- Once 1 is reserved, what is left is handed out in ascending order. -/
theorem order_insert_one {rest : List UInt32}
    (h : (interval 1 0x100000000).filter (· ∉ used) = UInt32.ofNat 1 :: rest)
    (hmem : ∀ v, v ∈ used' ↔ v = UInt32.ofNat 1 ∨ v ∈ used) : order used' = rest := by
  have hone : least used' ≤ 1 := least_le ((hmem _).mpr (Or.inl rfl))
  rw [order_of_least_le_one hone]
  exact filter_of_insert (nodup_interval (Nat.le_refl _)) h hmem

/-- The least tag in use stays the least one when a larger one is reserved. -/
theorem least_insert (hu : u ∈ used) (ht : least used ≤ t.toNat)
    (hmem : ∀ v, v ∈ used' ↔ v = t ∨ v ∈ used) : least used' = least used := by
  obtain ⟨m, hm, hle, hleast⟩ := exists_least hu
  rw [hleast] at ht ⊢
  refine least_eq ((hmem m).mpr (Or.inr hm)) fun v hv => ?_
  rcases (hmem v).mp hv with rfl | hv
  · exact UInt32.le_iff_toNat_le.mpr ht
  · exact hle v hv

/-- **When the head of the sequence is reserved, the tail is left.** -/
theorem order_insert {rest : List UInt32} (h : order used = t :: rest)
    (hmem : ∀ v, v ∈ used' ↔ v = t ∨ v ∈ used) : order used' = rest := by
  have hbound := least_le_largest used
  cases used with
  | nil =>
    -- the first tag of all is 1
    have hall : order [] = (interval 1 0x100000000).filter (· ∉ []) :=
      order_of_least_le_one (Nat.zero_le 1)
    rw [hall] at h
    have hhead := h
    rw [interval_cons (by omega), List.filter_cons_of_pos (by simp), List.cons.injEq] at hhead
    obtain ⟨rfl, -⟩ := hhead
    exact order_insert_one h hmem
  | cons u us =>
    have hu : u ∈ u :: us := List.mem_cons_self
    cases hfirst : (interval (least (u :: us) + 1) 0x100000000).filter (· ∉ u :: us) with
    | cons v vs =>
      -- the tag is above the least one
      have hv : v ∈ (interval (least (u :: us) + 1) 0x100000000).filter (· ∉ u :: us) :=
        hfirst ▸ List.mem_cons_self
      rw [List.mem_filter, mem_interval (Nat.le_refl _)] at hv
      rw [order, hfirst, List.cons_append, List.cons.injEq] at h
      obtain ⟨rfl, rfl⟩ := h
      rw [order, least_insert hu (by omega) hmem,
        filter_of_insert (nodup_interval (Nat.le_refl _)) hfirst hmem]
    | nil =>
      -- everything from the least tag upwards is in use, and the next tag is 1
      have hhead := h
      rw [order, hfirst, List.nil_append] at hhead
      have hone : 1 < least (u :: us) := by
        by_contra hno
        rw [interval_of_le (by omega)] at hhead
        exact absurd hhead (by simp)
      rw [interval_cons hone, List.cons.injEq] at hhead
      obtain ⟨rfl, -⟩ := hhead
      rw [order_of_none_above hu hfirst] at h
      exact order_insert_one h hmem

/-! ## Dealing out the sequence -/

/-- Give every case its declared tag if it declares one, and the next tag of a sequence if not. -/
def deal (tags : List UInt32) : List Case → Except PlanError (List UInt32)
  | [] => .ok []
  | c :: cs =>
    match c.tag, tags with
    | some d, tags => (deal tags cs).map fun ts => d :: ts
    | none, [] => .error (.tagsExhausted c.name)
    | none, t :: tags => (deal tags cs).map fun ts => t :: ts

variable {tags ts : List UInt32} {c : Case} {cs : List Case}

theorem deal_declared {d : UInt32} (hc : c.tag = some d) (tags : List UInt32) (cs : List Case) :
    deal tags (c :: cs) = (deal tags cs).map fun ts => d :: ts := by
  simp only [deal, hc]

theorem deal_automatic (hc : c.tag = none) (t : UInt32) (tags : List UInt32) (cs : List Case) :
    deal (t :: tags) (c :: cs) = (deal tags cs).map fun ts => t :: ts := by
  simp only [deal, hc]

theorem deal_exhausted (hc : c.tag = none) (cs : List Case) :
    deal [] (c :: cs) = .error (.tagsExhausted c.name) := by
  simp only [deal, hc]

/-- Looking for a tag anew for each case comes to dealing out one sequence. -/
theorem assignAll_eq_deal (cs : List Case) : ∀ s : UsedTags, s.Sorted →
    (∀ d ∈ cs.filterMap (·.tag), d ∈ s.tags) → s.assignAll cs = deal (order s.tags) cs := by
  induction cs with
  | nil => exact fun _ _ _ => rfl
  | cons c cs ih =>
    intro s hs hd
    cases hc : c.tag with
    | some d =>
      rw [List.filterMap_cons, hc, List.forall_mem_cons] at hd
      rw [assignAll_declared hs hc hd.1, deal_declared hc, ih s hs hd.2]
    | none =>
      rw [List.filterMap_cons, hc] at hd
      have hnext := nextTag?_eq_head? hs
      cases horder : order s.tags with
      | nil =>
        rw [horder, List.head?_nil] at hnext
        rw [assignAll_exhausted hc hnext, deal_exhausted hc]
      | cons t rest =>
        rw [horder, List.head?_cons] at hnext
        have hrest : order (s.insert t).tags = rest := order_insert horder fun _ => mem_insert
        rw [assignAll_automatic hc hnext, deal_automatic hc,
          ih (s.insert t) (hs.insert t) fun d hdecl => mem_insert.mpr (Or.inr (hd d hdecl)), hrest]

/-- Whether the first case is dealt its tag, and what is left for the others. -/
theorem deal_cons_eq_ok (h : deal tags (c :: cs) = .ok ts) :
    ∃ t rest us, ts = t :: us ∧ deal rest cs = .ok us ∧
      (c.tag = some t ∧ rest = tags ∨ c.tag = none ∧ tags = t :: rest) := by
  cases hc : c.tag with
  | some d =>
    rw [deal_declared hc] at h
    cases hus : deal tags cs with
    | error e => exact absurd (hus ▸ h) (by simp [Except.map])
    | ok us =>
      rw [hus, Except.map, Except.ok.injEq] at h
      exact ⟨d, tags, us, h.symm, hus, Or.inl ⟨rfl, rfl⟩⟩
  | none =>
    cases tags with
    | nil => exact absurd (deal_exhausted hc cs ▸ h) (by simp)
    | cons t tags =>
      rw [deal_automatic hc] at h
      cases hus : deal tags cs with
      | error e => exact absurd (hus ▸ h) (by simp [Except.map])
      | ok us =>
        rw [hus, Except.map, Except.ok.injEq] at h
        exact ⟨t, tags, us, h.symm, hus, Or.inr ⟨rfl, rfl⟩⟩

/-- The tags of the cases that declare none, in order of declaration. -/
def automatic : List Case → List UInt32 → List UInt32
  | c :: cs, t :: ts => if c.tag.isNone then t :: automatic cs ts else automatic cs ts
  | _, _ => []

/-- The cases that declare no tag are dealt the first tags of the sequence. -/
theorem automatic_of_deal (cs : List Case) : ∀ tags ts, deal tags cs = .ok ts →
    automatic cs ts = tags.take (cs.countP (·.tag.isNone)) := by
  induction cs with
  | nil => intro _ _ _; simp [automatic]
  | cons c cs ih =>
    intro tags ts h
    obtain ⟨t, rest, us, rfl, hus, ⟨hc, rfl⟩ | ⟨hc, rfl⟩⟩ := deal_cons_eq_ok h
    · rw [automatic, if_neg (by simp [hc]), List.countP_cons_of_neg (by simp [hc]), ih _ _ hus]
    · rw [automatic, if_pos (by simp [hc]), List.countP_cons_of_pos (by simp [hc]),
        List.take_succ_cons, ih _ _ hus]

/-- The cases that stand first are dealt to first. -/
theorem deal_append (cs ds : List Case) : ∀ tags ts, deal tags cs = .ok ts →
    deal tags (cs ++ ds)
      = (deal (tags.drop (cs.countP (·.tag.isNone))) ds).map fun us => ts ++ us := by
  induction cs with
  | nil =>
    intro tags ts h
    cases h
    rw [List.nil_append, List.countP_nil, List.drop_zero]
    cases deal tags ds <;> rfl
  | cons c cs ih =>
    intro tags ts h
    obtain ⟨t, rest, us, rfl, hus, ⟨hc, rfl⟩ | ⟨hc, rfl⟩⟩ := deal_cons_eq_ok h
    · rw [List.cons_append, deal_declared hc, ih _ _ hus, List.countP_cons_of_neg (by simp [hc])]
      cases deal _ ds <;> rfl
    · rw [List.cons_append, deal_automatic hc, ih _ _ hus, List.countP_cons_of_pos (by simp [hc]),
        List.drop_succ_cons]
      cases deal _ ds <;> rfl

/-- **Dealing stops at the first case that the sequence does not reach.** -/
theorem exists_of_deal_eq_error (cs : List Case) : ∀ tags e, deal tags cs = .error e →
    ∃ before c after, cs = before ++ c :: after ∧ c.tag = none ∧
      before.countP (·.tag.isNone) = tags.length ∧ e = .tagsExhausted c.name := by
  induction cs with
  | nil => exact fun _ _ h => absurd h (by simp [deal])
  | cons c cs ih =>
    intro tags e h
    cases hc : c.tag with
    | some d =>
      rw [deal_declared hc] at h
      cases hus : deal tags cs with
      | ok us => exact absurd (hus ▸ h) (by simp [Except.map])
      | error e' =>
        obtain ⟨before, c', after, rfl, hnone, hlen, rfl⟩ := ih tags e' hus
        rw [hus, Except.map, Except.error.injEq] at h
        refine ⟨c :: before, c', after, rfl, hnone, ?_, h.symm⟩
        rw [List.countP_cons_of_neg (by simp [hc]), hlen]
    | none =>
      cases tags with
      | nil =>
        rw [deal_exhausted hc, Except.error.injEq] at h
        exact ⟨[], c, cs, rfl, hc, rfl, h.symm⟩
      | cons t tags =>
        rw [deal_automatic hc] at h
        cases hus : deal tags cs with
        | ok us => exact absurd (hus ▸ h) (by simp [Except.map])
        | error e' =>
          obtain ⟨before, c', after, rfl, hnone, hlen, rfl⟩ := ih tags e' hus
          rw [hus, Except.map, Except.error.injEq] at h
          refine ⟨c :: before, c', after, rfl, hnone, ?_, h.symm⟩
          rw [List.countP_cons_of_pos (by simp [hc]), hlen, List.length_cons]

end UsedTags

/-- The tags that some cases declare. -/
def declaredTags (cs : List Case) : List UInt32 := cs.filterMap (·.tag)

/-- How many cases declare no tag. -/
def undeclared (cs : List Case) : Nat := cs.countP (·.tag.isNone)

variable {cs cs' : List Case} {ts ts' : List UInt32}

/-- **Assigning tags is dealing out the sequence** that the declared tags leave. -/
theorem assignTags_eq_deal (cs : List Case) :
    assignTags cs = UsedTags.deal (UsedTags.order (declaredTags cs)) cs := by
  rw [assignTags, UsedTags.assignAll_eq_deal cs _ (UsedTags.sorted_ofList _)
    fun _ hd => UsedTags.mem_ofList.mpr hd]
  exact congrArg (UsedTags.deal · cs) (UsedTags.order_congr fun _ => UsedTags.mem_ofList)

/-- The tags that are given to the cases that declare none, in order of declaration. -/
theorem automatic_of_assignTags (h : assignTags cs = .ok ts) :
    UsedTags.automatic cs ts = (UsedTags.order (declaredTags cs)).take (undeclared cs) :=
  UsedTags.automatic_of_deal cs _ ts (assignTags_eq_deal cs ▸ h)

/-- Tags are assigned exactly if they suffice. -/
theorem assignTags_eq_ok_iff : (∃ ts, assignTags cs = .ok ts) ↔ ¬OutOfTags cs := by
  refine ⟨fun ⟨ts, hts⟩ hout => ?_, fun h => ?_⟩
  · obtain ⟨c, -, -, herr⟩ := assignTags_of_exhausted hout
    exact absurd (hts ▸ herr) (by simp)
  · obtain ⟨ts, hts, -⟩ := assignTags_of_enough h
    exact ⟨ts, hts⟩

/-- Whether the tags suffice depends on which are declared and on how many cases declare none. -/
theorem outOfTags_congr (h : ∀ t, t ∈ declaredTags cs ↔ t ∈ declaredTags cs')
    (hk : undeclared cs = undeclared cs') : OutOfTags cs ↔ OutOfTags cs' := by
  have hfree := UsedTags.free_congr h
  change (UsedTags.free (declaredTags cs)).card < undeclared cs
    ↔ (UsedTags.free (declaredTags cs')).card < undeclared cs'
  rw [hfree, hk]

/-- The declared tags and the number of the other cases tell the tags of the other cases. -/
theorem automatic_congr (hts : assignTags cs = .ok ts)
    (h : ∀ t, t ∈ declaredTags cs ↔ t ∈ declaredTags cs') (hk : undeclared cs = undeclared cs') :
    ∃ ts', assignTags cs' = .ok ts' ∧ UsedTags.automatic cs' ts' = UsedTags.automatic cs ts := by
  have henough := assignTags_eq_ok_iff.mp ⟨ts, hts⟩
  rw [outOfTags_congr h hk] at henough
  obtain ⟨ts', hts'⟩ := assignTags_eq_ok_iff.mpr henough
  refine ⟨ts', hts', ?_⟩
  rw [automatic_of_assignTags hts, automatic_of_assignTags hts', UsedTags.order_congr h, hk]

/-- **A case without a declared tag that is added at the end leaves the tags of the others alone.**
It is given the next tag of the sequence. -/
theorem assignTags_concat {c : Case} (hts : assignTags cs = .ok ts) (hc : c.tag = none) :
    assignTags (cs ++ [c])
      = ((UsedTags.order (declaredTags cs))[undeclared cs]?).elim (.error (.tagsExhausted c.name))
        fun t => .ok (ts ++ [t]) := by
  have hdeclared : declaredTags (cs ++ [c]) = declaredTags cs := by
    simp [declaredTags, hc]
  rw [assignTags_eq_deal, hdeclared,
    UsedTags.deal_append cs [c] _ ts (assignTags_eq_deal cs ▸ hts), ← List.head?_drop]
  change Except.map _ (UsedTags.deal (List.drop (undeclared cs) _) [c]) = _
  cases List.drop (undeclared cs) (UsedTags.order (declaredTags cs)) with
  | nil =>
    rw [UsedTags.deal_exhausted hc]
    rfl
  | cons t rest =>
    rw [UsedTags.deal_automatic hc]
    rfl

/-- What the tags of some cases are. -/
structure Numbered (cs : List Case) (ts : List UInt32) : Prop where
  length : ts.length = cs.length
  /-- A declared tag is kept. -/
  declared : ∀ (i : Nat) (c : Case) (d : UInt32), cs[i]? = some c → c.tag = some d →
    ts[i]? = some d
  /-- The other cases are given the first tags of the sequence. -/
  automatic : UsedTags.automatic cs ts = (UsedTags.order (declaredTags cs)).take (undeclared cs)
  distinct : (UsedTags.automatic cs ts).Nodup
  fresh : ∀ t ∈ UsedTags.automatic cs ts, t ≠ 0 ∧ t ∉ declaredTags cs

theorem numbered_of_assignTags (h : assignTags cs = .ok ts) : Numbered cs ts := by
  obtain ⟨ts', hts', hall⟩ := assignTags_of_enough (assignTags_eq_ok_iff.mp ⟨ts, h⟩)
  rw [h, Except.ok.injEq] at hts'
  subst hts'
  have hauto := automatic_of_assignTags h
  refine ⟨hall.length, hall.declared, hauto, ?_, fun t ht => ?_⟩
  · rw [hauto]
    exact (UsedTags.nodup_order _).sublist (List.take_sublist ..)
  · rw [hauto] at ht
    exact UsedTags.mem_order.mp (List.mem_of_mem_take ht)

/-- **The closed form of the assignment.**

Where it succeeds, declared tags are kept and the other cases are given the first tags of the
sequence, which are distinct, not zero and declared by nobody; they depend only on which tags are
declared and on how many cases declare none; and a case without a declared tag added at the end
leaves all others as they are.

It fails exactly if more cases declare no tag than there are tags left, and it names the first
case that is left without one: as many cases that declare none stand before it as there are tags. -/
theorem assignTags_closedForm (cs : List Case) :
    (∀ ts, assignTags cs = .ok ts →
      Numbered cs ts ∧
      (∀ cs', (∀ t, t ∈ declaredTags cs ↔ t ∈ declaredTags cs') → undeclared cs = undeclared cs' →
        ∃ ts', assignTags cs' = .ok ts' ∧
          UsedTags.automatic cs' ts' = UsedTags.automatic cs ts) ∧
      ∀ c ts', c.tag = none → assignTags (cs ++ [c]) = .ok ts' → ∃ t, ts' = ts ++ [t]) ∧
    ((∃ e, assignTags cs = .error e) ↔
      (UsedTags.free (declaredTags cs)).card < undeclared cs) ∧
    ∀ e, assignTags cs = .error e →
      ∃ before c after, cs = before ++ c :: after ∧ c.tag = none ∧
        undeclared before = (UsedTags.free (declaredTags cs)).card ∧
        e = .tagsExhausted c.name := by
  refine ⟨fun ts hts => ⟨numbered_of_assignTags hts, fun cs' h hk => automatic_congr hts h hk,
    fun c ts' hc hts' => ?_⟩, ⟨fun ⟨e, he⟩ => ?_, fun hout => ?_⟩, fun e he => ?_⟩
  · rw [assignTags_concat hts hc] at hts'
    cases ht : (UsedTags.order (declaredTags cs))[undeclared cs]? with
    | none => exact absurd (ht ▸ hts') (by simp)
    | some t =>
      rw [ht] at hts'
      exact ⟨t, (Except.ok.inj hts').symm⟩
  · by_contra henough
    obtain ⟨ts, hts⟩ := assignTags_eq_ok_iff.mpr henough
    exact absurd (hts ▸ he) (by simp)
  · obtain ⟨c, -, -, herr⟩ := assignTags_of_exhausted hout
    exact ⟨_, herr⟩
  · rw [assignTags_eq_deal] at he
    obtain ⟨before, c, after, hcs, hc, hlen, rfl⟩ := UsedTags.exists_of_deal_eq_error cs _ e he
    exact ⟨before, c, after, hcs, hc, hlen.trans (UsedTags.length_order _), rfl⟩

/-- The scan starts at the least declared tag, and goes on below it once the largest is used. -/
example : assignTags [{ name := "A" }, { name := "B", tag := some 0xFFFFFFFE }, { name := "C" },
    { name := "D", tag := some 2 }, { name := "E" }] = .ok [3, 0xFFFFFFFE, 4, 2, 5] := by decide

example : assignTags [{ name := "A", tag := some 0xFFFFFFFE }, { name := "B" }, { name := "C" },
    { name := "D" }] = .ok [0xFFFFFFFE, 0xFFFFFFFF, 1, 2] := by decide

end SumLayout
