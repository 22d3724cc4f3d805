import Mathlib.Data.Nat.Find
import SumLayout.Proofs.RoundTrip
import SumLayout.Proofs.Verification

/-!
# What the check says under any tags

The check stops at the first case that fails (`verify_eq_error`). As every case of a layout reads
back what it has written, a case fails exactly if another one has its tag
(`MapsAll.mismatch?_eq_none_iff`). So **the check passes exactly under different tags, and otherwise
names the first case whose tag is used again** (`verify_of_allocate`).
-/

namespace SumLayout

namespace Layout

variable {l : Layout} {u : Union} {tags : List UInt32} {ms : List CaseMapping} {i : Nat}
  {own : Entry}

/-- The tag at a position stands at some other position as well. -/
def Repeats (tags : List UInt32) (i : Nat) : Prop :=
  ∃ j, j ≠ i ∧ ∃ tag, tags[i]? = some tag ∧ tags[j]? = some tag

theorem nodup_iff_not_repeats : tags.Nodup ↔ ∀ i, ¬Repeats tags i := by
  constructor
  · rintro hnd i ⟨j, hne, tag, hi, hj⟩
    exact hne ((List.getElem?_inj (List.getElem?_eq_some_iff.mp hj).1 hnd).mp (hj.trans hi.symm))
  · intro h
    rw [List.nodup_iff_getElem?_ne_getElem?]
    intro i j hlt hj he
    have htag := List.getElem?_eq_getElem hj
    exact h i ⟨j, Nat.ne_of_gt hlt, tags[j], he.trans htag, htag⟩

theorem Repeats.lt_length {k : Nat} (h : Repeats (tags.take k) i) : i < k := by
  obtain ⟨-, -, tag, hi, -⟩ := h
  exact Nat.lt_of_lt_of_le (List.getElem?_eq_some_iff.mp hi).1 (List.length_take_le ..)

theorem exists_first_repeats (h : ¬tags.Nodup) :
    ∃ i, Repeats tags i ∧ ∀ j < i, ¬Repeats tags j := by
  classical
  have hex : ∃ i, Repeats tags i := by
    by_contra hno
    exact h (nodup_iff_not_repeats.mpr (not_exists.mp hno))
  exact ⟨Nat.find hex, Nat.find_spec hex, fun j hj => Nat.find_min hex hj⟩

/-! ## The first failure -/

theorem getElem?_entries : (entries u ms)[i]? = some own ↔
    own.position = i ∧ u.cases[i]? = some own.subject ∧ ms[i]? = some own.mapping := by
  obtain ⟨position, subject, mapping⟩ := own
  rw [entries, List.getElem?_map, List.getElem?_zipIdx, Nat.zero_add]
  simp only [Option.map_map, Option.map_eq_some_iff, Function.comp, Entry.mk.injEq, Prod.exists,
    List.getElem?_zip_eq_some]
  constructor
  · rintro ⟨c, m, ⟨hc, hm⟩, hi, rfl, rfl⟩
    exact ⟨hi.symm, hc, hm⟩
  · rintro ⟨hi, hc, hm⟩
    exact ⟨_, _, ⟨hc, hm⟩, hi.symm, rfl, rfl⟩

/-- **The check fails with the first failure**, in order of cases. -/
theorem verify_eq_error {e : PlanError} (ho : (entries u ms)[i]? = some own)
    (he : l.mismatch? (entries u ms) own = some e)
    (hbefore : ∀ d ∈ entries u ms, d.position < i → l.mismatch? (entries u ms) d = none) :
    verify u l ms = .error e := by
  obtain ⟨hi, hown⟩ := List.getElem?_eq_some_iff.mp ho
  have hfirst : (entries u ms).findSome? (l.mismatch? (entries u ms)) = some e := by
    rw [List.findSome?_eq_some_iff]
    refine ⟨(entries u ms).take i, own, (entries u ms).drop (i + 1), ?_, he, fun d hd => ?_⟩
    · rw [← hown, List.getElem_cons_drop, List.take_append_drop]
    · obtain ⟨j, hj, rfl⟩ := List.mem_take_iff_getElem.mp hd
      refine hbefore _ (List.getElem_mem _) ?_
      rw [(getElem?_entries.mp (List.getElem?_eq_getElem _)).1]
      exact Nat.lt_of_lt_of_le hj (Nat.min_le_left ..)
  rw [verify, hfirst]

theorem verify_eq_ok_iff :
    verify u l ms = .ok () ↔ ∀ d ∈ entries u ms, l.mismatch? (entries u ms) d = none := by
  rw [verify, ← List.findSome?_eq_none_iff]
  cases (entries u ms).findSome? (l.mismatch? (entries u ms)) <;> simp

/-! ## Which cases fail -/

/-- A leak is reported on the case that was written. -/
theorem leak?_eq_some {s : Storage String} {other : Entry} {e : PlanError}
    (h : leak? s own other = some e) :
    ∃ wanted seen, e = .roundTrip own.subject.name wanted seen := by
  rw [leak?] at h
  by_cases hpos : other.position = own.position
  · rw [if_pos hpos] at h
    exact absurd h (by simp)
  · rw [if_neg hpos] at h
    dsimp only at h
    split at h
    · exact ⟨_, _, (Option.some.inj h).symm⟩
    · exact absurd h (by simp)

/-- The tags that cases are read under. -/
theorem MapsAll.map_readTag (h : l.MapsAll 0 u.cases tags ms) :
    ms.map (·.read.tag) = tags.take ms.length := by
  refine List.ext_getElem? fun i => ?_
  rw [List.getElem?_map]
  cases hm : ms[i]? with
  | none =>
    rw [List.getElem?_eq_none_iff] at hm
    rw [Option.map_none, eq_comm, List.getElem?_eq_none_iff, List.length_take]
    exact Nat.le_trans (Nat.min_le_left ..) hm
  | some m =>
    obtain ⟨c, hc⟩ := h.exists_case hm
    obtain ⟨tag, ht, hmap⟩ := h.maps_at hc hm
    rw [Option.map_some, hmap.readTag, List.getElem?_take_of_lt
      (List.getElem?_eq_some_iff.mp hm).1, ht]

/-- **A case fails exactly if another one has its tag.** -/
theorem MapsAll.mismatch?_eq_none_iff (h : l.MapsAll 0 u.cases tags ms)
    (ho : own ∈ entries u ms) : l.mismatch? (entries u ms) own = none ↔
      ¬Repeats (tags.take ms.length) own.position := by
  obtain ⟨hc, hm⟩ := mem_entries.mp ho
  obtain ⟨tag, ht, hmap⟩ := h.maps_at hc hm
  have hown : (tags.take ms.length)[own.position]? = some tag := by
    rw [← h.map_readTag, List.getElem?_map, hm, Option.map_some, hmap.readTag]
  rw [h.mismatch?_eq ho, List.findSome?_eq_none_iff]
  simp only [leak?_eq_none_iff, Storage.tag_construct, hmap.constructionTag]
  constructor
  · rintro hall ⟨j, hne, tag', hi, hj⟩
    rw [hown, Option.some.injEq] at hi
    subst hi
    rw [← h.map_readTag, List.getElem?_map, Option.map_eq_some_iff] at hj
    obtain ⟨m, hmj, htag⟩ := hj
    obtain ⟨d, hd⟩ := h.exists_case hmj
    exact (hall ⟨j, d, m⟩ (mem_entries.mpr ⟨hd, hmj⟩)).elim hne fun hno => hno htag
  · intro hno other hother
    rw [or_iff_not_imp_left]
    intro hne htag
    refine hno ⟨other.position, hne, tag, hown, ?_⟩
    rw [← h.map_readTag, List.getElem?_map, (mem_entries.mp hother).2, Option.map_some, htag]

/-- A case whose tag is used again is reported. -/
theorem MapsAll.exists_mismatch (h : l.MapsAll 0 u.cases tags ms) (ho : own ∈ entries u ms)
    (hr : Repeats (tags.take ms.length) own.position) :
    ∃ wanted seen, l.mismatch? (entries u ms) own
      = some (.roundTrip own.subject.name wanted seen) := by
  have hne : l.mismatch? (entries u ms) own ≠ none := fun hnone =>
    (h.mismatch?_eq_none_iff ho).mp hnone hr
  obtain ⟨e, he⟩ := Option.ne_none_iff_exists'.mp hne
  have hfind := (h.mismatch?_eq ho (entries u ms)).symm.trans he
  obtain ⟨other, -, hleak⟩ := List.exists_of_findSome?_eq_some hfind
  obtain ⟨wanted, seen, rfl⟩ := leak?_eq_some hleak
  exact ⟨wanted, seen, he⟩

theorem MapsAll.exists_entry (h : l.MapsAll 0 u.cases tags ms) (hi : i < ms.length) :
    ∃ own, (entries u ms)[i]? = some own := by
  have hm := List.getElem?_eq_getElem hi
  obtain ⟨c, hc⟩ := h.exists_case hm
  exact ⟨⟨i, c, ms[i]⟩, getElem?_entries.mpr ⟨rfl, hc, hm⟩⟩

/-- **The check passes exactly under different tags.** Under any tags each case that has one is
mapped; the check then fails exactly if a tag is used twice, and names the first case whose tag is
used again. -/
theorem verify_of_allocate {allowOverlap : Bool} (hl : allocate u allowOverlap = .ok l)
    (tags : List UInt32) :
    ∃ ms, mapCases u l tags = .ok ms ∧ ms.length = min u.cases.length tags.length ∧
      (verify u l ms = .ok () ↔ (tags.take ms.length).Nodup) ∧
      (¬(tags.take ms.length).Nodup → ∃ i c wanted seen, u.cases[i]? = some c ∧
        Repeats (tags.take ms.length) i ∧ (∀ j < i, ¬Repeats (tags.take ms.length) j) ∧
        verify u l ms = .error (.roundTrip c.name wanted seen)) := by
  obtain ⟨ms, hms⟩ := (built_of_allocate hl).2.exists_mapsAll (suits_of_allocate hl) tags
  refine ⟨ms, hms.result, hms.length, ?_, fun hdup => ?_⟩
  · rw [verify_eq_ok_iff, nodup_iff_not_repeats]
    constructor
    · intro hall i hr
      obtain ⟨own, hown⟩ := hms.exists_entry hr.lt_length
      have hmem := List.mem_of_getElem? hown
      refine (hms.mismatch?_eq_none_iff hmem).mp (hall own hmem) ?_
      rw [(getElem?_entries.mp hown).1]
      exact hr
    · exact fun hall d hd => (hms.mismatch?_eq_none_iff hd).mpr (hall d.position)
  · -- the first of the positions whose tags are used again
    obtain ⟨i, hr, hfirst⟩ := exists_first_repeats hdup
    obtain ⟨own, hown⟩ := hms.exists_entry hr.lt_length
    have hmem := List.mem_of_getElem? hown
    obtain ⟨hpos, hc, -⟩ := getElem?_entries.mp hown
    obtain ⟨wanted, seen, he⟩ := hms.exists_mismatch hmem (hpos ▸ hr)
    exact ⟨i, own.subject, wanted, seen, hc, hr, hfirst, verify_eq_error hown he fun d hd hlt =>
      (hms.mismatch?_eq_none_iff hd).mpr (hfirst d.position hlt)⟩

theorem verify_figures : ∃ l ms, allocate .figures true = .ok l ∧
    mapCases .figures l [2, 5, 2] = .ok ms ∧ ms.length = 3 ∧
    ∃ wanted seen, verify .figures l ms = .error (.roundTrip "Circle" wanted seen) := by
  obtain ⟨l, hl, -⟩ := allocate_figures
  obtain ⟨ms, hms, hlen, -, hdup⟩ := verify_of_allocate hl [2, 5, 2]
  have hthree : ms.length = 3 := hlen
  rw [hthree] at hdup
  obtain ⟨i, c, wanted, seen, hc, -, hfirst, he⟩ := hdup (by decide)
  -- the tag of the first case is used again, so that no later case is the first one
  have hzero : i = 0 := by
    by_contra hne
    exact hfirst 0 (Nat.pos_of_ne_zero hne) ⟨2, by decide, 2, rfl, rfl⟩
  subst hzero
  have hname : c.name = "Circle" := by
    rw [← Option.some.inj hc]
  exact ⟨l, ms, hl, hms, hthree, wanted, seen, hname ▸ he⟩

end Layout

end SumLayout
