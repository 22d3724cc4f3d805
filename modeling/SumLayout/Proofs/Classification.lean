import SumLayout.StorageClass

/-!
# What the class of a shape says

Three things about classes are all that allocation relies on:

* nothing overlaps in a layout without an overlap region (`ofShape_false_ne_overlappable`);
* what is taken apart can be put together again, and in one way (`isRecord_or_isTuple`,
  `isTuple_eq_false_of_isRecord`);
* an overlap region never makes a shape decompose that did not before (`decomposable_of_permitted`).
-/

namespace SumLayout.StorageClass

variable {o : Options} {permitted : Bool} {s : Shape}

/-! ## The chain of downgrades -/

/-- A class that a downgrade neither takes back nor yields is left alone by it. -/
theorem downgrade_eq_iff {k lesser c d : StorageClass} {allowed : Bool} (hk : k ≠ lesser)
    (hd : d ≠ lesser) :
    downgrade k lesser allowed c = d ↔ c = d ∧ (d = k → allowed = true) := by
  unfold downgrade
  split
  · next h =>
    obtain ⟨rfl, hf⟩ := h
    constructor
    · intro he
      exact absurd he.symm hd
    · rintro ⟨rfl, hall⟩
      rw [hall rfl] at hf
      exact absurd hf (by simp)
  · next h =>
    constructor
    · rintro rfl
      refine ⟨rfl, fun he => ?_⟩
      cases allowed with
      | true => rfl
      | false => exact absurd ⟨he, rfl⟩ h
    · exact And.left

theorem ofShape_eq_overlappable_iff :
    ofShape o permitted s = .overlappable ↔
      candidate o permitted s = .overlappable ∧ permitted = true ∧ o.overlapStructs = true := by
  simp [ofShape, downgrade_eq_iff]

theorem ofShape_eq_decomposable_iff :
    ofShape o permitted s = .decomposable ↔
      candidate o permitted s = .decomposable ∧ o.decomposeStructs = true := by
  simp [ofShape, downgrade_eq_iff]

/-! ## What allocation relies on -/

theorem ofShape_false_ne_overlappable : ofShape o false s ≠ .overlappable := by
  simp [ofShape_eq_overlappable_iff]

theorem isRecord_or_isTuple (h : ofShape o permitted s = .decomposable) :
    s.isRecord = true ∨ s.isTuple = true := by
  have hc := (ofShape_eq_decomposable_iff.mp h).1
  cases s <;> simp only [candidate, Shape.isRecord, Shape.isTuple, reduceCtorEq, or_true,
    true_or] at hc ⊢
  all_goals
    -- only the foreign composites that never decompose are left
    split at hc <;> exact absurd hc (by simp)

theorem isTuple_eq_false_of_isRecord (h : s.isRecord = true) : s.isTuple = false := by
  cases s <;> first | rfl | exact absurd h (by simp [Shape.isRecord])

theorem candidate_decomposable_of_permitted (h : candidate o true s = .decomposable) :
    candidate o false s = .decomposable := by
  cases s with
  | overlapSafeTuple | overlapDecomposableLocalRecord => simp [candidate]
  | overlapDecomposableForeignRecord =>
    simp only [candidate] at h
    split at h
    · exact absurd h (by simp)
    · simpa [candidate] using h
  | _ => exact h

theorem decomposable_of_permitted (h : ofShape o true s = .decomposable) :
    ofShape o false s = .decomposable := by
  rw [ofShape_eq_decomposable_iff] at h ⊢
  exact ⟨candidate_decomposable_of_permitted h.1, h.2⟩

end SumLayout.StorageClass
