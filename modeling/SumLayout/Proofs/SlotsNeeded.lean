import Mathlib.Algebra.Order.BigOperators.Group.Finset
import SumLayout.Proofs.FieldCount

/-!
# Comparing how many slots are needed

The slots that cases need are those of each pool together, and a pool needs as many as one case
takes, or, for single values, as all cases take. So fewer leaves need fewer slots
(`slotsNeeded_le_of_demand_le`), and **leaves that share more never need more**
(`slotsNeeded_le_downgraded`): single values that become shared by type do not, nor do either of the
two that become references.

This is said from the side that shares less, since sharing less is what an option that is off does:
it downgrades a class to a lesser one (`SharesLess`).
-/

namespace SumLayout

open Finset

/-- What may be left of the class `k` when its values share less. -/
inductive StorageClass.SharesLess : StorageClass → StorageClass → Prop
  | single : SharesLess .sameType .unique
  | singleReference : SharesLess .reference .unique
  | referenceByType : SharesLess .reference .sameType

namespace Leaf

variable {xs ys : List Leaf} {xss yss : List (List Leaf)} {F : Finset String}

/-- A leaf whose class becomes `lesser` if it is `k`. -/
def downgraded (k lesser : StorageClass) (x : Leaf) : Leaf :=
  { x with storage := .downgrade k lesser false x.storage }

/-- The types of some leaves. -/
def types (xss : List (List Leaf)) : Finset String := (xss.flatten.map (·.typeName)).toFinset

theorem mem_types : xs ∈ xss → ∀ x ∈ xs, x.typeName ∈ types xss := fun hxs _ hx =>
  List.mem_toFinset.mpr (List.mem_map_of_mem (List.mem_flatten.mpr ⟨xs, hxs, hx⟩))

theorem sharedTypes_subset_types : sharedTypes xss ⊆ types xss := by
  intro T hT
  obtain ⟨x, hx, -, rfl⟩ := mem_sharedTypes.mp hT
  obtain ⟨xs, hxs, hx⟩ := List.mem_flatten.mp hx
  exact mem_types hxs x hx

/-- The slots that are needed, pool by pool, over any types that contain the shared ones. -/
theorem slotsNeeded_eq_sum (h : ∀ x ∈ xss.flatten, x.storage ≠ .decomposable)
    (hF : sharedTypes xss ⊆ F) : slotsNeeded xss
      = supply xss .unique + ∑ T ∈ F, supply xss (.sameType T) + supply xss .reference := by
  rw [slotsNeeded_eq h, sum_subset hF fun T _ hT => ?_]
  by_contra hne
  exact hT (mem_sharedTypes_of_supply hne)

/-! ## Fewer leaves -/

theorem foldr_max_le_foldr_max {f g : List Leaf → Nat}
    (h : List.Forall₂ (fun xs ys => f xs ≤ g ys) xss yss) :
    (xss.map f).foldr max 0 ≤ (yss.map g).foldr max 0 := by
  induction h with
  | nil => exact Nat.le_refl _
  | cons hle _ ih => exact max_le_max hle ih

theorem supply_le_of_demand_le {p : Pool}
    (h : List.Forall₂ (fun xs ys => demand xs p ≤ demand ys p) xss yss) :
    supply xss p ≤ supply yss p := by
  by_cases hp : p = .unique
  · subst hp
    rw [supply, supply]
    induction h with
    | nil => exact Nat.le_refl _
    | cons hle _ ih => exact Nat.add_le_add hle ih
  · rw [supply_of_ne _ hp, supply_of_ne _ hp]
    exact foldr_max_le_foldr_max h

/-- **Fewer leaves need fewer slots.** -/
theorem slotsNeeded_le_of_demand_le (hx : ∀ x ∈ xss.flatten, x.storage ≠ .decomposable)
    (hy : ∀ y ∈ yss.flatten, y.storage ≠ .decomposable)
    (h : List.Forall₂ (fun xs ys => ∀ p, demand xs p ≤ demand ys p) xss yss) :
    slotsNeeded xss ≤ slotsNeeded yss := by
  have hle : ∀ p, supply xss p ≤ supply yss p := fun p =>
    supply_le_of_demand_le (h.imp fun _ _ hall => hall p)
  rw [slotsNeeded_eq_sum hx (F := sharedTypes xss ∪ sharedTypes yss) subset_union_left,
    slotsNeeded_eq_sum hy (F := sharedTypes xss ∪ sharedTypes yss) subset_union_right]
  exact Nat.add_le_add (Nat.add_le_add (hle _) (sum_le_sum fun T _ => hle _)) (hle _)

/-! ## Sums and maxima over cases -/

theorem foldr_max_le_sum (ns : List Nat) : ns.foldr max 0 ≤ ns.sum := by
  induction ns with
  | nil => exact Nat.le_refl _
  | cons n ns ih => exact Nat.max_le.mpr ⟨Nat.le_add_right _ _, ih.trans (Nat.le_add_left _ _)⟩

/-- What one case takes of several pools is at most what is needed of each pool. -/
theorem foldr_max_sum_le (F : Finset String) (f : List Leaf → String → Nat) :
    (xss.map fun xs => ∑ T ∈ F, f xs T).foldr max 0
      ≤ ∑ T ∈ F, (xss.map (f · T)).foldr max 0 := by
  induction xss with
  | nil => simp
  | cons xs xss ih =>
    simp only [List.map_cons, List.foldr_cons]
    refine Nat.max_le.mpr ⟨sum_le_sum fun T _ => Nat.le_max_left _ _, ih.trans ?_⟩
    exact sum_le_sum fun T _ => Nat.le_max_right _ _

/-- What is needed of each pool is at most what all cases take of all of them. -/
theorem sum_foldr_max_le (F : Finset String) (f : List Leaf → String → Nat) :
    ∑ T ∈ F, (xss.map (f · T)).foldr max 0 ≤ (xss.map fun xs => ∑ T ∈ F, f xs T).sum := by
  induction xss with
  | nil => simp
  | cons xs xss ih =>
    simp only [List.map_cons, List.foldr_cons, List.sum_cons]
    calc ∑ T ∈ F, max (f xs T) ((xss.map (f · T)).foldr max 0)
        ≤ ∑ T ∈ F, (f xs T + (xss.map (f · T)).foldr max 0) :=
          sum_le_sum fun T _ => Nat.max_le.mpr ⟨Nat.le_add_right _ _, Nat.le_add_left _ _⟩
      _ = ∑ T ∈ F, f xs T + ∑ T ∈ F, (xss.map (f · T)).foldr max 0 := sum_add_distrib
      _ ≤ _ := Nat.add_le_add_left ih _

/-- Two counts of which one is zero in every case have their maxima added. -/
theorem foldr_max_add_le {f g : List Leaf → Nat}
    (h : (∀ xs ∈ xss, f xs = 0) ∨ ∀ xs ∈ xss, g xs = 0) :
    (xss.map f).foldr max 0 + (xss.map g).foldr max 0
      ≤ (xss.map fun xs => f xs + g xs).foldr max 0 := by
  have hzero : ∀ {k : List Leaf → Nat}, (∀ xs ∈ xss, k xs = 0) → (xss.map k).foldr max 0 = 0 := by
    intro k hk
    refine foldr_max_eq_zero fun n hn => ?_
    obtain ⟨xs, hxs, rfl⟩ := List.mem_map.mp hn
    exact hk xs hxs
  have hrefl : List.Forall₂ (fun a b : List Leaf => a = b) xss xss := List.forall₂_refl _
  rcases h with h | h
  · rw [hzero h, Nat.zero_add]
    exact foldr_max_le_foldr_max (hrefl.imp fun _ _ he => he ▸ Nat.le_add_left _ _)
  · rw [hzero h, Nat.add_zero]
    exact foldr_max_le_foldr_max (hrefl.imp fun _ _ he => he ▸ Nat.le_add_right _ _)

/-! ## Splitting a pool -/

/-- The references of one type among some leaves. -/
def references (xs : List Leaf) (T : String) : Nat :=
  xs.countP fun x => x.storage == .reference && x.typeName == T

/-- What is counted type by type is counted in total. -/
theorem sum_countP_typeName (q : Leaf → Bool) (h : ∀ x ∈ xs, x.typeName ∈ F) :
    ∑ T ∈ F, xs.countP (fun x => q x && x.typeName == T) = xs.countP q := by
  induction xs with
  | nil => simp
  | cons x xs ih =>
    obtain ⟨hx, hxs⟩ := List.forall_mem_cons.mp h
    have hone : ∑ T ∈ F, (if (q x && x.typeName == T) = true then 1 else 0)
        = if q x = true then 1 else 0 := by
      cases q x <;> simp [hx]
    simp only [List.countP_cons, sum_add_distrib, ih hxs, hone]

theorem sum_references (h : ∀ x ∈ xs, x.typeName ∈ F) :
    ∑ T ∈ F, references xs T = demand xs .reference := by
  rw [demand_reference]
  exact sum_countP_typeName _ h

theorem sum_demand_sameType (h : ∀ x ∈ xs, x.typeName ∈ F) :
    ∑ T ∈ F, demand xs (.sameType T) = xs.countP (·.storage == .sameType) := by
  simp only [demand_sameType]
  exact sum_countP_typeName _ h

section Downgrading

variable {k lesser : StorageClass}

theorem types_downgraded : types (xss.map (List.map (downgraded k lesser))) = types xss := by
  rw [types, types, ← List.map_flatten, List.map_map]
  rfl

theorem ne_decomposable_of_downgraded (hl : lesser ≠ .decomposable)
    (h : ∀ x ∈ xss.flatten, x.storage ≠ .decomposable) :
    ∀ y ∈ (xss.map (List.map (downgraded k lesser))).flatten, y.storage ≠ .decomposable := by
  intro y hy
  rw [← List.map_flatten] at hy
  obtain ⟨x, hx, rfl⟩ := List.mem_map.mp hy
  show StorageClass.downgrade k lesser false x.storage ≠ _
  rw [StorageClass.downgrade]
  split
  · exact hl
  · exact h x hx

theorem downgraded_of_eq {x : Leaf} (h : x.storage = k) :
    x.downgraded k lesser = ⟨lesser, x.typeName⟩ := by
  rw [downgraded, StorageClass.downgrade, if_pos ⟨h, rfl⟩]

theorem downgraded_of_ne {x : Leaf} (h : x.storage ≠ k) : x.downgraded k lesser = x := by
  rw [downgraded, StorageClass.downgrade, if_neg fun hk => h hk.1]

/-- A pool that the downgraded class does not draw from gains the leaves whose lesser class does. -/
theorem demand_downgraded {p : Pool} (h : ∀ x : Leaf, x.storage = k → x.pool? ≠ some p) :
    demand (xs.map (downgraded k lesser)) p = demand xs p
      + xs.countP fun x => x.storage == k && (Leaf.mk lesser x.typeName).pool? == some p := by
  induction xs with
  | nil => rfl
  | cons x xs ih =>
    rw [demand, demand] at ih ⊢
    rw [List.map_cons, List.countP_cons, List.countP_cons, List.countP_cons, ih]
    by_cases hx : x.storage = k
    · simp [downgraded_of_eq hx, hx, h x hx]
      omega
    · simp [downgraded_of_ne hx, hx]
      omega

/-- Leaves that are stored alone draw from the pool of single values. -/
theorem demand_downgraded_unique (hk : k = .sameType ∨ k = .reference) (xs : List Leaf) :
    demand (xs.map (downgraded k .unique)) .unique
      = demand xs .unique + xs.countP (·.storage == k) := by
  rw [demand_downgraded fun x hx => by rcases hk with rfl | rfl <;> simp [pool?, hx]]
  simp [pool?]

/-- References that are shared by type draw from the pools of their types. -/
theorem demand_downgraded_sameType (xs : List Leaf) (T : String) :
    demand (xs.map (downgraded .reference .sameType)) (.sameType T)
      = demand xs (.sameType T) + references xs T := by
  rw [demand_downgraded fun x hx => by simp [pool?, hx], references]
  refine congrArg _ (List.countP_congr fun x _ => ?_)
  simp [pool?]

/-- A pool that neither class draws from needs as many slots as before. -/
theorem supply_downgraded {p : Pool} (h : ∀ x : Leaf, x.storage = k → x.pool? ≠ some p)
    (hl : ∀ T, (Leaf.mk lesser T).pool? ≠ some p) :
    supply (xss.map (List.map (downgraded k lesser))) p = supply xss p := by
  have hmap : (xss.map (List.map (downgraded k lesser))).map (demand · p)
      = xss.map (demand · p) := by
    rw [List.map_map]
    refine List.map_congr_left fun xs _ => (demand_downgraded h).trans ?_
    simp [hl]
  by_cases hp : p = .unique
  · rw [hp] at hmap ⊢
    rw [supply, supply, hmap]
  · rw [supply_of_ne _ hp, supply_of_ne _ hp, hmap]

theorem supply_downgraded_unique (hk : k = .sameType ∨ k = .reference) :
    supply (xss.map (List.map (downgraded k .unique))) .unique
      = supply xss .unique + (xss.map fun xs => xs.countP (·.storage == k)).sum := by
  rw [supply, supply, List.map_map, ← List.sum_map_add]
  exact congrArg List.sum (List.map_congr_left fun xs _ => demand_downgraded_unique hk xs)

/-- **Values shared by type never need more slots than single values.** -/
theorem slotsNeeded_le_downgraded_sameType (h : ∀ x ∈ xss.flatten, x.storage ≠ .decomposable) :
    slotsNeeded xss ≤ slotsNeeded (xss.map (List.map (downgraded .sameType .unique))) := by
  have href : supply (xss.map (List.map (downgraded .sameType .unique))) .reference
      = supply xss .reference :=
    supply_downgraded (fun x hx => by simp [pool?, hx]) (by simp [pool?])
  have hshared : ∑ T ∈ types xss, supply xss (.sameType T)
      ≤ (xss.map fun xs => xs.countP (·.storage == .sameType)).sum := by
    refine (sum_foldr_max_le (types xss) fun xs T => demand xs (.sameType T)).trans_eq ?_
    refine congrArg List.sum (List.map_congr_left fun xs hm => ?_)
    exact sum_demand_sameType (mem_types hm)
  rw [slotsNeeded_eq_sum h sharedTypes_subset_types,
    slotsNeeded_eq_sum (ne_decomposable_of_downgraded (by decide) h) sharedTypes_subset_types,
    supply_downgraded_unique (.inl rfl), href]
  omega

/-- **References never need more slots than single values.** -/
theorem slotsNeeded_le_downgraded_reference_unique
    (h : ∀ x ∈ xss.flatten, x.storage ≠ .decomposable) :
    slotsNeeded xss ≤ slotsNeeded (xss.map (List.map (downgraded .reference .unique))) := by
  have hsame : ∀ T, supply (xss.map (List.map (downgraded .reference .unique))) (.sameType T)
      = supply xss (.sameType T) := fun T =>
    supply_downgraded (fun x hx => by simp [pool?, hx]) (by simp [pool?])
  have href : supply xss .reference
      ≤ (xss.map fun xs => xs.countP (·.storage == .reference)).sum := by
    simp only [supply, demand_reference]
    exact foldr_max_le_sum _
  rw [slotsNeeded_eq_sum h sharedTypes_subset_types,
    slotsNeeded_eq_sum (ne_decomposable_of_downgraded (by decide) h) sharedTypes_subset_types,
    supply_downgraded_unique (.inr rfl), types_downgraded]
  simp only [hsame]
  omega

/-- If no type is used both for values shared by type and for references, each type is used for one
of the two in all cases. -/
theorem Separated.unused (h : Separated xss) (T : String) :
    (∀ xs ∈ xss, demand xs (.sameType T) = 0) ∨ ∀ xs ∈ xss, references xs T = 0 := by
  by_cases hT : T ∈ sharedTypes xss
  · refine .inr fun xs hm => List.countP_eq_zero.mpr fun y hy hr => ?_
    obtain ⟨x, hx, hs, rfl⟩ := mem_sharedTypes.mp hT
    rw [Bool.and_eq_true, beq_iff_eq, beq_iff_eq] at hr
    exact (h x hx y (List.mem_flatten.mpr ⟨xs, hm, hy⟩) hs hr.1).1 hr.2.symm
  · refine .inl fun xs hm => ?_
    rw [demand_sameType, List.countP_eq_zero]
    intro x hx hs
    rw [Bool.and_eq_true, beq_iff_eq, beq_iff_eq] at hs
    exact hT (mem_sharedTypes.mpr ⟨x, List.mem_flatten.mpr ⟨xs, hm, hx⟩, hs⟩)

/-- **References never need more slots than values shared by type**, if no type is used for both. -/
theorem slotsNeeded_le_downgraded_reference_sameType
    (h : ∀ x ∈ xss.flatten, x.storage ≠ .decomposable) (hsep : Separated xss) :
    slotsNeeded xss ≤ slotsNeeded (xss.map (List.map (downgraded .reference .sameType))) := by
  have hunique : supply (xss.map (List.map (downgraded .reference .sameType))) .unique
      = supply xss .unique :=
    supply_downgraded (fun x hx => by simp [pool?, hx]) (by simp [pool?])
  have hsame : ∀ T, supply (xss.map (List.map (downgraded .reference .sameType))) (.sameType T)
      = (xss.map fun xs => demand xs (.sameType T) + references xs T).foldr max 0 := by
    intro T
    rw [supply_of_ne _ (by simp), List.map_map]
    exact congrArg (List.foldr max 0)
      (List.map_congr_left fun xs _ => demand_downgraded_sameType xs T)
  have href : supply xss .reference
      ≤ ∑ T ∈ types xss, (xss.map (references · T)).foldr max 0 := by
    refine le_of_eq_of_le ?_ (foldr_max_sum_le (types xss) references)
    refine congrArg (List.foldr max 0) (List.map_congr_left fun xs hm => ?_)
    exact (sum_references (mem_types hm)).symm
  have hsum : ∑ T ∈ types xss, supply xss (.sameType T)
        + ∑ T ∈ types xss, (xss.map (references · T)).foldr max 0
      ≤ ∑ T ∈ types xss,
          (xss.map fun xs => demand xs (.sameType T) + references xs T).foldr max 0 := by
    rw [← sum_add_distrib]
    exact sum_le_sum fun T _ => foldr_max_add_le (hsep.unused T)
  rw [slotsNeeded_eq_sum h sharedTypes_subset_types,
    slotsNeeded_eq_sum (ne_decomposable_of_downgraded (by decide) h) sharedTypes_subset_types,
    hunique, types_downgraded]
  simp only [hsame]
  omega

/-- **Leaves that share less never need fewer slots**, if no type is used both for values shared by
type and for references. -/
theorem slotsNeeded_le_downgraded (hk : k.SharesLess lesser)
    (h : ∀ x ∈ xss.flatten, x.storage ≠ .decomposable) (hsep : Separated xss) :
    slotsNeeded xss ≤ slotsNeeded (xss.map (List.map (downgraded k lesser))) := by
  cases hk with
  | single => exact slotsNeeded_le_downgraded_sameType h
  | singleReference => exact slotsNeeded_le_downgraded_reference_unique h
  | referenceByType => exact slotsNeeded_le_downgraded_reference_sameType h hsep

end Downgrading

end Leaf

end SumLayout
