import SumLayout.Proofs.WithoutOverlap

/-!
# Null in the derived members

Two derived members of a union of types treat null apart, and they look for it in different places:
equality at the **value** that a case has (`Case.comparison_eq_nullSafeValue_iff`), the text form at
the **type** that the case is declared to wrap (`Case.textForm_eq_nullSafeValue_iff`). A declaration
may leave this type out, or name another one than that of the value. So the two members agree on a
case exactly if what it wraps may be null just when its value may be (`nullSafety_of_allocate`).
Otherwise they do not (`unchecked_maybe`): a value that is compared as one that may be null is shown
as one that is never null.
-/

namespace SumLayout

namespace Case

variable {c : Case}

/-- A case is declared to wrap a type that may be null. -/
def WrapsNullable (c : Case) : Prop := ∃ t, c.wraps = some t ∧ t.shape.mayBeNull = true

/-- **Equality allows for null exactly if there is one value and it may be null.** -/
theorem comparison_eq_nullSafeValue_iff :
    c.comparison = .nullSafeValue ↔ ∃ v, c.values = [v] ∧ v.type.shape.mayBeNull = true := by
  unfold comparison
  rcases c.values with _ | ⟨v, _ | ⟨w, vs⟩⟩
  · simp
  · by_cases hv : v.type.shape.mayBeNull = true <;> simp [hv]
  · simp

/-- **The text form allows for null exactly if the type that is wrapped may be null.** -/
theorem textForm_eq_nullSafeValue_iff :
    c.textForm .types = .nullSafeValue ↔ c.WrapsNullable := by
  show (if c.wraps.any (·.shape.mayBeNull) then TextForm.nullSafeValue else .value) =
    .nullSafeValue ↔ _
  rw [WrapsNullable, ← Option.any_eq_true]
  split
  · next h => exact iff_of_true rfl h
  · next h => exact iff_of_false (by simp) h

/-- A case that is made from a type wraps the type of its value, so that the two agree on it. -/
theorem wrapsNullable_ofType {name : String} {t : ValueType} :
    (ofType name t).WrapsNullable ↔ t.shape.mayBeNull = true := by
  constructor
  · rintro ⟨t', ht, hnull⟩
    obtain rfl := Option.some.inj ht
    exact hnull
  · intro hnull
    exact ⟨t, rfl, hnull⟩

end Case

namespace Union

variable {u : Union}

/-- A union with a value is not one of tags only. -/
theorem isTagsOnly_eq_false {i : Nat} {c : Case} (hc : u.cases[i]? = some c)
    (hv : c.values ≠ []) : u.isTagsOnly = false := by
  refine List.all_eq_false.mpr ⟨c, List.mem_of_getElem? hc, ?_⟩
  rw [List.isEmpty_iff]
  exact hv

end Union

namespace Layout

variable {u : Union}

/-- **Where equality and the text form allow for null.** For every layout of a union of types for
which both are generated, and whatever the tags are, a case with one value is compared as one that
may be null exactly if its value may be, and it is shown as one that may be null exactly if the type
that it wraps may be. So the two agree exactly if these do. -/
theorem nullSafety_of_allocate {allowOverlap : Bool} {l : Layout} {tags : List UInt32}
    (hkind : u.kind = .types)
    (hequality : (u.options.effectiveFor u.refLike).generateEquality = true)
    (htext : (u.options.effectiveFor u.refLike).generateText = true)
    (hl : allocate u allowOverlap = .ok l) (hlen : tags.length = u.cases.length) :
    ∃ ms, mapCases u l tags = .ok ms ∧
      ∀ (i : Nat) (c : Case) (v : Value), u.cases[i]? = some c → c.values = [v] →
        ∃ es ts, (u.derive tags ms).equality = some (.perCase es) ∧
          (u.derive tags ms).text = some (.perCase ts) ∧
          (es[i]? = some .nullSafeValue ↔ v.type.shape.mayBeNull = true) ∧
          (ts[i]? = some .nullSafeValue ↔ c.WrapsNullable) ∧
          ((ts[i]? = some .nullSafeValue ↔ es[i]? = some .nullSafeValue) ↔
            (c.WrapsNullable ↔ v.type.shape.mayBeNull = true)) := by
  obtain ⟨-, hb⟩ := built_of_allocate hl
  obtain ⟨ms, hms⟩ := hb.exists_mapsAll (suits_of_allocate hl) tags
  refine ⟨ms, hms.result, ?_⟩
  intro i c v hc hv
  have htagged : u.isTagsOnly = false := Union.isTagsOnly_eq_false hc (by simp [hv])
  have hplan := hb.equalityPlan_eq hms (by rw [hms.length, hlen, Nat.min_self])
  rw [htagged] at hplan
  have hcompared : (u.cases.map Case.comparison)[i]? = some .nullSafeValue ↔
      v.type.shape.mayBeNull = true := by
    rw [List.getElem?_map, hc, Option.map_some, Option.some.injEq,
      Case.comparison_eq_nullSafeValue_iff, hv]
    simp
  have hshown : (u.cases.map (·.textForm u.kind))[i]? = some .nullSafeValue ↔
      c.WrapsNullable := by
    rw [List.getElem?_map, hc, Option.map_some, Option.some.injEq, hkind,
      Case.textForm_eq_nullSafeValue_iff]
  refine ⟨_, _, ?_, ?_, hcompared, hshown, by rw [hcompared, hshown]⟩
  · show (if (u.options.effectiveFor u.refLike).generateEquality then some (u.equalityPlan ms)
      else none) = _
    rw [if_pos hequality, hplan]
    rfl
  · show (if (u.options.effectiveFor u.refLike).generateText then some u.textPlan else none) = _
    rw [if_pos htext, Union.textPlan, htagged]
    rfl

end Layout

/-- A union of types whose cases are made from their types. -/
def Union.wrapped : Union where
  kind := .types
  name := "Value"
  typeName := "Value<T>"
  cases := [.ofType "Number" .int, .ofType "Text" .string,
    .ofType "Other" { name := "T", shape := .typeParam }]

/-- A union of types with a case that leaves out what it wraps. -/
def Union.maybe : Union where
  kind := .types
  name := "Maybe"
  typeName := "Maybe<T>"
  cases := [
    { name := "None",
      wraps := some
        { name := "Unit", shape := .overlapSafeLocalStruct, singletonAccessor := some "Default" } },
    { name := "Some",
      values := [{ name := "value", type := { name := "T", shape := .typeParam } }] }]

namespace Layout

theorem nullSafety_wrapped : ∃ l ms es ts, allocate .wrapped true = .ok l ∧
    mapCases .wrapped l [1, 2, 3] = .ok ms ∧
    (Union.wrapped.derive [1, 2, 3] ms).equality = some (.perCase es) ∧
    (Union.wrapped.derive [1, 2, 3] ms).text = some (.perCase ts) ∧
    es[2]? = some .nullSafeValue ∧ ts[2]? = some .nullSafeValue := by
  have hsolid : ∀ c ∈ Union.wrapped.cases, c.hollow? (classes .wrapped true) = none := by decide
  obtain ⟨l, hl, -⟩ := allocate_of_solid hsolid
  have hlen : [(1 : UInt32), 2, 3].length = Union.wrapped.cases.length := rfl
  obtain ⟨ms, hms, hall⟩ := nullSafety_of_allocate rfl (by decide) (by decide) hl hlen
  obtain ⟨es, ts, hes, hts, hequality, -, hagree⟩ := hall 2 _ _ rfl rfl
  have hcompared := hequality.mpr (by decide)
  exact ⟨l, ms, es, ts, hl, hms, hes, hts, hcompared,
    (hagree.mpr Case.wrapsNullable_ofType).mpr hcompared⟩

/-- **Equality and the text form need not agree**: the value of the second case is compared as one
that may be null, and it is shown as one that is never null. -/
theorem unchecked_maybe : ∃ l ms, allocate .maybe false = .ok l ∧
    mapCases .maybe l [1, 2] = .ok ms ∧
    (Union.maybe.derive [1, 2] ms).equality = some (.perCase [.tagOnly, .nullSafeValue]) ∧
    (Union.maybe.derive [1, 2] ms).text = some (.perCase [.value, .value]) := by
  have hsolid : ∀ c ∈ Union.maybe.cases, c.hollow? (classes .maybe false) = none := by decide
  obtain ⟨l, hl, hb⟩ := allocate_of_solid hsolid
  obtain ⟨ms, hms⟩ := hb.exists_mapsAll (suits_of_allocate hl) [1, 2]
  have hequality : Union.maybe.equalityPlan ms = .perCase [.tagOnly, .nullSafeValue] :=
    (hb.equalityPlan_eq hms hms.length).trans (by decide)
  have htext : Union.maybe.textPlan = .perCase [.value, .value] := by decide
  refine ⟨l, ms, hl, hms.result, ?_, congrArg some htext⟩
  show some (Union.maybe.equalityPlan ms) = _
  rw [hequality]

end Layout

end SumLayout
