import SumLayout.Proofs.Selection

/-!
# When there is no layout

Storing a case comes to its parameters and, below a value that is taken apart, to its members. The
values that it comes to are listed here in order of declaration, a value before its members
(`Union.reached`), and what can be in the way of a layout is one of them that is **hollow**: to be
taken apart, but without members.

The search of allocation for a hollow part (`Value.hollowAll?`) is the search for the first hollow
value of the list (`hollowAll?_eq_find?`). So **allocation fails exactly if some reached value is
hollow, and names the first one** (`allocate_outcome`).
-/

namespace SumLayout

/-- A value is hollow if it is to be taken apart but has no members. -/
def Value.isHollow (classOf : Shape → StorageClass) (v : Value) : Bool :=
  classOf v.type.shape == .decomposable && v.members.isEmpty

/-- A value that storing a case comes to. -/
structure ReachedValue where
  subject : Case
  /-- The names from the parameter down to the value. -/
  path : List String
  value : Value

/-- What allocation says of a value that is hollow. -/
def ReachedValue.error (r : ReachedValue) : PlanError :=
  .invalidShape r.subject.name (Text.dotted r.path) r.value.type.shape .noMembers

namespace Value

mutual

/-- What storing a value comes to, with the paths: the value itself, and then its members if it is
taken apart. -/
def reached (classOf : Shape → StorageClass) (path : List String) : Value →
    List (List String × Value)
  | ⟨name, type, members⟩ =>
    (path ++ [name], ⟨name, type, members⟩) ::
      if classOf type.shape = .decomposable then reachedAll classOf (path ++ [name]) members
      else []

/-- What storing some values comes to, one value after another. -/
def reachedAll (classOf : Shape → StorageClass) (path : List String) : List Value →
    List (List String × Value)
  | [] => []
  | v :: vs => v.reached classOf path ++ reachedAll classOf path vs

end

variable {classOf : Shape → StorageClass} {path : List String} {name : String} {type : ValueType}
  {members vs : List Value}

theorem reachedAll_cons_leaf (hk : classOf type.shape ≠ .decomposable) :
    reachedAll classOf path (⟨name, type, members⟩ :: vs)
      = (path ++ [name], ⟨name, type, members⟩) :: reachedAll classOf path vs := by
  rw [reachedAll, reached, if_neg hk, List.singleton_append]

theorem reachedAll_cons_composite (hk : classOf type.shape = .decomposable) :
    reachedAll classOf path (⟨name, type, members⟩ :: vs)
      = (path ++ [name], ⟨name, type, members⟩) ::
          (reachedAll classOf (path ++ [name]) members ++ reachedAll classOf path vs) := by
  rw [reachedAll, reached, if_pos hk, List.cons_append]

/-- **The first hollow part is the first hollow value that is reached.** -/
theorem hollowAll?_eq_find? (vs : List Value) : ∀ path : List String, hollowAll? classOf path vs
    = ((reachedAll classOf path vs).find? (·.2.isHollow classOf)).map
        fun r => (r.1, r.2.type.shape) := by
  induction vs using forest_induction with
  | nil => exact fun _ => rfl
  | cons name type members vs ihm ih =>
    intro path
    by_cases hk : classOf type.shape = .decomposable
    · rw [hollowAll?_cons_composite hk, reachedAll_cons_composite hk, List.find?_cons]
      cases hm : members.isEmpty with
      | true =>
        have hhollow : isHollow classOf ⟨name, type, members⟩ = true := by
          simp [isHollow, hk, hm]
        simp [hhollow]
      | false =>
        have hsolid : isHollow classOf ⟨name, type, members⟩ = false := by
          simp [isHollow, hm]
        -- the members are searched before the other values
        simp only [hsolid, Bool.false_eq_true, if_false, List.find?_append, Option.map_or, ihm, ih]
    · have hsolid : isHollow classOf ⟨name, type, members⟩ = false := by
        simp [isHollow, hk]
      rw [hollowAll?_cons_leaf hk, reachedAll_cons_leaf hk, List.find?_cons, hsolid, ih]

end Value

/-- The values that storing a case comes to. -/
def Case.reached (classOf : Shape → StorageClass) (c : Case) : List ReachedValue :=
  (Value.reachedAll classOf [] c.values).map fun r => ⟨c, r.1, r.2⟩

/-- The first hollow part of a case is its first hollow value. -/
theorem Case.map_hollow? (classOf : Shape → StorageClass) (c : Case) :
    (c.hollow? classOf).map (fun h => (c, h))
      = ((c.reached classOf).find? (·.value.isHollow classOf)).map
          fun r => (r.subject, r.path, r.value.type.shape) := by
  rw [hollow?, Value.hollowAll?_eq_find?, reached, List.find?_map, Option.map_map, Option.map_map]
  rfl

namespace Union

/-- The values that storing a union comes to, case after case. -/
def reached (classOf : Shape → StorageClass) (u : Union) : List ReachedValue :=
  u.cases.flatMap (Case.reached classOf)

/-- The first value of a union that is hollow. -/
def firstHollow? (classOf : Shape → StorageClass) (u : Union) : Option ReachedValue :=
  (u.reached classOf).find? (·.value.isHollow classOf)

/-- **The first case with a hollow part is that of the first hollow value.** -/
theorem findSome?_hollow? (classOf : Shape → StorageClass) (u : Union) :
    u.cases.findSome? (fun c => (c.hollow? classOf).map fun h => (c, h))
      = (u.firstHollow? classOf).map fun r => (r.subject, r.path, r.value.type.shape) := by
  unfold firstHollow? reached
  induction u.cases with
  | nil => rfl
  | cons c cs ih =>
    rw [List.findSome?_cons, List.flatMap_cons, List.find?_append, Option.map_or,
      ← Case.map_hollow?, ih]
    cases c.hollow? classOf <;> rfl

end Union

/-- Steps with two hollow values, one of them inside a tuple. -/
def Union.steps : Union where
  kind := .tags
  name := "Step"
  typeName := "Step"
  cases := [
    { name := "Start", values := [{ name := "at", type := .int }] },
    { name := "Move", values := [
      { name := "by", type := { name := "Pair", shape := .nonOverlapSafeTuple }, members := [
        { name := "first", type := .int },
        { name := "second", type := { name := "Unit", shape := .decomposableLocalRecord } }] },
      { name := "rest", type := { name := "Unit", shape := .decomposableLocalRecord } }] }]

namespace Layout

variable {u : Union} {allowOverlap : Bool}

/-- **Allocation fails with what there is to say of the first hollow value**, and only then. -/
theorem allocate_eq_error_iff {e : PlanError} : allocate u allowOverlap = .error e ↔
    ∃ r, u.firstHollow? (classes u allowOverlap) = some r ∧ e = r.error := by
  have hfirst := u.findSome?_hollow? (classes u allowOverlap)
  cases hr : u.firstHollow? (classes u allowOverlap) with
  | none =>
    rw [hr, Option.map_none] at hfirst
    obtain ⟨l, hl, -⟩ := allocate_of_solid (hollow?_eq_none_of_findSome? hfirst)
    simp [hl]
  | some r =>
    rw [hr, Option.map_some] at hfirst
    have herror : allocate u allowOverlap = .error r.error := allocate_of_hollow hfirst
    rw [herror, Except.error.injEq]
    constructor
    · intro he
      exact ⟨r, rfl, he.symm⟩
    · rintro ⟨r', hr', he⟩
      rw [he, Option.some.inj hr']

theorem exists_allocate_error_iff : (∃ e, allocate u allowOverlap = .error e) ↔
    ∃ r ∈ u.reached (classes u allowOverlap), r.value.isHollow (classes u allowOverlap) = true := by
  rw [← List.find?_isSome, ← Union.firstHollow?, Option.isSome_iff_exists]
  constructor
  · rintro ⟨e, he⟩
    obtain ⟨r, hr, -⟩ := allocate_eq_error_iff.mp he
    exact ⟨r, hr⟩
  · rintro ⟨r, hr⟩
    exact ⟨r.error, allocate_eq_error_iff.mpr ⟨r, hr, rfl⟩⟩

/-- **When a union has no layout.** Allocation fails exactly if some reached value is hollow, and
then it names the first one. An overlap region is never in the way of a layout, and so choosing
between the layouts fails exactly as the plain one does. -/
theorem allocate_outcome (u : Union) :
    (∀ allowOverlap,
      ((∃ e, allocate u allowOverlap = .error e) ↔
        ∃ r ∈ u.reached (classes u allowOverlap),
          r.value.isHollow (classes u allowOverlap) = true) ∧
      ∀ e, allocate u allowOverlap = .error e ↔
        ∃ r, u.firstHollow? (classes u allowOverlap) = some r ∧ e = r.error) ∧
    ((∃ plain, allocate u false = .ok plain) → ∃ l, allocate u true = .ok l) ∧
    ∀ e, select u = .error e ↔ allocate u false = .error e := by
  refine ⟨fun _ => ⟨exists_allocate_error_iff, fun _ => allocate_eq_error_iff⟩, ?_,
    fun _ => select_error_iff⟩
  rintro ⟨plain, hplain⟩
  exact allocate_of_plain hplain true

/-- Of two hollow values, the one that is declared first is named, though it lies deeper. -/
theorem allocate_outcome_steps :
    (∃ r ∈ Union.steps.reached (classes .steps true),
      r.value.isHollow (classes .steps true) = true) ∧
    allocate .steps true
      = .error (.invalidShape "Move" "by.second" .decomposableLocalRecord .noMembers) ∧
    select .steps
      = .error (.invalidShape "Move" "by.second" .decomposableLocalRecord .noMembers) := by
  obtain ⟨herror, -, hselect⟩ := allocate_outcome .steps
  have hfails : ∀ allowOverlap, allocate .steps allowOverlap
      = .error (.invalidShape "Move" "by.second" .decomposableLocalRecord .noMembers) := by
    intro allowOverlap
    refine ((herror allowOverlap).2 _).mpr ?_
    cases allowOverlap <;> exact ⟨_, rfl, rfl⟩
  exact ⟨(herror true).1.mp ⟨_, hfails true⟩, hfails true, (hselect _).mpr (hfails false)⟩

end Layout

end SumLayout
