import SumLayout.Proofs.Alike
import SumLayout.Proofs.Reordering

/-!
# Decomposition is transparent

A parameter that is taken apart could as well have been declared member by member
(`Union.Unpacked`). The case has the same leaves then, so that shapes are classified alike
(`Union.Unpacked.classes_eq`), and it makes the same requests (`Case.Unpacked.alike`). **So the two
declarations have a layout under the same conditions, and their layouts look the same**
(`Layout.allocate_unpacked`).

Requests may differ in what the names of their fields start with, because a value has its name in
those of its members. The only parameter of a case has not, so that names stay if it is replaced. It
must have two members, though: a single one would become the only parameter itself, and its own
members would lose its name.
-/

namespace SumLayout

variable {vs ws : List Value} {v : Value} {classOf : Shape → StorageClass} {named : Bool}

/-- The same case with the members of `v` in its place, between the parameters `vs` and `ws`. -/
structure Case.Unpacked (c : Case) (vs : List Value) (v : Value) (ws : List Value)
    (c' : Case) : Prop where
  values : c.values = vs ++ v :: ws
  unpacked : c' = { c with values := vs ++ (v.members ++ ws) }

/-- The same union with a parameter of one of its cases replaced by its members. -/
def Union.Unpacked (u : Union) (vs : List Value) (v : Value) (ws : List Value)
    (u' : Union) : Prop :=
  ∃ cs c ds c', u.cases = cs ++ c :: ds ∧ c.Unpacked vs v ws c' ∧
    u' = { u with cases := cs ++ c' :: ds }

/-! ## The parts of a value -/

namespace Value

theorem requestsAll_append (c : CaseScope) (stem : String) (path : List String)
    (vs ws : List Value) :
    requestsAll c stem path (vs ++ ws)
      = requestsAll c stem path vs ++ requestsAll c stem path ws := by
  induction vs with
  | nil => rfl
  | cons v vs ih => rw [List.cons_append, requestsAll, requestsAll, ih, List.append_assoc]

/-- The requests of some values are the same wherever they stand, except for names, and names are
the same if they start alike and if the values are parameters of their own in both places or in
neither. -/
theorem requestsAll_alike {c c' : CaseScope} (hc : c.classOf = c'.classOf) (vs : List Value) :
    ∀ (stem stem' : String) (path path' : List String),
    (named = true → stem = stem' ∧
      (path.isEmpty && c.isLone) = (path'.isEmpty && c'.isLone)) →
    List.Forall₂ (Request.Alike named) (requestsAll c stem path vs)
      (requestsAll c' stem' path' vs) := by
  induction vs using forest_induction with
  | nil => exact fun _ _ _ _ _ => .nil
  | cons name type members vs ihm ih =>
    intro stem stem' path path' h
    by_cases hk : c.classOf type.shape = .decomposable
    · rw [requestsAll_cons_composite hk, requestsAll_cons_composite (hc ▸ hk)]
      refine List.rel_append (ihm _ _ _ _ fun hn => ?_) (ih _ _ _ _ h)
      obtain ⟨hstem, hroot⟩ := h hn
      rw [CaseScope.memberStem, CaseScope.memberStem, hroot, hstem]
      have hinner : ∀ ps : List String, (ps ++ [name]).isEmpty = false := by simp
      exact ⟨rfl, by rw [hinner, hinner, Bool.false_and, Bool.false_and]⟩
    · rw [requestsAll_cons_leaf hk, requestsAll_cons_leaf (hc ▸ hk)]
      exact .cons ⟨congrFun hc _, rfl, fun hn => (h hn).1⟩ (ih _ _ _ _ h)

/-- Whether values have a hollow part does not depend on where they stand. -/
theorem hollowAll?_eq_none_of_path (vs : List Value) : ∀ {path path' : List String},
    hollowAll? classOf path vs = none → hollowAll? classOf path' vs = none := by
  induction vs using forest_induction with
  | nil => exact fun _ => rfl
  | cons name type members vs ihm ih =>
    intro path path' h
    by_cases hk : classOf type.shape = .decomposable
    · rw [hollowAll?_cons_composite hk, Option.or_eq_none_iff] at h ⊢
      refine ⟨?_, ih h.2⟩
      by_cases hm : members.isEmpty = true
      · exact absurd h.1 (by simp [hm])
      · rw [if_neg hm] at h ⊢
        exact ihm h.1
    · rw [hollowAll?_cons_leaf hk] at h ⊢
      exact ih h

theorem leaves_of_decomposable (hv : classOf v.type.shape = .decomposable) :
    v.leaves classOf = leavesAll classOf v.members := by
  obtain ⟨name, type, members⟩ := v
  rw [leaves, if_pos hv]

theorem requests_of_decomposable {c : CaseScope} (hv : c.classOf v.type.shape = .decomposable)
    (stem : String) (path : List String) :
    v.requests c stem path
      = requestsAll c (c.memberStem path.isEmpty stem v.name) (path ++ [v.name]) v.members := by
  obtain ⟨name, type, members⟩ := v
  rw [requests, if_pos hv]

/-- The members of a parameter make the same requests in its place. -/
theorem requestsAll_unpacked {c c' : CaseScope} (hc : c.classOf = c'.classOf)
    (hv : c.classOf v.type.shape = .decomposable)
    (hn : named = true → vs = [] ∧ ws = [] ∧ c.isLone = true ∧ c'.isLone = false) :
    List.Forall₂ (Request.Alike named) (requestsAll c "" [] (vs ++ v :: ws))
      (requestsAll c' "" [] (vs ++ (v.members ++ ws))) := by
  -- if names are looked at, there are no other parameters
  have hother : ∀ us : List Value, (named = true → us = []) →
      List.Forall₂ (Request.Alike named) (requestsAll c "" [] us) (requestsAll c' "" [] us) := by
    intro us hus
    cases named with
    | true =>
      rw [hus rfl]
      exact .nil
    | false => exact requestsAll_alike hc us _ _ _ _ fun h => absurd h Bool.false_ne_true
  have hmembers : List.Forall₂ (Request.Alike named) (v.requests c "" [])
      (requestsAll c' "" [] v.members) := by
    rw [requests_of_decomposable hv]
    refine requestsAll_alike hc v.members _ _ _ _ fun h => ?_
    obtain ⟨-, -, hlone, hmany⟩ := hn h
    simp [CaseScope.memberStem, hlone, hmany]
  rw [requestsAll_append, requestsAll_append, requestsAll_append, requestsAll]
  exact List.rel_append (hother vs fun h => (hn h).1)
    (List.rel_append hmembers (hother ws fun h => (hn h).2.1))

/-- A value with members has a hollow part exactly if one of its members has. -/
theorem hollow?_eq_none_iff (hm : v.members ≠ []) (hv : classOf v.type.shape = .decomposable) :
    v.hollow? classOf [] = none ↔ ∀ m ∈ v.members, m.hollow? classOf [] = none := by
  obtain ⟨name, type, members⟩ := v
  rw [hollow?, if_pos hv, if_neg (by simpa using hm), ← hollowAll?_eq_none_iff]
  exact ⟨hollowAll?_eq_none_of_path members, hollowAll?_eq_none_of_path members⟩

end Value

/-! ## The case -/

namespace Case.Unpacked

variable {c c' : Case}

theorem leaves_eq (h : c.Unpacked vs v ws c') (hv : classOf v.type.shape = .decomposable) :
    c'.leaves classOf = c.leaves classOf := by
  obtain ⟨hvalues, rfl⟩ := h
  rw [Case.leaves, Case.leaves, hvalues, Value.leavesAll_eq_flatMap, Value.leavesAll_eq_flatMap,
    List.flatMap_append, List.flatMap_append, List.flatMap_append, List.flatMap_cons,
    Value.leaves_of_decomposable hv, Value.leavesAll_eq_flatMap]

theorem overlapCount_eq (h : c.Unpacked vs v ws c') {o : Options}
    (hv : StorageClass.ofShape o true v.type.shape = .decomposable) :
    Layout.overlapCount o c' = Layout.overlapCount o c := by
  rw [Layout.overlapCount, Layout.overlapCount, Value.overlapCounts_eq_countP_leaves,
    Value.overlapCounts_eq_countP_leaves]
  exact congrArg _ (h.leaves_eq hv)

theorem hollow?_eq_none_iff (h : c.Unpacked vs v ws c') (hm : v.members ≠ [])
    (hv : classOf v.type.shape = .decomposable) :
    c.hollow? classOf = none ↔ c'.hollow? classOf = none := by
  obtain ⟨hvalues, rfl⟩ := h
  rw [Case.hollow?, Case.hollow?, hvalues, Value.hollowAll?_eq_none_iff,
    Value.hollowAll?_eq_none_iff, List.forall_mem_append, List.forall_mem_append,
    List.forall_mem_append, List.forall_mem_cons, Value.hollow?_eq_none_iff hm hv]

/-- **The same requests are made.** -/
theorem alike (h : c.Unpacked vs v ws c') (hv : classOf v.type.shape = .decomposable)
    (hn : named = true → vs = [] ∧ ws = [] ∧ 2 ≤ v.members.length) :
    c.Alike classOf named c' := by
  refine ⟨by rw [h.unpacked], ?_⟩
  have hvalues : c'.values = vs ++ (v.members ++ ws) := by rw [h.unpacked]
  rw [Case.requests, Case.requests, hvalues, h.values]
  refine Value.requestsAll_unpacked rfl hv fun hnamed => ?_
  obtain ⟨rfl, rfl, hlen⟩ := hn hnamed
  refine ⟨rfl, rfl, by simp [Case.scope, h.values], ?_⟩
  simp only [Case.scope, hvalues, List.nil_append, List.append_nil, beq_eq_false_iff_ne]
  omega

end Case.Unpacked

/-! ## The union -/

namespace Union.Unpacked

variable {u u' : Union}

theorem hasOverlap_eq (h : u.Unpacked vs v ws u')
    (hv : StorageClass.ofShape u.options true v.type.shape = .decomposable) (allowOverlap : Bool) :
    Layout.hasOverlap u' allowOverlap = Layout.hasOverlap u allowOverlap := by
  obtain ⟨cs, c, ds, c', hcs, hc, rfl⟩ := h
  refine Layout.hasOverlap_congr (by rfl) (List.Perm.of_eq ?_) allowOverlap
  rw [hcs, List.map_append, List.map_append, List.map_cons, List.map_cons, hc.overlapCount_eq hv]

/-- **Shapes are classified alike.** -/
theorem classes_eq (h : u.Unpacked vs v ws u')
    (hv : StorageClass.ofShape u.options true v.type.shape = .decomposable) (allowOverlap : Bool) :
    Layout.classes u' allowOverlap = Layout.classes u allowOverlap := by
  have ho : u'.options = u.options := by
    obtain ⟨cs, c, ds, c', -, -, rfl⟩ := h
    rfl
  rw [Layout.classes, Layout.classes, ho, h.hasOverlap_eq hv]

theorem forall_hollow?_iff (h : u.Unpacked vs v ws u') (hm : v.members ≠ [])
    (hv : classOf v.type.shape = .decomposable) :
    (∀ c ∈ u.cases, c.hollow? classOf = none) ↔ ∀ c ∈ u'.cases, c.hollow? classOf = none := by
  obtain ⟨cs, c, ds, c', hcs, hc, rfl⟩ := h
  rw [hcs, List.forall_mem_append, List.forall_mem_append, List.forall_mem_cons,
    List.forall_mem_cons, hc.hollow?_eq_none_iff hm hv]

/-- All cases make the same requests. -/
theorem alike (h : u.Unpacked vs v ws u') (hv : classOf v.type.shape = .decomposable)
    (hn : named = true → vs = [] ∧ ws = [] ∧ 2 ≤ v.members.length) :
    List.Forall₂ (Case.Alike classOf named) u.cases u'.cases := by
  obtain ⟨cs, c, ds, c', hcs, hc, rfl⟩ := h
  have hsame : ∀ cs : List Case, List.Forall₂ (Case.Alike classOf named) cs cs := fun cs =>
    List.forall₂_same.mpr fun c _ => Case.Alike.refl classOf named c
  rw [hcs]
  exact List.rel_append (hsame cs) (.cons (hc.alike hv hn) (hsame ds))

end Union.Unpacked

/-- A place in the plane. -/
def Value.target : Value where
  name := "target"
  type := { name := "Point", shape := .decomposableLocalRecord }
  members := [{ name := "x", type := .int }, { name := "y", type := .int }]

/-- Moves of which the first one has the parameters `vs`. -/
def Union.jumps (vs : List Value) : Union where
  kind := .tags
  name := "Move"
  typeName := "Move"
  cases := [{ name := "Jump", values := vs },
    { name := "Turn", values := [{ name := "angle", type := .double }] }]

namespace Layout

variable {u u' : Union}

/-- What is taken apart where overlapping is permitted is taken apart anywhere. -/
theorem classes_eq_decomposable {s : Shape}
    (h : StorageClass.ofShape u.options true s = .decomposable) (allowOverlap : Bool) :
    classes u allowOverlap s = .decomposable := by
  rw [classes]
  cases hasOverlap u allowOverlap with
  | true => exact h
  | false => exact StorageClass.decomposable_of_permitted h

/-- **A composite parameter is laid out as its members would be in its place.**

Both declarations have a layout or neither has. The layouts are the same but for names and
constructor arguments, and these are the same, too, if the composite is the only parameter of its
case and has at least two members. -/
theorem allocate_unpacked (h : u.Unpacked vs v ws u') (hm : v.members ≠ [])
    (hv : StorageClass.ofShape u.options true v.type.shape = .decomposable)
    (allowOverlap : Bool) :
    ((∃ l, allocate u allowOverlap = .ok l) ↔ ∃ l', allocate u' allowOverlap = .ok l') ∧
    ∀ l l', allocate u allowOverlap = .ok l → allocate u' allowOverlap = .ok l' →
      l.Alike false l' ∧ (vs = [] → ws = [] → 2 ≤ v.members.length → l.fields = l'.fields) := by
  have hclasses := h.classes_eq hv allowOverlap
  have hapart := classes_eq_decomposable hv allowOverlap
  refine ⟨?_, fun l l' hl hl' => ?_⟩
  · rw [exists_allocate_iff, exists_allocate_iff, hclasses]
    exact h.forall_hollow?_iff hm hapart
  · have hbuilt := (built_of_allocate hl).2
    have hbuilt' := (built_of_allocate hl').2
    rw [hclasses, h.hasOverlap_eq hv] at hbuilt'
    have halike : ∀ named, (named = true → vs = [] ∧ ws = [] ∧ 2 ≤ v.members.length) →
        l.Alike named l' := fun _ hn => hbuilt.alike hbuilt' (h.alike hapart hn)
    refine ⟨halike false fun hn => absurd hn Bool.false_ne_true, fun hvs hws hlen => ?_⟩
    exact (halike true fun _ => ⟨hvs, hws, hlen⟩).fields_eq

theorem allocate_unpacked_jumps : ∃ l l', allocate (.jumps [.target]) true = .ok l ∧
    allocate (.jumps Value.target.members) true = .ok l' ∧ l.Alike false l' ∧
    l.fields = l'.fields := by
  have h : (Union.jumps [.target]).Unpacked [] .target [] (.jumps Value.target.members) :=
    ⟨[], _, _, _, rfl, ⟨rfl, rfl⟩, rfl⟩
  obtain ⟨hiff, hsame⟩ := allocate_unpacked h (List.cons_ne_nil _ _) (by decide) true
  obtain ⟨l, hl⟩ : ∃ l, allocate (.jumps [.target]) true = .ok l :=
    exists_allocate_iff.mpr (by decide)
  obtain ⟨l', hl'⟩ := hiff.mp ⟨l, hl⟩
  obtain ⟨halike, hfields⟩ := hsame l l' hl hl'
  exact ⟨l, l', hl, hl', halike, hfields rfl rfl (by decide)⟩

end Layout

end SumLayout
