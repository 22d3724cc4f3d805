import SumLayout.Proofs.Slots

/-!
# Slots along a history

A history is any sequence of three steps: starting on the next case, declaring any field that is not
a slot, and asking for a slot of any kind (`Slots.Step`). Allocation only ever takes some of these
sequences, but what keeps the slots in order does not depend on that.

A single step keeps the slots sound (`Sound.perform`) and only adds to what there is
(`Slots.Advances`, `Sound.advances`). So do any number of steps (`exists_sound`, `advances`), and
from these two everything is read off that `Orderly` collects. Two of its parts look back at the
whole history:

* the claims are the answers since the last case was started (`mem_claims_iff`);
* a slot was once the answer to a request (`exists_answers`), and if it is `unique` it is not an
  answer again (`Answers.ne_unique`).
-/

namespace SumLayout

namespace Slots

variable {s s' s'' : Slots} {id : FieldId} {f : Field}

/-! ## Steps -/

/-- What can be done to the slots. -/
inductive Step where
  /-- Start on the next case. -/
  | newCase
  /-- Declare a field that is not a slot. -/
  | push (f : Field)
  /-- Ask for a slot. -/
  | request (kind : FieldKind) (argument typeName : String)
  deriving DecidableEq, Repr

/-- Do one step. -/
def perform (s : Slots) : Step → Slots
  | .newCase => s.newCase
  | .push f => (s.push f).2
  | .request kind argument typeName => (s.findOrDeclare kind argument typeName).2

/-- What steps leave alone: the slots keep their order, fields keep their positions, and a field
changes only if it is a slot. -/
structure Advances (s s' : Slots) : Prop where
  grows : s.Grows s'
  aside : ∀ {id f}, s.fields[id]? = some f → id ∉ s.slots → s'.fields[id]? = some f
  slots : ∀ {id f}, s.fields[id]? = some f → id ∈ s'.slots → id ∈ s.slots

theorem Advances.refl (s : Slots) : s.Advances s :=
  ⟨Grows.refl s, fun hf _ => hf, fun _ hid => hid⟩

theorem Advances.trans (h : s.Advances s') (h' : s'.Advances s'') : s.Advances s'' where
  grows := h.grows.trans h'.grows
  aside hf hid := h'.aside (h.aside hf hid) fun hid' => hid (h.slots hf hid')
  slots hf hid := by
    obtain ⟨f', hf', -⟩ := h.grows.field hf
    exact h.slots hf (h'.slots hf' hid)

/-- Declaring fields changes none, whether they are slots or not. -/
theorem Advances.of_append {more : List Field} (hf : s'.fields = s.fields ++ more)
    (hs : s.slots <+: s'.slots) (hnew : ∀ id ∈ s'.slots, id ∈ s.slots ∨ s.fields.length ≤ id) :
    s.Advances s' where
  grows := Grows.of_append hs hf
  aside hfield _ := by
    rw [hf, List.getElem?_append_left (List.getElem?_eq_some_iff.mp hfield).1, hfield]
  slots hfield hid := by
    have hlt := (List.getElem?_eq_some_iff.mp hfield).1
    exact (hnew _ hid).resolve_right (Nat.not_le_of_lt hlt)

theorem advances_newCase (s : Slots) : s.Advances s.newCase :=
  Advances.of_append (List.append_nil _).symm (List.prefix_refl _) fun _ hid => Or.inl hid

theorem advances_push (s : Slots) (f : Field) : s.Advances (s.push f).2 :=
  Advances.of_append rfl (List.prefix_refl _) fun _ hid => Or.inl hid

theorem advances_declare (s : Slots) (kind : FieldKind) (argument typeName : String) :
    s.Advances (s.declare kind argument typeName).2 := by
  refine Advances.of_append rfl (List.prefix_append _ _) fun id hid => ?_
  rcases List.mem_append.mp hid with hid | hid
  · exact Or.inl hid
  · exact Or.inr (Nat.le_of_eq (List.mem_singleton.mp hid).symm)

theorem advances_claim {typeName : String} {position : Nat} (hid : id ∈ s.slots)
    (hg : s.Grows (s.claim typeName position id)) :
    s.Advances (s.claim typeName position id) where
  grows := hg
  aside {i f} hf hi := by
    have hne : id ≠ i := fun he => hi (he ▸ hid)
    show (s.fields.modify id _)[i]? = _
    rw [List.getElem?_modify]
    simp only [if_neg hne, hf, Option.map_eq_map, Option.map_some]
  slots _ hid := hid

variable {inside : List FieldId}

/-- **A step only adds to what there is.** -/
theorem Sound.advances (h : s.Sound none inside) (step : Step) : s.Advances (s.perform step) := by
  cases step with
  | newCase => exact advances_newCase s
  | push f => exact advances_push s f
  | request kind argument typeName =>
    have hg := (h.findOrDeclare kind argument typeName).2.grows
    show s.Advances (s.findOrDeclare kind argument typeName).2
    rcases findOrDeclare_cases s kind argument typeName with
      ⟨position, id, -, hpos, -, -, -, he⟩ | ⟨-, he⟩
    · rw [he] at hg ⊢
      exact advances_claim (List.mem_of_getElem? hpos) hg
    · rw [he]
      exact advances_declare s kind argument typeName

/-- **A step keeps the slots sound.** -/
theorem Sound.perform (h : s.Sound none inside) (step : Step) :
    ∃ inside', (s.perform step).Sound none inside' := by
  cases step with
  | newCase => exact ⟨_, h.newCase⟩
  | push f => exact ⟨_, h.push f⟩
  | request kind argument typeName => exact ⟨_, (h.findOrDeclare kind argument typeName).1⟩

theorem Sound.exists_slot (h : s.Sound none inside) (hid : id ∈ s.slots) :
    ∃ f, s.fields[id]? = some f := by
  obtain ⟨f, hf, -⟩ := h.onUnion id hid
  exact ⟨f, hf⟩

/-- A request that no slot may meet declares a field. -/
theorem findOrDeclare_fresh {kind : FieldKind} (h : kind = .unique ∨ kind = .overlappable)
    (s : Slots) (argument typeName : String) :
    s.findOrDeclare kind argument typeName = s.declare kind argument typeName := by
  rcases findOrDeclare_cases s kind argument typeName with ⟨-, -, f, -, -, -, hs, -⟩ | ⟨-, he⟩
  · rcases h with rfl | rfl
    · exact absurd hs (by simp [suits])
    · exact absurd hs (by simp [suits])
  · exact he

/-- A field that there is already is never met by a request if it is `unique`. -/
theorem kind_ne_unique_of_findOrDeclare {kind : FieldKind} {argument typeName : String}
    (h : (s.findOrDeclare kind argument typeName).1 = id) (hf : s.fields[id]? = some f) :
    f.kind ≠ .unique := by
  rcases findOrDeclare_cases s kind argument typeName with ⟨_, id', f', -, -, hf', hs, he⟩ | ⟨-, he⟩
  · rw [he] at h
    obtain rfl : id' = id := h
    rw [hf, Option.some.injEq] at hf'
    subst hf'
    intro hk
    cases kind with
    | sameType => simp [suits, hk] at hs
    | reference => simp [suits, hk] at hs
    | overlappable | unique => simp [suits] at hs
  · -- a field that is declared now was not there before
    rw [he] at h
    obtain rfl : s.fields.length = id := h
    simp at hf

/-! ## Histories -/

/-- The slots after the first `n` steps of a history. -/
def after (steps : List Step) (n : Nat) : Slots := (steps.take n).foldl perform {}

variable {steps : List Step} {i j n m : Nat}

theorem after_succ {step : Step} (h : steps[n]? = some step) :
    after steps (n + 1) = (after steps n).perform step := by
  unfold after
  rw [List.take_add_one, h, List.foldl_append]
  rfl

theorem after_of_none (h : steps[n]? = none) : after steps (n + 1) = after steps n := by
  unfold after
  rw [List.take_add_one, h, Option.toList_none, List.append_nil]

theorem sound_empty : Sound {} none [] :=
  ⟨List.Perm.refl _, fun _ hid => absurd hid List.not_mem_nil, List.nodup_nil,
    fun _ hid => absurd hid List.not_mem_nil⟩

/-- **The slots are sound all along a history.** -/
theorem exists_sound (steps : List Step) (n : Nat) :
    ∃ inside, (after steps n).Sound none inside := by
  induction n with
  | zero => exact ⟨[], sound_empty⟩
  | succ n ih =>
    obtain ⟨inside, hs⟩ := ih
    cases h : steps[n]? with
    | none =>
      rw [after_of_none h]
      exact ⟨inside, hs⟩
    | some step =>
      rw [after_succ h]
      exact hs.perform step

/-- **A history only adds to what there is.** -/
theorem advances (steps : List Step) (h : n ≤ m) :
    (after steps n).Advances (after steps m) := by
  induction h with
  | refl => exact Advances.refl _
  | @step m _ ih =>
    refine ih.trans ?_
    obtain ⟨inside, hs⟩ := exists_sound steps m
    cases hstep : steps[m]? with
    | none =>
      rw [Nat.succ_eq_add_one, after_of_none hstep]
      exact Advances.refl _
    | some step =>
      rw [Nat.succ_eq_add_one, after_succ hstep]
      exact hs.advances step

/-! ## Declarations and answers -/

/-- The step at position `i` declares a field, and `id` is its id. -/
def Declares (steps : List Step) (i : Nat) (id : FieldId) : Prop :=
  (after steps i).fields[id]? = none ∧ ∃ f, (after steps (i + 1)).fields[id]? = some f

/-- The step at position `i` is a request, and the field `id` is the answer. -/
def Answers (steps : List Step) (i : Nat) (id : FieldId) : Prop :=
  ∃ kind argument typeName, steps[i]? = some (.request kind argument typeName) ∧
    ((after steps i).findOrDeclare kind argument typeName).1 = id

/-- The field `id` has been an answer since the last case was started. -/
def AnsweredSinceCase (steps : List Step) (n : Nat) (id : FieldId) : Prop :=
  ∃ i < n, Answers steps i id ∧ ∀ k, i < k → k < n → steps[k]? ≠ some .newCase

/-- A field that has been declared is there from then on, so that its id is not given again. -/
theorem Declares.not_later (h : Declares steps i id) (hij : i < j) : ¬Declares steps j id := by
  rintro ⟨hnone, -⟩
  obtain ⟨-, f, hf⟩ := h
  obtain ⟨f', hf', -⟩ := (advances steps hij).grows.field hf
  rw [hf'] at hnone
  exact absurd hnone (by simp)

theorem declares_push (h : steps[i]? = some (.push f)) :
    Declares steps i ((after steps i).push f).1 := by
  refine ⟨by simp [push], f, ?_⟩
  rw [after_succ h]
  exact List.getElem?_concat_length

theorem declares_of_declare {kind : FieldKind} {argument typeName : String}
    (h : steps[i]? = some (.request kind argument typeName))
    (he : (after steps i).findOrDeclare kind argument typeName
      = (after steps i).declare kind argument typeName) :
    Declares steps i ((after steps i).findOrDeclare kind argument typeName).1 := by
  rw [he]
  refine ⟨by simp [declare], Field.onUnion kind (Text.lowerFirst argument) typeName, ?_⟩
  rw [after_succ h]
  show ((after steps i).findOrDeclare kind argument typeName).2.fields[_]? = _
  rw [he]
  exact List.getElem?_concat_length

/-- What a request does to the slots of a history. -/
theorem Answers.met (h : Answers steps i id) :
    (after steps i).Met id (after steps (i + 1)) := by
  obtain ⟨kind, argument, typeName, hstep, rfl⟩ := h
  obtain ⟨inside, hs⟩ := exists_sound steps i
  rw [after_succ hstep]
  exact (hs.findOrDeclare kind argument typeName).2

theorem answersSinceCase_succ : AnsweredSinceCase steps (n + 1) id ↔
    Answers steps n id ∨ AnsweredSinceCase steps n id ∧ steps[n]? ≠ some .newCase := by
  constructor
  · rintro ⟨i, hi, ha, hno⟩
    rcases Nat.lt_or_eq_of_le (Nat.le_of_lt_succ hi) with hi | rfl
    · exact Or.inr ⟨⟨i, hi, ha, fun k h1 h2 => hno k h1 (by omega)⟩, hno n hi (by omega)⟩
    · exact Or.inl ha
  · rintro (ha | ⟨⟨i, hi, ha, hno⟩, hn⟩)
    · exact ⟨n, by omega, ha, fun k h1 h2 => absurd h2 (by omega)⟩
    · refine ⟨i, by omega, ha, fun k h1 h2 => ?_⟩
      rcases Nat.lt_or_eq_of_le (Nat.le_of_lt_succ h2) with h2 | rfl
      · exact hno k h1 h2
      · exact hn

/-- **The claims are the answers since the last case was started.** -/
theorem mem_claims_iff (steps : List Step) (n : Nat) (id : FieldId) :
    id ∈ (after steps n).claims ↔ AnsweredSinceCase steps n id := by
  induction n with
  | zero =>
    refine iff_of_false (fun h => absurd h List.not_mem_nil) ?_
    rintro ⟨i, hi, -⟩
    omega
  | succ n ih =>
    rw [answersSinceCase_succ, ← ih]
    cases h : steps[n]? with
    | none =>
      rw [after_of_none h]
      simp [Answers, h]
    | some step =>
      cases step with
      | newCase =>
        rw [after_succ h]
        simp [Answers, h, perform, newCase]
      | push f =>
        rw [after_succ h]
        simp [Answers, h, perform, push]
      | request kind argument typeName =>
        have hmet := Answers.met ⟨kind, argument, typeName, h, rfl⟩
        rw [hmet.claims, List.mem_cons]
        simp [Answers, h, eq_comm]

/-- A slot was once the answer to a request. -/
theorem exists_answers (steps : List Step) (n : Nat) :
    id ∈ (after steps n).slots → ∃ i, Answers steps i id := by
  induction n with
  | zero => exact fun hid => absurd hid List.not_mem_nil
  | succ n ih =>
    intro hid
    cases h : steps[n]? with
    | none =>
      rw [after_of_none h] at hid
      exact ih hid
    | some step =>
      cases step with
      | newCase | push f =>
        rw [after_succ h] at hid
        exact ih hid
      | request kind argument typeName =>
        have ha : Answers steps n ((after steps n).findOrDeclare kind argument typeName).1 :=
          ⟨kind, argument, typeName, h, rfl⟩
        rcases ha.met.slots id hid with hid | rfl
        · exact ih hid
        · exact ⟨n, ha⟩

/-- The answer to a request is a slot from then on. -/
theorem Answers.mem_slots (h : Answers steps i id) (hij : i < j) : id ∈ (after steps j).slots := by
  obtain ⟨inside, hs⟩ := exists_sound steps (i + 1)
  have hid : id ∈ (after steps (i + 1)).slots := by
    refine hs.claims_subset id ?_
    rw [h.met.claims]
    exact List.mem_cons_self
  exact (advances steps hij).grows.mem_slots hid

/-- A slot that is an answer twice is not `unique`. -/
theorem Answers.ne_unique (h : Answers steps i id) (hij : i < j) (h' : Answers steps j id)
    (hf : (after steps n).fields[id]? = some f) : f.kind ≠ .unique := by
  obtain ⟨inside, hs⟩ := exists_sound steps j
  obtain ⟨g, hg⟩ := hs.exists_slot (h.mem_slots hij)
  -- what there is of the field at `j` and at `n` has the kind that it has later
  obtain ⟨f', hf', hkeep⟩ := (advances steps (Nat.le_max_left n j)).grows.field hf
  obtain ⟨g', hg', hkeep'⟩ := (advances steps (Nat.le_max_right n j)).grows.field hg
  rw [hf', Option.some.injEq] at hg'
  have hkind : g.kind = f.kind := by rw [← hkeep'.kind, ← hg', hkeep.kind]
  obtain ⟨kind, argument, typeName, -, he⟩ := h'
  rw [← hkind]
  exact kind_ne_unique_of_findOrDeclare he hg

/-! ## All along a history -/

/-- What holds of the slots all along a history. -/
structure Orderly (steps : List Step) : Prop where
  /-- An id is given to one field only. -/
  declared : ∀ i j id, Declares steps i id → Declares steps j id → i = j
  pushed : ∀ i f, steps[i]? = some (.push f) → Declares steps i ((after steps i).push f).1
  /-- A field that is declared is there from then on, with its kind and its place. Its type changes
  only if it is a slot for references, and then to the type of any reference. -/
  kept : ∀ n m, n ≤ m → ∀ id f, (after steps n).fields[id]? = some f →
    ∃ f', (after steps m).fields[id]? = some f' ∧ f'.kind = f.kind ∧ f'.place = f.place ∧
      (f'.typeName = f.typeName ∨ f.kind = .reference ∧ id ∈ (after steps n).slots ∧
        f'.typeName = Field.anyReference)
  slots_nodup : ∀ n, (after steps n).slots.Nodup
  slots_grow : ∀ n m, n ≤ m → (after steps n).slots <+: (after steps m).slots
  claims_subset : ∀ n, ∀ id ∈ (after steps n).claims, id ∈ (after steps n).slots
  claims_iff : ∀ n id, id ∈ (after steps n).claims ↔ AnsweredSinceCase steps n id
  /-- The answer to a request was not claimed, and it is claimed next. -/
  answered : ∀ i id, Answers steps i id →
    id ∉ (after steps i).claims ∧ (after steps (i + 1)).claims = id :: (after steps i).claims
  /-- Some requests are always met by a new field. -/
  fresh : ∀ i kind argument typeName, steps[i]? = some (.request kind argument typeName) →
    kind = .unique ∨ kind = .overlappable →
      Declares steps i ((after steps i).findOrDeclare kind argument typeName).1
  unique_once : ∀ n id f, id ∈ (after steps n).slots → (after steps n).fields[id]? = some f →
    f.kind = .unique → ∃! i, Answers steps i id

/-- **Every history is orderly**, whatever the steps are and in whatever order they come. -/
theorem orderly (steps : List Step) : Orderly steps where
  declared i j id hi hj := by
    rcases Nat.lt_trichotomy i j with h | rfl | h
    · exact absurd hj (hi.not_later h)
    · rfl
    · exact absurd hi (hj.not_later h)
  pushed _ _ h := declares_push h
  kept n m h id f hf := by
    obtain ⟨f', hf', hkeep⟩ := (advances steps h).grows.field hf
    refine ⟨f', hf', hkeep.kind, hkeep.place, ?_⟩
    by_cases hid : id ∈ (after steps n).slots
    · exact hkeep.typeName.imp_right fun ⟨hk, ht⟩ => ⟨hk, hid, ht⟩
    · rw [(advances steps h).aside hf hid, Option.some.injEq] at hf'
      exact Or.inl (congrArg Field.typeName hf'.symm)
  slots_nodup n := by
    obtain ⟨inside, hs⟩ := exists_sound steps n
    exact hs.nodup_slots
  slots_grow _ _ h := (advances steps h).grows.slots
  claims_subset n := by
    obtain ⟨inside, hs⟩ := exists_sound steps n
    exact hs.claims_subset
  claims_iff := mem_claims_iff steps
  answered _ _ h := ⟨h.met.free, h.met.claims⟩
  fresh i kind argument typeName h hkind :=
    declares_of_declare h (findOrDeclare_fresh hkind _ argument typeName)
  unique_once n id f hid hf hk := by
    obtain ⟨i, hi⟩ := exists_answers steps n hid
    refine ⟨i, hi, fun j hj => ?_⟩
    rcases Nat.lt_trichotomy j i with h | rfl | h
    · exact absurd hk (hj.ne_unique h hi hf)
    · rfl
    · exact absurd hk (hi.ne_unique h hj hf)

/-- A slot for references is met again, under a common name and type, and a slot for one value is
not. -/
example : ((after [.request .reference "A_x" "string", .request .unique "A_y" "T", .newCase,
    .request .reference "B_x" "List", .request .unique "B_y" "T"] 5).fields.map
      fun f => (f.name, f.typeName))
    = [("_data_shared1", "object"), ("_data_a_y", "T"), ("_data_b_y", "T")] := by decide

end Slots

end SumLayout
