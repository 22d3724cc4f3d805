import Mathlib.Data.List.Perm.Subperm
import SumLayout.Proofs.Slots

/-!
# Slots that stand in for each other

Slots fall into **pools**: those of one value, those of values of one type, one pool for each type,
and those of references. A request asks for a slot of its pool. As long as no type is used both for
values shared by type and for references (`Slots.Apart`), a slot suits a request exactly if it is of
the request's pool (`suits_iff_pool`), and then first fit is as good as any choice: **a request adds
a slot only if the case has claimed all slots of the pool** (`Sound.supplied_findOrDeclare`).
-/

namespace SumLayout

/-- What a slot may be used for. -/
inductive Pool where
  /-- A single value. -/
  | unique
  /-- Values of one type. -/
  | sameType (typeName : String)
  /-- References of any type. -/
  | reference
  deriving DecidableEq

/-- One request for a pool. -/
def Pool.one (p q : Pool) : Nat := if p = q then 1 else 0

/-- The pool of a request for a kind of field. -/
def FieldKind.pool : FieldKind → String → Pool
  | sameType, typeName => .sameType typeName
  | reference, _ => .reference
  | overlappable, _ | unique, _ => .unique

/-- The pool of a slot. -/
def Field.pool (f : Field) : Pool := f.kind.pool f.typeName

/-- A field stays in its pool. -/
theorem Field.Keeps.pool {f f' : Field} (h : f.Keeps f') : f'.pool = f.pool := by
  rw [Field.pool, Field.pool, h.kind]
  rcases h.typeName with he | ⟨hk, -⟩
  · rw [he]
  · rw [hk]
    rfl

namespace Slots

variable {s s' : Slots} {overlap : Option FieldId} {inside : List FieldId} {kind : FieldKind}
  {argument typeName : String} {shared : String → Prop}

/-! ## Counting the slots of a pool -/

/-- The pool of the field with a given id. -/
def poolAt (s : Slots) (id : FieldId) : Option Pool := (s.fields[id]?).map Field.pool

/-- The number of slots of a pool. -/
def count (s : Slots) (p : Pool) : Nat := s.slots.countP (s.poolAt · == some p)

/-- The number of slots of a pool that the case at hand has claimed. -/
def used (s : Slots) (p : Pool) : Nat := s.claims.countP (s.poolAt · == some p)

theorem Grows.poolAt (h : s.Grows s') {id : FieldId} {f : Field} (hf : s.fields[id]? = some f) :
    s'.poolAt id = s.poolAt id := by
  obtain ⟨f', hf', hk⟩ := h.field hf
  rw [Slots.poolAt, Slots.poolAt, hf, hf', Option.map_some, Option.map_some, hk.pool]

/-- The slots that there are stay in their pools. -/
theorem Sound.poolAt (h : s.Sound overlap inside) (hg : s.Grows s') {id : FieldId}
    (hid : id ∈ s.slots) : s'.poolAt id = s.poolAt id := by
  obtain ⟨f, hf, -⟩ := h.onUnion id (List.mem_append_right _ hid)
  exact hg.poolAt hf

theorem Sound.countP_slots (h : s.Sound overlap inside) (hg : s.Grows s') (p : Pool) :
    s.slots.countP (s'.poolAt · == some p) = s.count p :=
  List.countP_congr fun id hid => by rw [h.poolAt hg hid]

theorem Sound.countP_claims (h : s.Sound overlap inside) (hg : s.Grows s') (p : Pool) :
    s.claims.countP (s'.poolAt · == some p) = s.used p :=
  List.countP_congr fun id hid => by rw [h.poolAt hg (h.claims_subset id hid)]

theorem Sound.used_le_count (h : s.Sound overlap inside) (p : Pool) : s.used p ≤ s.count p :=
  (List.subperm_of_subset h.claims_nodup h.claims_subset).countP_le _

/-- If all slots of a pool are claimed, the claims are as many. -/
theorem Sound.count_le_used (h : s.Sound overlap inside) {p : Pool}
    (hall : ∀ id ∈ s.slots, s.poolAt id = some p → id ∈ s.claims) : s.count p ≤ s.used p := by
  rw [count, used, List.countP_eq_length_filter, List.countP_eq_length_filter]
  have hnd : s.slots.Nodup := h.nodup_slots
  refine (List.subperm_of_subset (hnd.filter _) fun id hid => ?_).length_le
  rw [List.mem_filter, beq_iff_eq] at hid
  rw [List.mem_filter, beq_iff_eq]
  exact ⟨hall id hid.1 hid.2, hid.2⟩

/-! ## Keeping types apart -/

/-- The types in `shared` are not used for references. -/
structure Apart (shared : String → Prop) (s : Slots) : Prop where
  kind : ∀ id ∈ s.slots, ∀ f, s.fields[id]? = some f → f.kind ≠ .overlappable
  reference : ∀ id ∈ s.slots, ∀ f, s.fields[id]? = some f → f.kind = .reference →
    ¬shared f.typeName ∧ ¬shared Field.anyReference

/-- A request that goes with keeping the types in `shared` apart. -/
structure Admits (shared : String → Prop) (kind : FieldKind) (typeName : String) : Prop where
  stored : kind ≠ .overlappable
  sameType : kind = .sameType → shared typeName
  reference : kind = .reference → ¬shared typeName ∧ ¬shared Field.anyReference

/-- **A slot suits a request that can be met exactly if it is of its pool.** -/
theorem Apart.suits_iff_pool (h : s.Apart shared) (ha : Admits shared kind typeName)
    {id : FieldId} (hid : id ∈ s.slots) {f : Field} (hf : s.fields[id]? = some f) :
    suits kind typeName f = true ↔ kind ≠ .unique ∧ s.poolAt id = some (kind.pool typeName) := by
  have hk := h.kind id hid f hf
  have hr := h.reference id hid f hf
  rw [poolAt, hf, Option.map_some, Option.some.injEq, Field.pool]
  cases kind with
  | overlappable => exact absurd rfl ha.stored
  | unique => simp [suits]
  | reference =>
    cases hfk : f.kind with
    | overlappable => exact absurd hfk hk
    | _ => simp [suits, hfk, FieldKind.pool]
  | sameType =>
    cases hfk : f.kind with
    | overlappable => exact absurd hfk hk
    | reference =>
      have hne : f.typeName ≠ typeName := fun he => (hr hfk).1 (he ▸ ha.sameType rfl)
      simp [suits, hfk, FieldKind.pool, hne]
    | _ => simp [suits, hfk, FieldKind.pool]

/-- The slots that there are stay apart. -/
theorem Apart.of_grows (h : s.Apart shared) (hs : s.Sound overlap inside) (hg : s.Grows s')
    {id : FieldId} (hid : id ∈ s.slots) {f : Field} (hf : s'.fields[id]? = some f) :
    f.kind ≠ .overlappable ∧
      (f.kind = .reference → ¬shared f.typeName ∧ ¬shared Field.anyReference) := by
  obtain ⟨g, hgf, -⟩ := hs.onUnion id (List.mem_append_right _ hid)
  obtain ⟨g', hg', hk⟩ := hg.field hgf
  rw [hf, Option.some.injEq] at hg'
  subst hg'
  rw [hk.kind]
  refine ⟨h.kind id hid g hgf, fun hkind => ?_⟩
  obtain ⟨htype, hany⟩ := h.reference id hid g hgf hkind
  rcases hk.typeName with he | ⟨-, he⟩
  · exact ⟨he ▸ htype, hany⟩
  · exact ⟨he ▸ hany, hany⟩

theorem Apart.declare (h : s.Apart shared) (hs : s.Sound overlap inside)
    (ha : Admits shared kind typeName) (argument : String) :
    (s.declare kind argument typeName).2.Apart shared := by
  have hg := grows_declare s kind argument typeName
  have hnew : ∀ f, (s.declare kind argument typeName).2.fields[s.fields.length]? = some f →
      f = Field.onUnion kind (Text.lowerFirst argument) typeName := by
    intro f hf
    rw [Slots.declare, List.getElem?_concat_length, Option.some.injEq] at hf
    exact hf.symm
  constructor
  · intro id hid f hf
    rcases List.mem_append.mp hid with hid | hid
    · exact (h.of_grows hs hg hid hf).1
    · rw [List.mem_singleton.mp hid] at hf
      rw [hnew f hf]
      exact ha.stored
  · intro id hid f hf
    rcases List.mem_append.mp hid with hid | hid
    · exact (h.of_grows hs hg hid hf).2
    · rw [List.mem_singleton.mp hid] at hf
      rw [hnew f hf]
      exact ha.reference

theorem Apart.claim (h : s.Apart shared) (hs : s.Sound overlap inside) {id : FieldId}
    {position : Nat} (hg : s.Grows (s.claim typeName position id)) :
    (s.claim typeName position id).Apart shared where
  kind _ hi _ hf := (h.of_grows hs hg hi hf).1
  reference _ hi _ hf := (h.of_grows hs hg hi hf).2

/-! ## Serving a request -/

/-- What serving requests does to the numbers of slots, where `wanted` is the number of requests for
each pool. -/
structure Supplied (s : Slots) (wanted : Pool → Nat) (s' : Slots) : Prop where
  used : ∀ q, s'.used q = s.used q + wanted q
  unique : s'.count .unique = s.count .unique + wanted .unique
  shared : ∀ q, q ≠ .unique → s'.count q = max (s.count q) (s.used q + wanted q)

/-- Nothing changes if the slots, the claims and their pools stay. -/
theorem Sound.supplied_of_same (h : s.Sound overlap inside) (hg : s.Grows s')
    (hslots : s'.slots = s.slots) (hclaims : s'.claims = s.claims) :
    s.Supplied (fun _ => 0) s' := by
  have hcount : ∀ q, s'.count q = s.count q := by
    intro q
    rw [count, hslots, h.countP_slots hg]
  refine ⟨fun q => ?_, hcount _, fun q _ => ?_⟩
  · rw [used, hclaims, h.countP_claims hg, Nat.add_zero]
  · rw [hcount, Nat.add_zero, Nat.max_eq_left (h.used_le_count q)]

theorem Supplied.trans {first second : Pool → Nat} {s'' : Slots} (h : s.Supplied first s')
    (h' : s'.Supplied second s'') : s.Supplied (fun q => first q + second q) s'' where
  used q := by rw [h'.used, h.used, Nat.add_assoc]
  unique := by rw [h'.unique, h.unique, Nat.add_assoc]
  shared q hq := by
    rw [h'.shared q hq, h.shared q hq, h.used]
    omega

theorem Sound.supplied_claim (h : s.Sound overlap inside) {id : FieldId} {position : Nat}
    (hs : (s.claim typeName position id).Sound overlap inside)
    (hg : s.Grows (s.claim typeName position id)) (hid : id ∈ s.slots) {p : Pool}
    (hp : s.poolAt id = some p) (hne : p ≠ .unique) :
    s.Supplied (Pool.one p) (s.claim typeName position id) := by
  have hcount : ∀ q, (s.claim typeName position id).count q = s.count q :=
    fun q => h.countP_slots hg q
  have hused : ∀ q, (s.claim typeName position id).used q = s.used q + Pool.one p q := by
    intro q
    have hpool : ((s.claim typeName position id).poolAt id == some q) = decide (p = q) := by
      rw [h.poolAt hg hid, hp]
      rfl
    have hclaims : (s.claim typeName position id).claims = id :: s.claims := rfl
    rw [used, hclaims, List.countP_cons, h.countP_claims hg, hpool]
    simp only [decide_eq_true_eq, Pool.one]
  refine ⟨hused, ?_, fun q _ => ?_⟩
  · rw [hcount, Pool.one, if_neg hne, Nat.add_zero]
  · have hle := hs.used_le_count q
    rw [hused, hcount] at hle
    rw [hcount, Nat.max_eq_left hle]

theorem Sound.supplied_declare (h : s.Sound overlap inside)
    (hall : kind.pool typeName ≠ .unique →
      ∀ id ∈ s.slots, s.poolAt id = some (kind.pool typeName) → id ∈ s.claims) :
    s.Supplied (Pool.one (kind.pool typeName)) (s.declare kind argument typeName).2 := by
  have hg := grows_declare s kind argument typeName
  have hpool : (s.declare kind argument typeName).2.poolAt s.fields.length
      = some (kind.pool typeName) := by
    show ((s.fields ++ [_])[s.fields.length]?).map Field.pool = _
    rw [List.getElem?_concat_length]
    rfl
  have hone : ∀ q, ((s.declare kind argument typeName).2.poolAt s.fields.length == some q)
      = decide (kind.pool typeName = q) := by
    intro q
    rw [hpool]
    rfl
  have hcount : ∀ q, (s.declare kind argument typeName).2.count q
      = s.count q + Pool.one (kind.pool typeName) q := by
    intro q
    have hslots : (s.declare kind argument typeName).2.slots = s.slots ++ [s.fields.length] := rfl
    rw [count, hslots, List.countP_append, h.countP_slots hg, List.countP_singleton, hone]
    simp only [decide_eq_true_eq, Pool.one]
  refine ⟨fun q => ?_, hcount _, fun q hq => ?_⟩
  · have hclaims : (s.declare kind argument typeName).2.claims = s.fields.length :: s.claims := rfl
    rw [used, hclaims, List.countP_cons, h.countP_claims hg, hone]
    simp only [decide_eq_true_eq, Pool.one]
  · have hge := h.used_le_count q
    rw [hcount, Pool.one]
    split
    · next he =>
      have hle := h.count_le_used (hall (he ▸ hq))
      rw [he] at hle
      omega
    · rw [Nat.add_zero, Nat.add_zero, Nat.max_eq_left hge]

/-- **A request adds a slot only if the case has claimed all slots of the pool.** -/
theorem Sound.supplied_findOrDeclare (h : s.Sound overlap inside) (hs : s.Apart shared)
    (ha : Admits shared kind typeName) (argument : String) :
    (s.findOrDeclare kind argument typeName).2.Apart shared ∧
      s.Supplied (Pool.one (kind.pool typeName)) (s.findOrDeclare kind argument typeName).2 := by
  obtain ⟨hsound, hmet⟩ := h.findOrDeclare kind argument typeName
  rcases findOrDeclare_cases s kind argument typeName with
    ⟨position, id, f, hpos, hfree, hf, hsuit, he⟩ | ⟨hno, he⟩
  · have hid : id ∈ s.slots := List.mem_of_getElem? hpos
    obtain ⟨hkind, hpool⟩ := (hs.suits_iff_pool ha hid hf).mp hsuit
    rw [he] at hsound hmet ⊢
    refine ⟨hs.claim h hmet.grows, h.supplied_claim hsound hmet.grows hid hpool ?_⟩
    cases kind with
    | unique => exact absurd rfl hkind
    | overlappable => exact absurd rfl ha.stored
    | sameType | reference => simp [FieldKind.pool]
  · rw [he]
    -- a slot of the pool that is not claimed would have met the request
    refine ⟨hs.declare h ha argument, h.supplied_declare fun hne id hid hpool => ?_⟩
    by_contra hfree
    obtain ⟨f, hf, -⟩ := h.onUnion id (List.mem_append_right _ hid)
    have hkind : kind ≠ .unique := by
      rintro rfl
      exact hne rfl
    have hsuit := (hs.suits_iff_pool ha hid hf).mpr ⟨hkind, hpool⟩
    rw [hno id hid f hf hfree] at hsuit
    exact absurd hsuit (by simp)

end Slots

end SumLayout
