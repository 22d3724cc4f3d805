import SumLayout.Proofs.Filling
import SumLayout.RoundTrip

/-!
# What the read of a case looks at

A guarded read looks at its fields only if the tags agree (`Storage.pathsRead`). So the read of a
case that the union does not hold gives a default and looks at nothing (`Storage.read_of_tag_ne`).
An expression shows everything that it reads: if it evaluates to the same on two storages, they
agree there (`Storage.readPath_of_eval_eq`).

The expression that reads the values of a case is built by recursion on their trees. **It exists and
evaluates to the values, as soon as each leaf can be reached and holds its argument**
(`StandsAll.readExprs`). It leaves out no leaf (`StandsAll.mem_paths`).
-/

namespace SumLayout

/-! ## The fields that are looked at -/

namespace ReadExpr

mutual

/-- The paths to the fields that an expression reads, in order. -/
def paths : ReadExpr → List (List FieldId)
  | field path => [path]
  | narrow _ inner => inner.paths
  | record _ members | tuple members | grouping _ members => pathsAll members
  | singleton _ _ => []

/-- The paths to the fields that some expressions read. -/
def pathsAll : List ReadExpr → List (List FieldId)
  | [] => []
  | r :: rs => r.paths ++ pathsAll rs

end

end ReadExpr

/-- What the read of a case gives when the union holds another case. -/
def CaseRead.inactive {α : Type} : CaseRead → Content α
  | guarded _ _ => .vacant
  | isCase _ => .flag false

namespace Storage

variable {α : Type} {s s' : Storage α}

/-- The paths to the fields that the read of a case looks at. -/
def pathsRead (s : Storage α) : CaseRead → List (List FieldId)
  | .guarded tag value => if tag = s.tag then value.paths else []
  | .isCase _ => []

mutual

theorem readPath_of_eval_eq : ∀ r : ReadExpr, s'.eval r = s.eval r →
    ∀ path ∈ r.paths, s'.readPath path = s.readPath path
  | .field _, h => fun _ hp => List.mem_singleton.mp hp ▸ h
  | .narrow _ inner, h => readPath_of_eval_eq inner h
  | .record _ members, h => readPath_of_evalAll_eq members (Content.record.inj h).2
  | .tuple members, h => readPath_of_evalAll_eq members (Content.tuple.inj h)
  | .grouping _ members, h => readPath_of_evalAll_eq members (Content.grouping.inj h).2
  | .singleton _ _, _ => fun _ hp => absurd hp List.not_mem_nil

theorem readPath_of_evalAll_eq : ∀ rs : List ReadExpr, s'.evalAll rs = s.evalAll rs →
    ∀ path ∈ ReadExpr.pathsAll rs, s'.readPath path = s.readPath path
  | [], _ => fun _ hp => absurd hp List.not_mem_nil
  | r :: rs, h => fun path hp => (List.mem_append.mp hp).elim
    (readPath_of_eval_eq r (List.cons.inj h).1 path)
    (readPath_of_evalAll_eq rs (List.cons.inj h).2 path)

end

/-- **The read of a case that the union does not hold gives a default and looks at nothing.** -/
theorem read_of_tag_ne {r : CaseRead} (h : r.tag ≠ s.tag) :
    s.read r = r.inactive ∧ s.pathsRead r = [] := by
  cases r with
  | guarded tag value => exact ⟨if_neg h, if_neg h⟩
  | isCase tag => exact ⟨congrArg Content.flag (decide_eq_false h), rfl⟩

end Storage

/-! ## The expression for a value -/

/-- A composite value, put together from the values it is made of. -/
def ValueType.assemble {α : Type} (t : ValueType) (parts : List (Content α)) : Content α :=
  if t.shape.isTuple then .tuple parts else .record t.name parts

namespace NodeTree

variable {l : Layout} {caseName : String} {id : NodeId} {n : Node} {members : List NodeTree}

theorem readExpr_leaf (id : NodeId) (members : List NodeTree) (h : n.storage ≠ .decomposable)
    {field : FieldId} (hf : n.field = some field) {path : List FieldId}
    (hp : l.pathTo field caseName = .ok path) :
    ∃ r, readExpr l caseName ⟨id, n, members⟩ = .ok r ∧
      ∀ {α : Type} (s : Storage α), s.eval r = s.readPath path := by
  rw [readExpr, if_neg h, hf]
  simp only [hp]
  split
  · exact ⟨_, rfl, fun _ => rfl⟩
  · exact ⟨_, rfl, fun _ => rfl⟩

theorem readExpr_composite (id : NodeId) (h : n.storage = .decomposable)
    (hs : n.type.shape.isRecord = true ∨ n.type.shape.isTuple = true) {rs : List ReadExpr}
    (hm : readExprs l caseName members = .ok rs) :
    ∃ r, readExpr l caseName ⟨id, n, members⟩ = .ok r ∧
      ∀ {α : Type} (s : Storage α), s.eval r = n.type.assemble (s.evalAll rs) := by
  rw [readExpr, if_pos h, hm]
  cases hr : n.type.shape.isRecord with
  | true =>
    refine ⟨_, rfl, fun s => ?_⟩
    rw [ValueType.assemble, StorageClass.isTuple_eq_false_of_isRecord hr]
    rfl
  | false =>
    have ht := hs.resolve_left (by simp [hr])
    simp only [ht, if_true, Bool.false_eq_true, if_false]
    refine ⟨_, rfl, fun s => ?_⟩
    rw [ValueType.assemble, ht]
    rfl

theorem paths_readExpr_leaf (h : n.storage ≠ .decomposable) {field : FieldId}
    (hf : n.field = some field) {path : List FieldId} (hp : l.pathTo field caseName = .ok path)
    {r : ReadExpr} (hr : readExpr l caseName ⟨id, n, members⟩ = .ok r) : r.paths = [path] := by
  rw [readExpr, if_neg h, hf] at hr
  simp only [hp] at hr
  split at hr
  all_goals
    rw [← Except.ok.inj hr]
    rfl

/-- The expression for a composite puts together those for its members, as a record or a tuple. -/
theorem exists_of_readExpr_composite (h : n.storage = .decomposable) {r : ReadExpr}
    (hr : readExpr l caseName ⟨id, n, members⟩ = .ok r) :
    ∃ rs, readExprs l caseName members = .ok rs ∧
      (r = .record n.type.name rs ∨ n.type.shape.isTuple = true ∧ r = .tuple rs) := by
  rw [readExpr, if_pos h] at hr
  cases hm : readExprs l caseName members with
  | error e => simp [hm] at hr
  | ok rs =>
    refine ⟨rs, rfl, ?_⟩
    simp only [hm] at hr
    split at hr
    · exact Or.inl (Except.ok.inj hr).symm
    · split at hr
      · next htuple => exact Or.inr ⟨htuple, (Except.ok.inj hr).symm⟩
      · exact absurd hr (by simp)

theorem paths_readExpr_composite (h : n.storage = .decomposable) {r : ReadExpr}
    (hr : readExpr l caseName ⟨id, n, members⟩ = .ok r) :
    ∃ rs, readExprs l caseName members = .ok rs ∧ r.paths = ReadExpr.pathsAll rs := by
  obtain ⟨rs, hrs, rfl | ⟨-, rfl⟩⟩ := exists_of_readExpr_composite h hr
  · exact ⟨rs, hrs, by rw [ReadExpr.paths]⟩
  · exact ⟨rs, hrs, by rw [ReadExpr.paths]⟩

theorem exists_of_readExprs_cons {t : NodeTree} {ts : List NodeTree} {rs : List ReadExpr}
    (h : readExprs l caseName (t :: ts) = .ok rs) : ∃ r rs', rs = r :: rs' ∧
      t.readExpr l caseName = .ok r ∧ readExprs l caseName ts = .ok rs' := by
  rw [readExprs] at h
  cases ht : t.readExpr l caseName with
  | error e => simp [ht] at h
  | ok r =>
    cases hts : readExprs l caseName ts with
    | error e => simp [ht, hts] at h
    | ok rs' =>
      simp only [ht, hts, Except.ok.injEq] at h
      exact ⟨r, rs', h.symm, rfl, rfl⟩

theorem readExprs_cons {t : NodeTree} {ts : List NodeTree} {r : ReadExpr} {rs : List ReadExpr}
    (ht : t.readExpr l caseName = .ok r) (hts : readExprs l caseName ts = .ok rs) :
    readExprs l caseName (t :: ts) = .ok (r :: rs) := by
  rw [readExprs, ht]
  simp only [hts]

/-- Each leaf can be reached. -/
def Reached (l : Layout) (caseName : String) (ts : List NodeTree) : Prop :=
  ∀ n ∈ leavesAll ts, ∃ id path, n.field = some id ∧ l.pathTo id caseName = .ok path

/-- Each leaf holds its argument. -/
def Filled {α : Type} (l : Layout) (caseName : String) (ts : List NodeTree)
    (arg : List String → α) (s : Storage α) : Prop :=
  ∀ n ∈ leavesAll ts, ∀ id path, n.field = some id → l.pathTo id caseName = .ok path →
    s.readPath path = .leaf (arg n.path)

/-- The expressions read the values that the trees stand for. -/
structure ReadBy (l : Layout) (caseName : String) (ts : List NodeTree) (rs : List ReadExpr) :
    Prop where
  result : readExprs l caseName ts = .ok rs
  eval : ∀ {α : Type} {arg : List String → α} {s : Storage α}, Filled l caseName ts arg s →
    s.evalAll rs = contents arg ts

theorem ReadBy.cons_leaf {ts : List NodeTree} {rs : List ReadExpr}
    (h : n.storage ≠ .decomposable) (hleaf : Reached l caseName [⟨id, n, members⟩])
    (hts : ReadBy l caseName ts rs) :
    ∃ r, ReadBy l caseName (⟨id, n, members⟩ :: ts) (r :: rs) := by
  have hmem : ∀ us, n ∈ leavesAll (⟨id, n, members⟩ :: us) := by
    intro us
    simp [leavesAll, leaves, Node.isLeaf, h]
  obtain ⟨field, path, hf, hp⟩ := hleaf n (hmem [])
  obtain ⟨r, hr, heval⟩ := readExpr_leaf id members h hf hp
  refine ⟨r, readExprs_cons hr hts.result, fun {α arg s} hfill => ?_⟩
  have hrest : Filled l caseName ts arg s := fun m hm =>
    hfill m (List.mem_append_right _ hm)
  rw [Storage.evalAll, contents, hts.eval hrest, heval, hfill n (hmem ts) field path hf hp,
    content, if_neg h]

theorem ReadBy.cons_composite {ts : List NodeTree} {ms rs : List ReadExpr}
    (h : n.storage = .decomposable)
    (hs : n.type.shape.isRecord = true ∨ n.type.shape.isTuple = true)
    (hm : ReadBy l caseName members ms) (hts : ReadBy l caseName ts rs) :
    ∃ r, ReadBy l caseName (⟨id, n, members⟩ :: ts) (r :: rs) := by
  obtain ⟨r, hr, heval⟩ := readExpr_composite id h hs hm.result
  refine ⟨r, readExprs_cons hr hts.result, fun {α arg s} hfill => ?_⟩
  have hin : Filled l caseName members arg s := fun m hmem =>
    hfill m (List.mem_append_left _ (List.mem_append_right _ hmem))
  have hrest : Filled l caseName ts arg s := fun m hmem =>
    hfill m (List.mem_append_right _ hmem)
  rw [Storage.evalAll, contents, hts.eval hrest, heval, hm.eval hin, content, if_pos h]
  rfl

end NodeTree

namespace Value

variable {classOf : Shape → StorageClass} {l : Layout} {caseName : String}

/-- **The values of a case can be read**, provided that what is taken apart can be put together
again and each leaf can be reached. -/
theorem StandsAll.readExprs
    (hclass : ∀ s, classOf s = .decomposable → s.isRecord = true ∨ s.isTuple = true)
    {path : List String} {vs : List Value} {ts : List NodeTree}
    (h : StandsAll classOf path vs ts) : NodeTree.Reached l caseName ts →
    ∃ rs, NodeTree.ReadBy l caseName ts rs := by
  induction h with
  | nil => exact fun _ => ⟨[], rfl, fun _ => rfl⟩
  | @leaf _ _ _ _ _ id n ts whole node _ _ ih =>
    intro hreach
    obtain ⟨rs, hrs⟩ := ih fun m hm => hreach m (List.mem_append_right _ hm)
    have hleaf : NodeTree.Reached l caseName [⟨id, n, []⟩] := fun m hm =>
      hreach m (List.mem_append_left _ (by simpa [NodeTree.leavesAll] using hm))
    obtain ⟨r, hr⟩ := hrs.cons_leaf (node.storage ▸ whole) hleaf
    exact ⟨_, hr⟩
  | composite parts node _ _ _ ihm ih =>
    intro hreach
    obtain ⟨rs, hrs⟩ := ih fun m hm => hreach m (List.mem_append_right _ hm)
    obtain ⟨ms, hms⟩ := ihm fun m hm =>
      hreach m (List.mem_append_left _ (List.mem_append_right _ hm))
    obtain ⟨r, hr⟩ :=
      hms.cons_composite (node.storage.trans parts) (node.type ▸ hclass _ parts) hrs
    exact ⟨_, hr⟩

/-- **The expressions read every leaf.** -/
theorem StandsAll.mem_paths {path : List String} {vs : List Value} {ts : List NodeTree}
    (h : StandsAll classOf path vs ts) : ∀ {rs : List ReadExpr},
    NodeTree.readExprs l caseName ts = .ok rs → ∀ n ∈ NodeTree.leavesAll ts, ∀ id way,
    n.field = some id → l.pathTo id caseName = .ok way → way ∈ ReadExpr.pathsAll rs := by
  induction h with
  | nil => exact fun _ n hn => absurd hn List.not_mem_nil
  | @leaf _ _ _ _ _ _ n _ whole node _ _ ih =>
    intro rs hrs m hm id way hf hp
    obtain ⟨r, rs', rfl, hr, hrs'⟩ := NodeTree.exists_of_readExprs_cons hrs
    rw [NodeTree.leavesAll, NodeTree.leaves, List.mem_append] at hm
    rcases hm with hm | hm
    · have hroot : m = n := by
        simpa [Node.isLeaf, node.storage, whole, NodeTree.leavesAll] using hm
      subst hroot
      rw [ReadExpr.pathsAll, NodeTree.paths_readExpr_leaf (node.storage ▸ whole) hf hp hr]
      exact List.mem_cons_self
    · exact List.mem_append_right _ (ih hrs' m hm id way hf hp)
  | composite parts node _ _ _ ihm ih =>
    intro rs hrs m hm id way hf hp
    obtain ⟨r, rs', rfl, hr, hrs'⟩ := NodeTree.exists_of_readExprs_cons hrs
    obtain ⟨inner, hinner, hpaths⟩ :=
      NodeTree.paths_readExpr_composite (node.storage.trans parts) hr
    rw [NodeTree.leavesAll, NodeTree.leaves, List.mem_append, List.mem_append] at hm
    rw [ReadExpr.pathsAll, hpaths, List.mem_append]
    rcases hm with (hm | hm) | hm
    · exact absurd hm (by simp [Node.isLeaf, node.storage, parts])
    · exact Or.inl (ihm hinner m hm id way hf hp)
    · exact Or.inr (ih hrs' m hm id way hf hp)

end Value

end SumLayout
