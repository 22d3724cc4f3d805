import SumLayout.Proofs.Narrowing

/-!
# The type that an accessor presents

What the accessor of a case returns is presented from the declaration, and the expression behind it
is derived from the layout. That the two agree is said with **static types** (`ReadExpr.HasType`): a
field is of the type that it is declared with in the finished layout, which may be wider than what
is stored in it, a narrowed read and a record are of the type that they state, and a tuple is of the
type of a tuple-shaped value if its elements are of the types of the members.

The expression for every value is of the type of the value (`StandsAll.haveTypes`): this is where
widening and narrowing have to fit, and the induction goes through composites to any depth. Then
each case is exposed in one of five ways (`Layout.Exposes`), and since these exclude each other,
**what is presented tells the form of the access and is told by it** (`presentedType_of_allocate`).
-/

namespace SumLayout

/-! ## Static types -/

namespace ReadExpr

mutual

/-- An expression that reads a value is of a type. -/
inductive HasType (l : Layout) : ReadExpr → Value → String → Prop
  | field {path : List FieldId} {id : FieldId} {f : Field} {v : Value}
    (last : path.getLast? = some id) (declared : l.fields[id]? = some f) :
    HasType l (.field path) v f.typeName
  | narrow {typeName : String} {inner : ReadExpr} {v : Value} :
    HasType l (.narrow typeName inner) v typeName
  | record {typeName : String} {members : List ReadExpr} {v : Value} :
    HasType l (.record typeName members) v typeName
  | tuple {members : List ReadExpr} {v : Value} (shape : v.type.shape.isTuple = true)
    (inner : HaveTypes l members v.members (v.members.map (·.type.name))) :
    HasType l (.tuple members) v v.type.name

/-- Expressions that read some values, one for each in order, are of some types. -/
inductive HaveTypes (l : Layout) : List ReadExpr → List Value → List String → Prop
  | nil : HaveTypes l [] [] []
  | cons {r : ReadExpr} {v : Value} {typeName : String} {rs : List ReadExpr} {vs : List Value}
    {typeNames : List String} (head : HasType l r v typeName)
    (tail : HaveTypes l rs vs typeNames) :
    HaveTypes l (r :: rs) (v :: vs) (typeName :: typeNames)

end

variable {l : Layout} {r : ReadExpr} {v : Value} {s t : String}

/-- **An expression is of one type only.** -/
theorem HasType.unique (h : r.HasType l v s) (h' : r.HasType l v t) : s = t := by
  cases h with
  | field last declared =>
    cases h' with
    | field last' declared' =>
      obtain rfl := Option.some.inj (last.symm.trans last')
      rw [Option.some.inj (declared.symm.trans declared')]
  | narrow | record | tuple =>
    cases h'
    rfl

theorem HaveTypes.unique : ∀ {rs : List ReadExpr} {vs : List Value} {ss ts : List String},
    HaveTypes l rs vs ss → HaveTypes l rs vs ts → ss = ts
  | _, _, _, _, .nil, .nil => rfl
  | _, _, _, _, .cons head tail, .cons head' tail' => by
    rw [head.unique head', tail.unique tail']

theorem not_hasType_singleton {typeName accessor : String} :
    ¬HasType l (.singleton typeName accessor) v t := fun h => nomatch h

theorem not_hasType_grouping {typeName : String} {members : List ReadExpr} :
    ¬HasType l (.grouping typeName members) v t := fun h => nomatch h

end ReadExpr

/-- A way that there is ends at the field, which is a field of the layout. -/
theorem Layout.getLast?_of_pathTo? {l : Layout} {id : FieldId} {path : List FieldId}
    (h : l.pathTo? id = some path) : path.getLast? = some id ∧ ∃ f, l.fields[id]? = some f := by
  rw [pathTo?] at h
  cases hf : l.fields[id]? with
  | none => simp [hf] at h
  | some f =>
    refine ⟨?_, f, rfl⟩
    rw [hf, Option.map_some] at h
    cases hp : f.place with
    | onUnion =>
      simp only [hp, Option.ite_none_right_eq_some, Option.some.injEq] at h
      rw [← h.2]
      rfl
    | inOverlap =>
      simp only [hp, Option.bind_eq_some_iff, Option.ite_none_right_eq_some,
        Option.some.injEq] at h
      obtain ⟨region, -, -, rfl⟩ := h
      rfl
    | inRegion own =>
      simp only [hp, Option.bind_eq_some_iff, Option.ite_none_right_eq_some,
        Option.some.injEq] at h
      obtain ⟨region, -, -, rfl⟩ := h
      rfl

/-- A leaf is read as the type that it has. -/
theorem Layout.ReadsLeaf.hasType {l : Layout} {n : Node} {r : ReadExpr} (h : l.ReadsLeaf n r)
    (v : Value) : r.HasType l v n.type.name := by
  cases h with
  | whole field way same =>
    obtain ⟨hlast, f, hf⟩ := getLast?_of_pathTo? way
    have htype : f.typeName = n.type.name := by
      rw [← same, fieldType, hf]
      rfl
    exact htype ▸ .field hlast hf
  | narrowed => exact .narrow

/-- **The expression for each value is of the type of the value.** -/
theorem Value.StandsAll.haveTypes {classOf : Shape → StorageClass} {l : Layout} {caseName : String}
    {path : List String} {vs : List Value} {ts : List NodeTree}
    (h : StandsAll classOf path vs ts) : ∀ {rs : List ReadExpr},
    NodeTree.readExprs l caseName ts = .ok rs →
    ReadExpr.HaveTypes l rs vs (vs.map (·.type.name)) := by
  induction h with
  | nil =>
    intro rs hrs
    rw [← Except.ok.inj hrs]
    exact .nil
  | leaf whole node _ _ ih =>
    intro rs hrs
    obtain ⟨r, rs', rfl, hr, hrs'⟩ := NodeTree.exists_of_readExprs_cons hrs
    have hread := (NodeTree.readsLeaf_of_readExpr (node.storage ▸ whole) hr).1
    exact .cons (node.type ▸ hread.hasType _) (ih hrs')
  | composite parts node _ _ _ ihm ih =>
    intro rs hrs
    obtain ⟨r, rs', rfl, hr, hrs'⟩ := NodeTree.exists_of_readExprs_cons hrs
    obtain ⟨inner, hinner, hform⟩ :=
      NodeTree.exists_of_readExpr_composite (node.storage.trans parts) hr
    refine .cons ?_ (ih hrs')
    rw [node.type] at hform
    rcases hform with rfl | ⟨htuple, rfl⟩
    · exact .record
    · exact .tuple htuple (ihm hinner)

/-! ## Which leaves are read -/

/-- The expressions read the values at some nodes, one for each in order: its leaves, one after
another, and nothing else. -/
def Layout.ReadsEach (l : Layout) (roots : List NodeId) (rs : List ReadExpr) : Prop :=
  List.Forall₂ (fun id r => List.Forall₂ l.ReadsLeaf (l.leafNodes [id]) r.atoms) roots rs

theorem Layout.readsEach_of_readExprs {classOf : Shape → StorageClass} {l : Layout}
    {caseName : String} {path : List String} {ts : List NodeTree} : ∀ {vs : List Value}
    {rs : List ReadExpr}, Value.StandsAll classOf path vs ts → NodeTree.RootedAll l.nodes ts →
    NodeTree.readExprs l caseName ts = .ok rs → l.ReadsEach (ts.map NodeTree.id) rs := by
  induction ts with
  | nil =>
    intro vs rs _ _ hrs
    rw [← Except.ok.inj hrs]
    exact .nil
  | cons t ts ih =>
    intro vs rs h hroot hrs
    obtain ⟨r, rs', rfl, hr, hrs'⟩ := NodeTree.exists_of_readExprs_cons hrs
    cases vs with
    | nil => exact nomatch h
    | cons v vs =>
      obtain ⟨hv, hvs⟩ := h.cons_inv
      have hreads := hv.readsLeaves (NodeTree.readExprs_cons hr rfl)
      rw [ReadExpr.atomsAll, ReadExpr.atomsAll, List.append_nil] at hreads
      have hrooted : NodeTree.RootedAll l.nodes [t] := ⟨hroot.1, trivial⟩
      have hleaves : l.leafNodes [t.id] = NodeTree.leavesAll [t] := leafNodes_of_rooted hrooted
      exact .cons (hleaves ▸ hreads) (ih hvs hroot.2 hrs')

/-! ## How a case is exposed -/

/-- A case exposes what the accessor presents: nothing but whether it holds, the only instance of a
type, its only value, or its values as a tuple or under a named type. -/
inductive Layout.Exposes (l : Layout) (i : Nat) (c : Case) (m : CaseMapping) :
    Option PresentedType → Prop
  | nothing {tag : UInt32} (values : c.values = []) (read : m.read = .isCase tag) :
    Exposes l i c m none
  | singleton {tag : UInt32} {typeName accessor : String} (values : c.values = [])
    (read : m.read = .guarded tag (.singleton typeName accessor)) :
    Exposes l i c m (some (.singleton typeName))
  | single {tag : UInt32} {v : Value} {r : ReadExpr} (values : c.values = [v])
    (bundle : m.bundle = none) (read : m.read = .guarded tag r)
    (type : r.HasType l v v.type.name) : Exposes l i c m (some (.single v.type.name))
  | tuple {tag : UInt32} {rs : List ReadExpr} (values : 2 ≤ c.values.length)
    (bundle : m.bundle = some .tuple) (read : m.read = .guarded tag (.tuple rs))
    (types : ReadExpr.HaveTypes l rs c.values (c.values.map (·.type.name)))
    (order : l.ReadsEach (l.caseAt i).roots rs) :
    Exposes l i c m (some (.tuple (c.values.map fun v => (v.type.name, v.name))))
  | grouping {tag : UInt32} {typeName : String} {rs : List ReadExpr}
    (values : 2 ≤ c.values.length) (bundle : m.bundle = some (.grouping typeName))
    (read : m.read = .guarded tag (.grouping typeName rs))
    (types : ReadExpr.HaveTypes l rs c.values (c.values.map (·.type.name)))
    (order : l.ReadsEach (l.caseAt i).roots rs) :
    Exposes l i c m (some (.grouping typeName))

/-- The type that is presented and the form of the access tell each other. -/
structure Layout.Agrees (l : Layout) (i : Nat) (c : Case) (m : CaseMapping)
    (p : Option PresentedType) : Prop where
  /-- No value is presented exactly if only the tag is checked. -/
  nothing : p = none ↔ ∃ tag, m.read = .isCase tag
  singleton : ∀ typeName, p = some (.singleton typeName) ↔
    ∃ tag accessor, m.read = .guarded tag (.singleton typeName accessor)
  /-- A type is presented exactly if it is that of the expression for the only value. -/
  single : ∀ typeName, p = some (.single typeName) ↔
    ∃ v tag r, c.values = [v] ∧ m.read = .guarded tag r ∧ r.HasType l v typeName
  /-- Elements are presented exactly if they have the names of the values and the types of the
  expressions for them, one for each in order. -/
  tuple : ∀ elements, p = some (.tuple elements) ↔ m.bundle = some .tuple ∧
    ∃ tag rs, m.read = .guarded tag (.tuple rs) ∧
      ReadExpr.HaveTypes l rs c.values (elements.map Prod.fst) ∧
      elements.map Prod.snd = c.values.map (·.name) ∧ l.ReadsEach (l.caseAt i).roots rs
  /-- A named type is presented exactly if the expressions for the values, one for each in order,
  are put together to it. -/
  grouping : ∀ typeName, p = some (.grouping typeName) ↔
    ∃ tag rs, m.read = .guarded tag (.grouping typeName rs) ∧
      ReadExpr.HaveTypes l rs c.values (c.values.map (·.type.name)) ∧
      l.ReadsEach (l.caseAt i).roots rs

namespace Layout

variable {classOf : Shape → StorageClass} {overlapped : Bool} {done : List Case} {l : Layout}
  {c : Case} {cl : CaseLayout} {ts : List NodeTree} {i : Nat} {m : CaseMapping}
  {p : Option PresentedType}

/-- **The ways of exposing a case exclude each other.** -/
theorem Exposes.agrees (h : l.Exposes i c m p) : l.Agrees i c m p := by
  cases h with
  | nothing values read => constructor <;> simp [values, read]
  | singleton values read =>
    constructor
    case singleton =>
      intro typeName
      simp [read]
    all_goals simp [read, values]
  | @single tag v r values bundle read type =>
    constructor
    case nothing => simp [read]
    case singleton =>
      intro typeName
      refine iff_of_false (by simp) ?_
      rintro ⟨tag', accessor, hr⟩
      obtain ⟨-, rfl⟩ := CaseRead.guarded.inj (read.symm.trans hr)
      exact ReadExpr.not_hasType_singleton type
    case single =>
      intro typeName
      rw [Option.some.injEq, PresentedType.single.injEq]
      constructor
      · rintro rfl
        exact ⟨v, tag, r, values, read, type⟩
      · rintro ⟨v', tag', r', hv, hr, ht⟩
        obtain ⟨rfl, -⟩ := List.cons.inj (values.symm.trans hv)
        obtain ⟨-, rfl⟩ := CaseRead.guarded.inj (read.symm.trans hr)
        exact type.unique ht
    case tuple => simp [bundle]
    case grouping =>
      intro typeName
      refine iff_of_false (by simp) ?_
      rintro ⟨tag', rs, hr, -⟩
      obtain ⟨-, rfl⟩ := CaseRead.guarded.inj (read.symm.trans hr)
      exact ReadExpr.not_hasType_grouping type
  | @tuple tag rs values bundle read types order =>
    constructor
    case tuple =>
      intro elements
      rw [Option.some.injEq, PresentedType.tuple.injEq]
      constructor
      · rintro rfl
        refine ⟨bundle, tag, rs, read, ?_, ?_, order⟩
        · rw [List.map_map]
          exact types
        · rw [List.map_map]
          rfl
      · rintro ⟨-, tag', rs', hr, ht, hnames, -⟩
        obtain ⟨-, he⟩ := CaseRead.guarded.inj (read.symm.trans hr)
        obtain rfl := ReadExpr.tuple.inj he
        -- elements are settled by their types and their names
        rw [← List.zip_map', types.unique ht, ← hnames, ← List.unzip_fst, ← List.unzip_snd,
          List.zip_unzip]
    case single =>
      intro typeName
      refine iff_of_false (by simp) ?_
      rintro ⟨v, -, -, hv, -⟩
      simp [hv] at values
    all_goals simp [read]
  | @grouping tag typeName rs values bundle read types order =>
    constructor
    case grouping =>
      intro typeName'
      rw [Option.some.injEq, PresentedType.grouping.injEq]
      constructor
      · rintro rfl
        exact ⟨tag, rs, read, types, order⟩
      · rintro ⟨tag', rs', hr, -⟩
        exact (ReadExpr.grouping.inj (CaseRead.guarded.inj (read.symm.trans hr)).2).1
    case single =>
      intro typeName'
      refine iff_of_false (by simp) ?_
      rintro ⟨v, -, -, hv, -⟩
      simp [hv] at values
    all_goals simp [read, bundle]

/-! ## Every case -/

/-- A case without values exposes the only instance of its type, or nothing. -/
theorem Holds.exposes_nil (h : Holds classOf l c cl ts) (hcl : l.cases[i]? = some cl)
    {tag : UInt32} (hm : l.Maps i c tag m) (hv : c.values = []) :
    l.Exposes i c m (c.presentedType m.bundle) := by
  have hr := (mapCase_eq_ok hm.result).2
  have hts : ts = [] := List.eq_nil_of_length_eq_zero (by rw [h.stands.length_eq, hv]; rfl)
  rw [Layout.caseRead, caseAt_eq hcl, h.forest, hts, Case.singleton?] at hr
  rw [Case.presentedType, hv, Case.singletonType]
  cases hw : c.wraps with
  | none =>
    rw [hw] at hr
    exact .nothing hv (Except.ok.inj hr).symm
  | some t =>
    cases ha : t.singletonAccessor with
    | none =>
      simp only [hw, Option.bind_some, ha, Option.map_none, Except.ok.injEq] at hr
      simp only [Option.filter, ValueType.isSingleton, ha]
      exact .nothing hv hr.symm
    | some accessor =>
      simp only [hw, Option.bind_some, ha, Option.map_some, Except.ok.injEq] at hr
      simp only [Option.filter, ValueType.isSingleton, ha]
      exact .singleton hv hr.symm

/-- A case with one value exposes it. -/
theorem Holds.exposes_singleton (h : Holds classOf l c cl ts) (hcl : l.cases[i]? = some cl)
    {tag : UInt32} (hm : l.Maps i c tag m) {v : Value} (hv : c.values = [v]) :
    l.Exposes i c m (c.presentedType m.bundle) := by
  have hr := (mapCase_eq_ok hm.result).2
  have hstands := h.stands
  rw [hv] at hstands
  obtain ⟨t, rfl⟩ := List.length_eq_one_iff.mp hstands.length_eq
  rw [Layout.caseRead, caseAt_eq hcl, h.forest] at hr
  cases ht : t.readExpr l c.name with
  | error e => simp [ht, Except.map] at hr
  | ok r =>
    simp only [ht, Except.map, Except.ok.injEq] at hr
    have hbundle : m.bundle = none := by
      rw [hm.bundle, Case.bundle, hv]
      rfl
    rw [Case.presentedType, hv]
    cases hstands.haveTypes (NodeTree.readExprs_cons ht rfl) with
    | cons head tail => exact .single hv hbundle hr.symm head

/-- A case with several values exposes them together. -/
theorem Holds.exposes_cons_cons (h : Holds classOf l c cl ts) (hcl : l.cases[i]? = some cl)
    {tag : UInt32} (hm : l.Maps i c tag m) {v w : Value} {vs : List Value}
    (hv : c.values = v :: w :: vs) : l.Exposes i c m (c.presentedType m.bundle) := by
  have hr := (mapCase_eq_ok hm.result).2
  have hlen : 2 ≤ c.values.length := by simp [hv]
  obtain ⟨t, t', ts', rfl⟩ : ∃ t t' ts', ts = t :: t' :: ts' := by
    have htwo := h.stands.length_eq ▸ hlen
    rcases ts with _ | ⟨t, _ | ⟨t', ts'⟩⟩
    · exact absurd htwo (by simp)
    · exact absurd htwo (by simp)
    · exact ⟨t, t', ts', rfl⟩
  rw [Layout.caseRead, caseAt_eq hcl, h.forest] at hr
  cases hrs : NodeTree.readExprs l c.name (t :: t' :: ts') with
  | error e =>
    simp only [hrs, Except.map] at hr
    split at hr <;> exact absurd hr (by simp)
  | ok rs =>
    have htypes := h.stands.haveTypes hrs
    have horder : l.ReadsEach (l.caseAt i).roots rs := by
      rw [caseAt_eq hcl, h.roots]
      exact readsEach_of_readExprs h.stands h.rooted hrs
    simp only [hrs, Except.map] at hr
    rw [← hm.bundle] at hr
    have hsome : m.bundle ≠ none := by
      rw [hm.bundle, Case.bundle, if_neg (by omega)]
      split <;> simp
    cases hb : m.bundle with
    | none => exact absurd hb hsome
    | some b =>
      cases b with
      | tuple =>
        simp only [hb, Except.ok.injEq] at hr
        have hp : c.presentedType (some .tuple) =
            some (.tuple (c.values.map fun v => (v.type.name, v.name))) := by
          rw [Case.presentedType, hv]
        rw [hp]
        exact .tuple hlen hb hr.symm htypes horder
      | grouping typeName =>
        simp only [hb, Except.ok.injEq] at hr
        have hp : c.presentedType (some (.grouping typeName)) = some (.grouping typeName) := by
          rw [Case.presentedType, hv]
        rw [hp]
        exact .grouping hlen hb hr.symm htypes horder

/-- **Each case that is mapped exposes what is presented for it.** -/
theorem Built.exposes (hb : Built classOf overlapped done l) (hc : done[i]? = some c) {tag : UInt32}
    (hm : l.Maps i c tag m) : l.Exposes i c m (c.presentedType m.bundle) := by
  obtain ⟨cl, ts, hcl, h⟩ := hb.holds_at hc
  rcases hv : c.values with _ | ⟨v, _ | ⟨w, vs⟩⟩
  · exact h.exposes_nil hcl hm hv
  · exact h.exposes_singleton hcl hm hv
  · exact h.exposes_cons_cons hcl hm hv

/-- **What is presented and the access to it agree.** Whatever the tags are, the cases that have one
are mapped. For each of them, its values are bundled as it says, and the type that is presented
tells the form of the access and the static types in it, and the other way round. -/
theorem presentedType_of_allocate {u : Union} {allowOverlap : Bool}
    (hl : allocate u allowOverlap = .ok l) (tags : List UInt32) :
    ∃ ms, mapCases u l tags = .ok ms ∧ ms.length = min u.cases.length tags.length ∧
      ∀ (i : Nat) (c : Case) (m : CaseMapping), u.cases[i]? = some c → ms[i]? = some m →
        m.bundle = c.bundle ∧ l.Agrees i c m (c.presentedType m.bundle) := by
  obtain ⟨-, hb⟩ := built_of_allocate hl
  obtain ⟨ms, hms⟩ := hb.exists_mapsAll (suits_of_allocate hl) tags
  refine ⟨ms, hms.result, hms.length, ?_⟩
  intro i c m hc hm
  obtain ⟨tag, -, hmap⟩ := hms.maps_at hc hm
  rw [Nat.zero_add] at hmap
  exact ⟨hmap.bundle, (hb.exposes hc hmap).agrees⟩

theorem presentedType_figures : ∃ l ms c m, allocate .figures true = .ok l ∧
    mapCases .figures l [1, 2, 3, 4, 5] = .ok ms ∧ Union.figures.cases[1]? = some c ∧
    ms[1]? = some m ∧
    c.presentedType m.bundle = some (.tuple [("Point", "corner"), ("string", "label")]) ∧
    l.Agrees 1 c m (some (.tuple [("Point", "corner"), ("string", "label")])) := by
  obtain ⟨l, hl, -⟩ := allocate_figures
  obtain ⟨ms, hms, hlen, hall⟩ := presentedType_of_allocate hl [1, 2, 3, 4, 5]
  have hone : 1 < ms.length := hlen ▸ by decide
  have hm := List.getElem?_eq_getElem hone
  obtain ⟨c, hc⟩ : ∃ c, Union.figures.cases[1]? = some c := ⟨_, rfl⟩
  obtain ⟨hbundle, hagrees⟩ := hall 1 c _ hc hm
  have hp : c.presentedType (ms[1]).bundle =
      some (.tuple [("Point", "corner"), ("string", "label")]) := by
    rw [hbundle, ← Option.some.inj hc]
    decide +kernel
  exact ⟨l, ms, c, _, hl, hms, hc, hm, hp, hp ▸ hagrees⟩

end Layout

end SumLayout
