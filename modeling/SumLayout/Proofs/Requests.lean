import SumLayout.Layout.Allocation
import SumLayout.Proofs.Arena

/-!
# Allocation as a list of requests

Allocation recurses on values, but what it does to the storage is a sequence: each leaf asks for a
field, in order of declaration. `Value.requests` is that sequence, and `Progress.placeAll` serves
it. The nodes are kept apart from it: serving requests never looks at them.

Storing some values either fails at the first of them that is hollow, that is to be taken apart but
has no members (`storeAll_of_hollow`), or it has served their requests and added complete trees that
stand for them (`storeAll_of_solid`). So whatever is said about storage is an induction over lists,
and whatever is said about nodes is an induction over trees.
-/

namespace SumLayout

/-- A leaf as it asks for a field. -/
structure Request where
  storage : StorageClass
  /-- What its name starts with. -/
  stem : String
  /-- The names from the parameter down to it. -/
  path : List String
  value : Value

/-- The node of a leaf, once it has its field. -/
def Request.node (r : Request) (id : FieldId) : Node where
  name := r.value.name
  type := r.value.type
  storage := r.storage
  field := some id
  path := r.path
  members := []

namespace Value

mutual

/-- The requests of a value that lies under the values named in `path`. -/
def requests (c : CaseScope) (stem : String) (path : List String) : Value → List Request
  | ⟨name, type, members⟩ =>
    if c.classOf type.shape = .decomposable then
      requestsAll c (c.memberStem path.isEmpty stem name) (path ++ [name]) members
    else [⟨c.classOf type.shape, stem, path ++ [name], ⟨name, type, members⟩⟩]

/-- The requests of some values, one value after another. -/
def requestsAll (c : CaseScope) (stem : String) (path : List String) : List Value → List Request
  | [] => []
  | v :: vs => v.requests c stem path ++ requestsAll c stem path vs

end

mutual

/-- The path and the shape of the first part of a value that is to be taken apart but has no
members. -/
def hollow? (classOf : Shape → StorageClass) (path : List String) :
    Value → Option (List String × Shape)
  | ⟨name, type, members⟩ =>
    if classOf type.shape = .decomposable then
      if members.isEmpty then some (path ++ [name], type.shape)
      else hollowAll? classOf (path ++ [name]) members
    else none

/-- The same for some values, one value after another. -/
def hollowAll? (classOf : Shape → StorageClass) (path : List String) :
    List Value → Option (List String × Shape)
  | [] => none
  | v :: vs => (v.hollow? classOf path).or (hollowAll? classOf path vs)

end

/-- A node stands for a value of type `t`, called `a`, that lies under the values in `path`. -/
structure StandsFor (classOf : Shape → StorageClass) (path : List String) (a : String)
    (t : ValueType) (n : Node) : Prop where
  name : n.name = a
  type : n.type = t
  storage : n.storage = classOf t.shape
  path : n.path = path ++ [a]

/-- Some trees have the structure of some values under a classification. -/
inductive StandsAll (classOf : Shape → StorageClass) :
    List String → List Value → List NodeTree → Prop
  | nil {path : List String} : StandsAll classOf path [] []
  | leaf {path : List String} {name : String} {type : ValueType} {members vs : List Value}
    {id : NodeId} {n : Node} {ts : List NodeTree} (whole : classOf type.shape ≠ .decomposable)
    (node : StandsFor classOf path name type n) (field : n.field.isSome = true)
    (rest : StandsAll classOf path vs ts) :
    StandsAll classOf path (⟨name, type, members⟩ :: vs) (⟨id, n, []⟩ :: ts)
  | composite {path : List String} {name : String} {type : ValueType} {members vs : List Value}
    {id : NodeId} {n : Node} {us ts : List NodeTree} (parts : classOf type.shape = .decomposable)
    (node : StandsFor classOf path name type n) (field : n.field = none)
    (inner : StandsAll classOf (path ++ [name]) members us) (rest : StandsAll classOf path vs ts) :
    StandsAll classOf path (⟨name, type, members⟩ :: vs) (⟨id, n, us⟩ :: ts)

section StandsAll

variable {classOf : Shape → StorageClass} {path : List String} {v : Value} {vs : List Value}
  {t : NodeTree} {ts : List NodeTree}

/-- There is one tree for each value. -/
theorem StandsAll.length_eq (h : StandsAll classOf path vs ts) : ts.length = vs.length := by
  induction h with
  | nil => rfl
  | leaf _ _ _ _ ih => rw [List.length_cons, List.length_cons, ih]
  | composite _ _ _ _ _ _ ih => rw [List.length_cons, List.length_cons, ih]

theorem StandsAll.cons_inv (h : StandsAll classOf path (v :: vs) (t :: ts)) :
    StandsAll classOf path [v] [t] ∧ StandsAll classOf path vs ts := by
  cases h with
  | leaf whole node field rest => exact ⟨.leaf whole node field .nil, rest⟩
  | composite parts node field inner rest => exact ⟨.composite parts node field inner .nil, rest⟩

end StandsAll

end Value

namespace Progress

/-- Serve some requests, one after another. -/
def placeAll (c : CaseScope) : List Request → Progress → List FieldId × Progress
  | [], p => ([], p)
  | r :: rs, p =>
    let (id, p) := p.placeLeaf c r.storage r.stem r.value
    let (ids, p) := placeAll c rs p
    (id :: ids, p)

variable {c : CaseScope}

/-! ## Serving requests does not look at nodes -/

theorem placeLeaf_nodes (storage : StorageClass) (stem : String) (v : Value) (p : Progress)
    (ns : List Node) :
    ({ p with nodes := ns }).placeLeaf c storage stem v
      = ((p.placeLeaf c storage stem v).1,
          { (p.placeLeaf c storage stem v).2 with nodes := ns }) := by
  obtain ⟨slots, nodes, region, regionFields, overlapLeaves⟩ := p
  cases storage with
  | overlappable =>
    simp only [placeLeaf, placeOverlap]
    split
    · cases region <;> rfl
    · rfl
  | sameType | reference | unique | decomposable => rfl

theorem placeAll_nodes (rs : List Request) (p : Progress) (ns : List Node) :
    placeAll c rs { p with nodes := ns }
      = ((placeAll c rs p).1, { (placeAll c rs p).2 with nodes := ns }) := by
  induction rs generalizing p with
  | nil => rfl
  | cons r rs ih => simp only [placeAll, placeLeaf_nodes, ih]

theorem placeLeaf_snd_nodes (storage : StorageClass) (stem : String) (v : Value) (p : Progress) :
    (p.placeLeaf c storage stem v).2.nodes = p.nodes :=
  congrArg (·.2.nodes) (placeLeaf_nodes storage stem v p p.nodes)

theorem placeAll_append (rs rs' : List Request) (p : Progress) :
    placeAll c (rs ++ rs') p
      = ((placeAll c rs p).1 ++ (placeAll c rs' (placeAll c rs p).2).1,
          (placeAll c rs' (placeAll c rs p).2).2) := by
  induction rs generalizing p with
  | nil => rfl
  | cons r rs ih => simp only [List.cons_append, placeAll, ih]

theorem length_placeAll (rs : List Request) (p : Progress) :
    (placeAll c rs p).1.length = rs.length := by
  induction rs generalizing p with
  | nil => rfl
  | cons r rs ih => simp only [placeAll, List.length_cons, ih]

end Progress

namespace Value

variable {c : CaseScope}

/-- Induction over some values: the members of the first one come before the others. -/
theorem forest_induction {motive : List Value → Prop} (nil : motive [])
    (cons : ∀ name type members vs, motive members → motive vs →
      motive (⟨name, type, members⟩ :: vs)) : ∀ vs, motive vs
  | [] => nil
  | ⟨name, type, members⟩ :: vs =>
    cons name type members vs (forest_induction nil cons members) (forest_induction nil cons vs)

/-! ## The first value of several -/

section Cons

variable {stem : String} {path : List String} {name : String} {type : ValueType}
  {members vs : List Value} {p : Progress}

theorem requestsAll_cons_leaf (h : c.classOf type.shape ≠ .decomposable) :
    requestsAll c stem path (⟨name, type, members⟩ :: vs)
      = ⟨c.classOf type.shape, stem, path ++ [name], ⟨name, type, members⟩⟩
        :: requestsAll c stem path vs := by
  rw [requestsAll, requests, if_neg h, List.singleton_append]

theorem requestsAll_cons_composite (h : c.classOf type.shape = .decomposable) :
    requestsAll c stem path (⟨name, type, members⟩ :: vs)
      = requestsAll c (c.memberStem path.isEmpty stem name) (path ++ [name]) members
        ++ requestsAll c stem path vs := by
  rw [requestsAll, requests, if_pos h]

theorem storeAll_cons_leaf (h : c.classOf type.shape ≠ .decomposable) :
    storeAll c stem path (⟨name, type, members⟩ :: vs) p
      = (storeAll c stem path vs
          { (p.placeLeaf c (c.classOf type.shape) stem ⟨name, type, members⟩).2 with
            nodes := p.nodes ++ [⟨name, type, c.classOf type.shape,
              some (p.placeLeaf c (c.classOf type.shape) stem ⟨name, type, members⟩).1,
              path ++ [name], []⟩] }).map fun q => (p.nodes.length :: q.1, q.2) := by
  rw [storeAll, store]
  cases hk : c.classOf type.shape with
  | decomposable => exact absurd hk h
  | _ =>
    simp only [Progress.pushNode, Progress.placeLeaf_snd_nodes]
    cases storeAll c stem path vs _ <;> rfl

theorem storeAll_cons_hollow (h : c.classOf type.shape = .decomposable) :
    storeAll c stem path (⟨name, type, []⟩ :: vs) p
      = .error (.invalidShape c.caseName (Text.dotted (path ++ [name])) type.shape .noMembers) := by
  rw [storeAll, store]
  simp only [h, List.isEmpty_nil, if_true]

theorem storeAll_cons_composite (h : c.classOf type.shape = .decomposable)
    (hm : members.isEmpty = false) :
    storeAll c stem path (⟨name, type, members⟩ :: vs) p
      = (storeAll c (c.memberStem path.isEmpty stem name) (path ++ [name]) members p).bind
          fun q => (storeAll c stem path vs
            { q.2 with nodes := q.2.nodes
                ++ [⟨name, type, .decomposable, none, path ++ [name], q.1⟩] }).map
            fun r => (q.2.nodes.length :: r.1, r.2) := by
  rw [storeAll, store]
  simp only [h, hm, Bool.false_eq_true, if_false, Progress.pushNode]
  cases storeAll c (c.memberStem path.isEmpty stem name) (path ++ [name]) members p with
  | error e => rfl
  | ok q =>
    simp only [Except.bind, Except.map]
    split <;> simp only [*]

end Cons

/-! ## What storing some values does -/

/-- Storing some values has served their requests and has added nodes that make complete trees, one
for each value. -/
structure StoredAll (c : CaseScope) (stem : String) (path : List String) (vs : List Value)
    (p : Progress) (ts : List NodeTree) (added : List Node) : Prop where
  result : storeAll c stem path vs p = .ok (ts.map NodeTree.id,
    { (p.placeAll c (requestsAll c stem path vs)).2 with nodes := p.nodes ++ added })
  rooted : NodeTree.RootedAll (p.nodes ++ added) ts
  stands : StandsAll c.classOf path vs ts
  leaves : NodeTree.leavesAll ts = List.zipWith Request.node (requestsAll c stem path vs)
    (p.placeAll c (requestsAll c stem path vs)).1
  ids : (NodeTree.idsAll ts).Perm (List.range' p.nodes.length added.length)

theorem StoredAll.id_lt {stem : String} {path : List String} {vs : List Value} {p : Progress}
    {ts : List NodeTree} {added : List Node} (h : StoredAll c stem path vs p ts added)
    {t : NodeTree} (ht : t ∈ ts) : t.id < p.nodes.length + added.length := by
  have hid := h.ids.mem_iff.mp (NodeTree.id_mem_idsAll ht)
  rw [List.mem_range'_1] at hid
  exact hid.2

theorem StoredAll.cons_leaf {stem : String} {path : List String} {name : String}
    {type : ValueType} {members vs : List Value} {p : Progress} {ts : List NodeTree}
    {added : List Node} (hk : c.classOf type.shape ≠ .decomposable) (r : Request)
    (hr : r = ⟨c.classOf type.shape, stem, path ++ [name], ⟨name, type, members⟩⟩) (n : Node)
    (hn : n = r.node (p.placeLeaf c r.storage r.stem r.value).1)
    (h : StoredAll c stem path vs { (p.placeLeaf c r.storage r.stem r.value).2 with
      nodes := p.nodes ++ [n] } ts added) :
    StoredAll c stem path (⟨name, type, members⟩ :: vs) p
      (⟨p.nodes.length, n, []⟩ :: ts) (n :: added) := by
  subst hr hn
  refine ⟨?_, ?_, ?_, ?_, ?_⟩
  · rw [storeAll_cons_leaf hk, requestsAll_cons_leaf hk]
    have hres := h.result
    simp only [Request.node] at hres
    simp only [hres, Except.map, Progress.placeAll, Progress.placeAll_nodes, Request.node,
      List.append_assoc, List.singleton_append, List.map_cons]
  · have hro := h.rooted
    rw [List.append_assoc, List.singleton_append] at hro
    refine ⟨⟨?_, rfl, fun t ht => absurd ht List.not_mem_nil, trivial⟩, hro⟩
    simp
  · exact .leaf hk ⟨rfl, rfl, rfl, rfl⟩ rfl h.stands
  · rw [requestsAll_cons_leaf hk, NodeTree.leavesAll, NodeTree.leaves, h.leaves]
    simp only [Progress.placeAll, Progress.placeAll_nodes, List.zipWith_cons_cons,
      NodeTree.leavesAll, List.append_nil]
    rw [if_pos]
    · rfl
    · simpa [Node.isLeaf, Request.node] using hk
  · have hids := h.ids
    simp only [List.length_append, List.length_singleton] at hids
    rw [NodeTree.idsAll, NodeTree.ids, NodeTree.idsAll, List.singleton_append, List.length_cons,
      List.range'_succ]
    exact hids.cons _

theorem StoredAll.cons_composite {stem : String} {path : List String} {name : String}
    {type : ValueType} {members vs : List Value} {p : Progress} {ts us : List NodeTree}
    {inner added : List Node} (hk : c.classOf type.shape = .decomposable)
    (hm : members.isEmpty = false)
    (h : StoredAll c (c.memberStem path.isEmpty stem name) (path ++ [name]) members p ts inner)
    (n : Node) (hn : n = ⟨name, type, .decomposable, none, path ++ [name], ts.map NodeTree.id⟩)
    (h' : StoredAll c stem path vs { (p.placeAll c (requestsAll c
      (c.memberStem path.isEmpty stem name) (path ++ [name]) members)).2 with
        nodes := p.nodes ++ inner ++ [n] } us added) :
    StoredAll c stem path (⟨name, type, members⟩ :: vs) p
      (⟨p.nodes.length + inner.length, n, ts⟩ :: us) (inner ++ n :: added) := by
  subst hn
  have hnodes : ∀ (n : Node) (ns : List Node),
      p.nodes ++ (inner ++ n :: ns) = p.nodes ++ inner ++ [n] ++ ns := by simp
  refine ⟨?_, ?_, ?_, ?_, ?_⟩
  · rw [storeAll_cons_composite hk hm, requestsAll_cons_composite hk, h.result]
    simp only [Except.bind, h'.result, Except.map, Progress.placeAll_append,
      Progress.placeAll_nodes, hnodes, List.length_append, List.map_cons]
  · rw [hnodes]
    refine ⟨⟨?_, rfl, fun t ht => h.id_lt ht, ?_⟩, h'.rooted⟩
    · rw [← List.length_append]
      exact NodeTree.getElem?_append_of_some List.getElem?_concat_length
    · exact h.rooted.append.append
  · exact .composite hk ⟨rfl, rfl, hk.symm, rfl⟩ rfl h.stands h'.stands
  · rw [requestsAll_cons_composite hk, NodeTree.leavesAll, NodeTree.leaves, h.leaves, h'.leaves,
      Progress.placeAll_append]
    simp only [Progress.placeAll_nodes]
    rw [List.zipWith_append (Progress.length_placeAll ..).symm]
    rfl
  · have hids := h'.ids
    simp only [List.length_append, List.length_singleton] at hids
    rw [NodeTree.idsAll, NodeTree.ids, List.length_append, List.length_cons]
    -- the node of the composite lies between those of its members and those of the other values
    have hsplit : List.range' p.nodes.length (inner.length + (added.length + 1))
        = List.range' p.nodes.length inner.length
          ++ (p.nodes.length + inner.length)
            :: List.range' (p.nodes.length + inner.length + 1) added.length := by
      rw [← List.range'_succ, List.range'_append_1]
    rw [hsplit]
    exact ((h.ids.append hids).cons _).trans List.perm_middle.symm

theorem hollowAll?_cons_leaf {path : List String} {name : String} {type : ValueType}
    {members vs : List Value} {classOf : Shape → StorageClass}
    (hk : classOf type.shape ≠ .decomposable) :
    hollowAll? classOf path (⟨name, type, members⟩ :: vs) = hollowAll? classOf path vs := by
  rw [hollowAll?, hollow?, if_neg hk, Option.none_or]

theorem hollowAll?_cons_composite {path : List String} {name : String} {type : ValueType}
    {members vs : List Value} {classOf : Shape → StorageClass}
    (hk : classOf type.shape = .decomposable) :
    hollowAll? classOf path (⟨name, type, members⟩ :: vs)
      = (if members.isEmpty then some (path ++ [name], type.shape)
          else hollowAll? classOf (path ++ [name]) members).or (hollowAll? classOf path vs) := by
  rw [hollowAll?, hollow?, if_pos hk]

/-- **Values without a hollow part are stored**, whatever has been stored before. -/
theorem storeAll_of_solid (vs : List Value) : ∀ (stem : String) (path : List String)
    (p : Progress), hollowAll? c.classOf path vs = none →
    ∃ ts added, StoredAll c stem path vs p ts added := by
  induction vs using forest_induction with
  | nil =>
    intro stem path p _
    refine ⟨[], [], ?_, trivial, .nil, rfl, List.Perm.refl _⟩
    simp [storeAll, requestsAll, Progress.placeAll]
  | cons name type members vs ihm ih =>
    intro stem path p h
    by_cases hk : c.classOf type.shape = .decomposable
    · rw [hollowAll?_cons_composite hk] at h
      cases hm : members.isEmpty with
      | true => simp [hm] at h
      | false =>
        rw [hm, if_neg (by simp), Option.or_eq_none_iff] at h
        obtain ⟨ts, inner, hts⟩ := ihm (c.memberStem path.isEmpty stem name) _ p h.1
        obtain ⟨us, added, hus⟩ := ih stem path _ h.2
        exact ⟨_, _, hts.cons_composite hk hm _ rfl hus⟩
    · rw [hollowAll?_cons_leaf hk] at h
      obtain ⟨ts, added, hts⟩ := ih stem path _ h
      exact ⟨_, _, hts.cons_leaf hk _ rfl _ rfl⟩

/-- **Storing stops at the first hollow part** and names it. -/
theorem storeAll_of_hollow (vs : List Value) {q : List String} {s : Shape} :
    ∀ (stem : String) (path : List String) (p : Progress),
    hollowAll? c.classOf path vs = some (q, s) →
    storeAll c stem path vs p
      = .error (.invalidShape c.caseName (Text.dotted q) s .noMembers) := by
  induction vs using forest_induction with
  | nil =>
    intro stem path p h
    exact absurd h (by simp [hollowAll?])
  | cons name type members vs ihm ih =>
    intro stem path p h
    by_cases hk : c.classOf type.shape = .decomposable
    · rw [hollowAll?_cons_composite hk] at h
      cases members with
      | nil =>
        simp only [List.isEmpty_nil, if_true, Option.some_or, Option.some.injEq,
          Prod.mk.injEq] at h
        rw [storeAll_cons_hollow hk, h.1, h.2]
      | cons v members =>
        rw [storeAll_cons_composite hk rfl]
        -- the members come first, and are stored in full before the other values are looked at
        cases hin : hollowAll? c.classOf (path ++ [name]) (v :: members) with
        | some r =>
          simp only [List.isEmpty_cons, Bool.false_eq_true, if_false, hin, Option.some_or,
            Option.some.injEq] at h
          rw [ihm _ _ _ (hin.trans (congrArg some h))]
          rfl
        | none =>
          simp only [List.isEmpty_cons, Bool.false_eq_true, if_false, hin, Option.none_or] at h
          obtain ⟨ts, inner, hts⟩ :=
            storeAll_of_solid _ (c.memberStem path.isEmpty stem name) _ p hin
          rw [hts.result]
          simp only [Except.bind, ih _ _ _ h]
          rfl
    · rw [hollowAll?_cons_leaf hk] at h
      rw [storeAll_cons_leaf hk, ih _ _ _ h]
      rfl

end Value

end SumLayout
