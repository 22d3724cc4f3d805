import SumLayout.Proofs.WellFormed

/-!
# The arena as a forest

The nodes of a layout refer to each other by position, and nothing in their type keeps a position
from being referred to twice, or a node from referring back to itself. In a layout that allocation
gives each position is referred to **exactly once**, by a case or by a node at a larger position
(`Layout.IsForest`).

This is what the walk with a stack rests on. `Layout.Walk` is that walk as a plain loop: it follows
every member, smaller or not, and does not know where it has been. `Preordered` is the order that it
is meant to give, a node and then what is below its members. Wherever this recursion comes to an
end, **the loop does so too**, after one turn for each position (`Preordered.turns`), and it has
visited what `preorder` lists.

What the forest consists of is told by `Mirrors`: nodes at some positions have the structure of some
values, and their paths are the names of the values that they are in.
-/

namespace SumLayout

namespace Layout

variable {nodes : List Node} {ids seq seq' : List NodeId}

/-! ## The recursive order -/

/-- `seq` has the positions below `ids`: each of these, then what is below its members, one after
another. -/
inductive Preordered (nodes : List Node) : List NodeId → List NodeId → Prop
  | nil : Preordered nodes [] []
  | cons {id : NodeId} {n : Node} {ids below after : List NodeId} (node : nodes[id]? = some n)
    (inner : Preordered nodes n.members below) (rest : Preordered nodes ids after) :
    Preordered nodes (id :: ids) (id :: (below ++ after))

/-- There is at most one such order. -/
theorem Preordered.unique (h : Preordered nodes ids seq) (h' : Preordered nodes ids seq') :
    seq = seq' := by
  induction h generalizing seq' with
  | nil =>
    cases h'
    rfl
  | cons node _ _ ihm ih =>
    cases h' with
    | cons node' inner' rest' =>
      obtain rfl := Option.some.inj (node.symm.trans node')
      rw [ihm inner', ih rest']

/-- The members of the node at a position. -/
def membersAt (nodes : List Node) (id : NodeId) : List NodeId :=
  ((nodes[id]?).map Node.members).getD []

theorem flatMap_membersAt (nodes : List Node) :
    (List.range nodes.length).flatMap (membersAt nodes) = nodes.flatMap Node.members := by
  have hmap : (List.range nodes.length).map (nodes[·]?) = nodes.map some := by
    refine List.ext_getElem (by simp) fun i h1 h2 => ?_
    simp
  calc (List.range nodes.length).flatMap (membersAt nodes)
      = ((List.range nodes.length).map (nodes[·]?)).flatMap
          fun o => (o.map Node.members).getD [] := by rw [List.flatMap_map]; rfl
    _ = nodes.flatMap Node.members := by rw [hmap, List.flatMap_map]; rfl

/-- What is below some positions are these positions and the members of what is below them. -/
theorem Preordered.perm (h : Preordered nodes ids seq) :
    seq.Perm (ids ++ seq.flatMap (membersAt nodes)) := by
  induction h with
  | nil => exact List.Perm.refl _
  | @cons id n ids below after node _ _ ihm ih =>
    have hid : membersAt nodes id = n.members := by rw [membersAt, node]; rfl
    rw [List.flatMap_cons, hid, List.flatMap_append, List.cons_append]
    refine List.Perm.cons id ((ihm.append ih).trans ?_)
    -- what comes from the first position and the other positions trade places
    have hswap := List.perm_append_comm_assoc (n.members ++ below.flatMap (membersAt nodes)) ids
      (after.flatMap (membersAt nodes))
    simpa only [List.append_assoc] using hswap

/-- The same for the positions that several cases start from. -/
theorem perm_flatMap_preorder {cls : List CaseLayout} {order : CaseLayout → List NodeId}
    (h : ∀ cl ∈ cls, Preordered nodes cl.roots (order cl)) :
    (cls.flatMap order).Perm
      (cls.flatMap CaseLayout.roots ++ (cls.flatMap order).flatMap (membersAt nodes)) := by
  induction cls with
  | nil => exact List.Perm.refl _
  | cons cl cls ih =>
    obtain ⟨hcl, hcls⟩ := List.forall_mem_cons.mp h
    rw [List.flatMap_cons, List.flatMap_cons, List.flatMap_append]
    refine (hcl.perm.append (ih hcls)).trans ?_
    rw [List.append_assoc, List.append_assoc]
    exact (List.perm_append_comm_assoc _ _ _).append_left _

/-! ## The loop -/

/-- A walk under way. -/
structure Walk where
  /-- The positions that have been visited, in order. -/
  visited : List NodeId := []
  /-- The positions that are still to be visited, the next one last. -/
  stack : List NodeId
  deriving DecidableEq, Repr

namespace Walk

/-- One turn of the loop: take the last position off the stack, write it down, and put the members
of its node on, the first one last. There is no turn once the stack is empty. -/
def turn (nodes : List Node) (w : Walk) : Option Walk :=
  match w.stack.getLast? with
  | none => none
  | some id => (nodes[id]?).map fun n =>
    ⟨w.visited ++ [id], w.stack.dropLast ++ n.members.reverse⟩

/-- Some turns of the loop. -/
def turns (nodes : List Node) : Nat → Walk → Option Walk
  | 0, w => some w
  | k + 1, w => (w.turn nodes).bind (turns nodes k)

theorem turn_concat {id : NodeId} {n : Node} (h : nodes[id]? = some n)
    (visited stack : List NodeId) :
    turn nodes ⟨visited, stack ++ [id]⟩
      = some ⟨visited ++ [id], stack ++ n.members.reverse⟩ := by
  simp [turn, h]

end Walk

/-- **The loop comes to an end where the recursion does.** It takes as many turns as there are
positions below those on top of the stack, and leaves the rest of the stack as it is. -/
theorem Preordered.turns (h : Preordered nodes ids seq) (k : Nat) :
    ∀ visited stack : List NodeId,
      Walk.turns nodes (seq.length + k) ⟨visited, stack ++ ids.reverse⟩
        = Walk.turns nodes k ⟨visited ++ seq, stack⟩ := by
  induction h generalizing k with
  | nil =>
    intro visited stack
    rw [List.length_nil, Nat.zero_add, List.reverse_nil, List.append_nil, List.append_nil]
  | @cons id n ids below after node _ _ ihm ih =>
    intro visited stack
    -- the members come on top of the other positions
    have hlen : (id :: (below ++ after)).length + k = below.length + (after.length + k) + 1 := by
      rw [List.length_cons, List.length_append]
      omega
    rw [hlen, List.reverse_cons, ← List.append_assoc, Walk.turns, Walk.turn_concat node]
    show Walk.turns nodes (below.length + (after.length + k))
      ⟨visited ++ [id], stack ++ ids.reverse ++ n.members.reverse⟩ = _
    rw [ihm, ih, List.append_assoc, List.append_assoc]
    rfl

end Layout

/-! ## Nodes and values -/

namespace Value

/-- A value is among some values or inside one of them, with the names from the outermost value down
to it. -/
inductive Within : List Value → List String → Value → Prop
  | outermost {vs : List Value} {v : Value} (mem : v ∈ vs) : Within vs [v.name] v
  | inside {vs : List Value} {v w : Value} {path : List String} (mem : v ∈ vs)
    (rest : Within v.members path w) : Within vs (v.name :: path) w

theorem Within.cons {v w : Value} {vs : List Value} {path : List String} (h : Within vs path w) :
    Within (v :: vs) path w := by
  cases h with
  | outermost mem => exact .outermost (List.mem_cons_of_mem _ mem)
  | inside mem rest => exact .inside (List.mem_cons_of_mem _ mem) rest

/-- The nodes at some positions have the structure of some values that lie under the values in
`path`: there is one position for each value, a node that is taken apart has one member for each
member of its value, and other nodes have none. -/
inductive Mirrors (classOf : Shape → StorageClass) (nodes : List Node) :
    List String → List Value → List NodeId → Prop
  | nil {path : List String} : Mirrors classOf nodes path [] []
  | leaf {path : List String} {v : Value} {vs : List Value} {id : NodeId} {n : Node}
    {ids : List NodeId} (whole : classOf v.type.shape ≠ .decomposable)
    (found : nodes[id]? = some n) (node : StandsFor classOf path v.name v.type n)
    (members : n.members = []) (rest : Mirrors classOf nodes path vs ids) :
    Mirrors classOf nodes path (v :: vs) (id :: ids)
  | composite {path : List String} {v : Value} {vs : List Value} {id : NodeId} {n : Node}
    {ids : List NodeId} (parts : classOf v.type.shape = .decomposable)
    (found : nodes[id]? = some n) (node : StandsFor classOf path v.name v.type n)
    (inner : Mirrors classOf nodes (path ++ [v.name]) v.members n.members)
    (rest : Mirrors classOf nodes path vs ids) :
    Mirrors classOf nodes path (v :: vs) (id :: ids)

/-- A node represents a value that some values are made of. -/
structure Represents (classOf : Shape → StorageClass) (nodes : List Node) (n : Node) (v : Value) :
    Prop where
  name : n.name = v.name
  type : n.type = v.type
  storage : n.storage = classOf v.type.shape
  /-- A node that is taken apart has one member for each member of the value, in order. -/
  members : n.storage = .decomposable → Mirrors classOf nodes n.path v.members n.members
  leaf : n.storage ≠ .decomposable → n.members = []

section Mirrors

variable {classOf : Shape → StorageClass} {nodes : List Node} {path : List String}
  {vs : List Value} {ids seq : List NodeId} {id : NodeId}

/-- **Each node below some positions represents a value**, and its path has the names of the values
that this one is in. -/
theorem Mirrors.exists_value (h : Mirrors classOf nodes path vs ids)
    (hseq : Layout.Preordered nodes ids seq) (hid : id ∈ seq) :
    ∃ n v inner, nodes[id]? = some n ∧ n.path = path ++ inner ∧ Within vs inner v ∧
      Represents classOf nodes n v := by
  induction h generalizing seq with
  | nil =>
    cases hseq
    exact absurd hid List.not_mem_nil
  | @leaf path v vs root n ids whole found node members _ ih =>
    cases hseq with
    | cons found' inner rest =>
      obtain rfl := Option.some.inj (found.symm.trans found')
      rw [members] at inner
      cases inner
      rcases List.mem_cons.mp hid with rfl | hid
      · exact ⟨n, v, [v.name], found, node.path, .outermost List.mem_cons_self, node.name,
          node.type, node.storage, fun hk => absurd (node.storage.symm.trans hk) whole,
          fun _ => members⟩
      · obtain ⟨m, w, deep, hm, hpath, hw, hrep⟩ := ih rest hid
        exact ⟨m, w, deep, hm, hpath, hw.cons, hrep⟩
  | @composite path v vs root n ids parts found node mirrors _ ihm ih =>
    cases hseq with
    | cons found' inner rest =>
      obtain rfl := Option.some.inj (found.symm.trans found')
      rcases List.mem_cons.mp hid with rfl | hid
      · refine ⟨n, v, [v.name], found, node.path, .outermost List.mem_cons_self, node.name,
          node.type, node.storage, fun _ => ?_, fun hk => absurd (node.storage.trans parts) hk⟩
        rw [node.path]
        exact mirrors
      · rcases List.mem_append.mp hid with hid | hid
        · obtain ⟨m, w, deep, hm, hpath, hw, hrep⟩ := ihm inner hid
          refine ⟨m, w, v.name :: deep, hm, ?_, .inside List.mem_cons_self hw, hrep⟩
          rw [hpath, List.append_assoc]
          rfl
        · obtain ⟨m, w, deep, hm, hpath, hw, hrep⟩ := ih rest hid
          exact ⟨m, w, deep, hm, hpath, hw.cons, hrep⟩

end Mirrors

end Value

/-! ## From trees to positions -/

namespace NodeTree

variable {nodes : List Node}

/-- The positions of complete trees are in the recursive order. -/
theorem RootedAll.preordered : ∀ {ts : List NodeTree}, RootedAll nodes ts →
    Layout.Preordered nodes (ts.map NodeTree.id) (idsAll ts)
  | [], _ => .nil
  | ⟨id, n, members⟩ :: ts, ⟨⟨hn, hm, _, hmembers⟩, hts⟩ => by
    have hinner := RootedAll.preordered hmembers
    rw [← hm] at hinner
    rw [idsAll, ids, List.cons_append]
    exact .cons hn hinner (RootedAll.preordered hts)

/-- In complete trees members are at smaller positions. -/
theorem RootedAll.members_lt : ∀ {ts : List NodeTree}, RootedAll nodes ts →
    ∀ id ∈ idsAll ts, ∀ n, nodes[id]? = some n → ∀ m ∈ n.members, m < id
  | [], _ => fun _ hid => absurd hid List.not_mem_nil
  | ⟨root, n, members⟩ :: ts, ⟨⟨hn, hm, hlt, hmembers⟩, hts⟩ => by
    intro id hid k hk m hmem
    rw [idsAll, ids, List.cons_append] at hid
    rcases List.mem_cons.mp hid with rfl | hid
    · obtain rfl := Option.some.inj (hn.symm.trans hk)
      rw [hm] at hmem
      obtain ⟨t, ht, rfl⟩ := List.mem_map.mp hmem
      exact hlt t ht
    · rcases List.mem_append.mp hid with hid | hid
      · exact RootedAll.members_lt hmembers id hid k hk m hmem
      · exact RootedAll.members_lt hts id hid k hk m hmem

end NodeTree

/-- Where trees stand for some values, their positions mirror the values. -/
theorem Value.StandsAll.mirrors {classOf : Shape → StorageClass} {nodes : List Node}
    {path : List String} {vs : List Value} {ts : List NodeTree}
    (h : Value.StandsAll classOf path vs ts) (hr : NodeTree.RootedAll nodes ts) :
    Value.Mirrors classOf nodes path vs (ts.map NodeTree.id) := by
  induction h with
  | nil => exact .nil
  | leaf whole node _ _ ih =>
    obtain ⟨⟨hn, hm, -⟩, hts⟩ := hr
    exact .leaf whole hn node hm (ih hts)
  | composite parts node _ _ _ ihm ih =>
    obtain ⟨⟨hn, hm, -, hmembers⟩, hts⟩ := hr
    have hinner := ihm hmembers
    rw [← hm] at hinner
    exact .composite parts hn node hinner (ih hts)

namespace Layout

variable {classOf : Shape → StorageClass} {overlapped : Bool} {done : List Case} {l : Layout}
  {c : Case} {cl : CaseLayout} {ts : List NodeTree}

theorem Holds.preordered (h : Holds classOf l c cl ts) :
    Preordered l.nodes cl.roots (l.preorder cl.roots) := by
  rw [h.preorder, h.roots]
  exact h.rooted.preordered

theorem Holds.mirrors (h : Holds classOf l c cl ts) :
    Value.Mirrors classOf l.nodes [] c.values cl.roots := by
  rw [h.roots]
  exact h.stands.mirrors h.rooted

/-! ## The forest of a layout -/

/-- The nodes of a layout of some cases are a forest that mirrors the values of the cases. -/
structure IsForest (classOf : Shape → StorageClass) (cs : List Case) (l : Layout) : Prop where
  /-- Each position is a root of one case or a member of one node, and that once. -/
  once : (l.cases.flatMap CaseLayout.roots ++ l.nodes.flatMap Node.members).Perm
    (List.range l.nodes.length)
  members_lt : ∀ (id : NodeId) (n : Node), l.nodes[id]? = some n → ∀ m ∈ n.members, m < id
  /-- The listed order of the positions below a case is the recursive one. -/
  preordered : ∀ cl ∈ l.cases, ∀ seq, Preordered l.nodes cl.roots seq ↔ seq = l.preorder cl.roots
  /-- The walk from a case ends with these visited, in that order. -/
  walk : ∀ cl ∈ l.cases, Walk.turns l.nodes (l.preorder cl.roots).length
    { stack := cl.roots.reverse } = some ⟨l.preorder cl.roots, []⟩
  nodup : ∀ cl ∈ l.cases, (l.preorder cl.roots).Nodup
  /-- The walks from all cases together visit each position once. -/
  cover : (l.cases.flatMap fun cl => l.preorder cl.roots).Perm (List.range l.nodes.length)
  mirrors : List.Forall₂ (fun c cl => Value.Mirrors classOf l.nodes [] c.values cl.roots) cs l.cases
  /-- Each node represents a value of a case, and its path has the names from the parameter down to
  this value. -/
  values : ∀ (id : NodeId) (n : Node), l.nodes[id]? = some n →
    ∃ c ∈ cs, ∃ v, Value.Within c.values n.path v ∧ Value.Represents classOf l.nodes n v

/-- **A position is referred to once**, by a case or by a node. -/
theorem Built.referred_once (h : Built classOf overlapped done l) :
    (l.cases.flatMap CaseLayout.roots ++ l.nodes.flatMap Node.members).Perm
      (List.range l.nodes.length) := by
  have hall : ∀ cl ∈ l.cases, Preordered l.nodes cl.roots (l.preorder cl.roots) := by
    intro cl hcl
    obtain ⟨c, -, ts, hts⟩ := h.holds_of_mem hcl
    exact hts.preordered
  have hcases := perm_flatMap_preorder hall
  have hmembers := h.cover_nodes.flatMap_right (membersAt l.nodes)
  rw [flatMap_membersAt] at hmembers
  exact ((hmembers.append_left _).symm.trans hcases.symm).trans h.cover_nodes

theorem Built.isForest (h : Built classOf overlapped done l) : l.IsForest classOf done where
  once := h.referred_once
  members_lt id n hn m hm := by
    obtain ⟨c, -, cl, -, ts, hts, hid⟩ := h.exists_below hn
    rw [hts.preorder] at hid
    exact hts.rooted.members_lt id hid n hn m hm
  preordered cl hcl seq := by
    obtain ⟨c, -, ts, hts⟩ := h.holds_of_mem hcl
    constructor
    · intro hseq
      exact hseq.unique hts.preordered
    · rintro rfl
      exact hts.preordered
  walk cl hcl := by
    obtain ⟨c, -, ts, hts⟩ := h.holds_of_mem hcl
    exact hts.preordered.turns 0 [] []
  nodup cl hcl := by
    have hall := h.cover_nodes.nodup_iff.mpr List.nodup_range
    exact (List.nodup_flatMap.mp hall).1 cl hcl
  cover := h.cover_nodes
  mirrors := h.holds.imp fun _ _ ⟨_, hts⟩ => hts.mirrors
  values id n hn := by
    obtain ⟨c, hc, cl, -, ts, hts, hid⟩ := h.exists_below hn
    obtain ⟨m, v, inner, hm, hpath, hv, hrep⟩ := hts.mirrors.exists_value hts.preordered hid
    obtain rfl := Option.some.inj (hn.symm.trans hm)
    rw [List.nil_append] at hpath
    exact ⟨c, hc, v, hpath ▸ hv, hrep⟩

/-- **The arena of a layout that allocation gives is a forest that mirrors the values of the
cases.** Each position is referred to once, from above; the walk with a stack ends and visits what
the recursion visits, each position once; and each node represents a value. -/
theorem isForest_of_allocate {u : Union} {allowOverlap : Bool}
    (h : allocate u allowOverlap = .ok l) : l.IsForest (classes u allowOverlap) u.cases :=
  (built_of_allocate h).2.isForest

/-- The only nodes with members are those of composites that are taken apart. -/
theorem isForest_figures : ∃ l, allocate .figures true = .ok l ∧
    l.nodes.map Node.members = [[], [], [], [1, 2], [], [], [], []] ∧
    l.IsForest (classes .figures true) Union.figures.cases := by
  have hmap : (allocate .figures true).map (fun l => l.nodes.map Node.members)
      = .ok [[], [], [], [1, 2], [], [], [], []] := by decide +kernel
  obtain ⟨l, hl, hmembers⟩ := exists_layout_of_map hmap
  exact ⟨l, hl, hmembers, isForest_of_allocate hl⟩

end Layout

end SumLayout
