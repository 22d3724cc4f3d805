import SumLayout.Layout.Walk

/-!
# Trees in an arena

`NodeTree.Rooted` says that a tree is complete: at each of its positions the arena holds the node,
and the members of the node are the trees below it, none left out and all at smaller positions. On
the positions of such trees the walks of a layout do what their names say:

* `forest` gives back the trees (`forest_of_rooted`);
* `preorder`, which works with a stack, is the recursive order of the trees (`preorder_of_rooted`);
* `leafNodes` lists their leaves (`leafNodes_of_rooted`).

A complete tree stays complete when nodes are added at the end of the arena (`Rooted.append`), which
is all that allocation ever does to it.
-/

namespace SumLayout

namespace NodeTree

mutual

/-- The arena holds exactly this tree, with every member below its parent. -/
def Rooted (nodes : List Node) : NodeTree → Prop
  | ⟨id, n, members⟩ =>
    nodes[id]? = some n ∧ n.members = members.map NodeTree.id ∧ (∀ t ∈ members, t.id < id) ∧
      RootedAll nodes members

/-- The arena holds exactly these trees. -/
def RootedAll (nodes : List Node) : List NodeTree → Prop
  | [] => True
  | t :: ts => t.Rooted nodes ∧ RootedAll nodes ts

end

mutual

/-- The leaves of a tree, in order of declaration. -/
def leaves : NodeTree → List Node
  | ⟨_, n, members⟩ => (if n.isLeaf then [n] else []) ++ leavesAll members

/-- The leaves of some trees, tree after tree. -/
def leavesAll : List NodeTree → List Node
  | [] => []
  | t :: ts => t.leaves ++ leavesAll ts

end

theorem id_mem_idsAll {t : NodeTree} {ts : List NodeTree} (h : t ∈ ts) : t.id ∈ idsAll ts := by
  induction h with
  | head ts =>
    obtain ⟨id, n, members⟩ := t
    rw [idsAll, ids]
    exact List.mem_cons_self
  | tail u _ ih =>
    rw [idsAll]
    exact List.mem_append_right _ ih

variable {nodes more : List Node}

/-! ## Growing the arena -/

theorem getElem?_append_of_some {α : Type} {xs ys : List α} {i : Nat} {x : α}
    (h : xs[i]? = some x) : (xs ++ ys)[i]? = some x := by
  rw [List.getElem?_append_left (List.getElem?_eq_some_iff.mp h).1, h]

mutual

theorem Rooted.append : ∀ {t : NodeTree}, t.Rooted nodes → t.Rooted (nodes ++ more)
  | ⟨_, _, _⟩, ⟨hn, hm, hlt, hts⟩ =>
    ⟨getElem?_append_of_some hn, hm, hlt, RootedAll.append hts⟩

theorem RootedAll.append : ∀ {ts : List NodeTree}, RootedAll nodes ts →
    RootedAll (nodes ++ more) ts
  | [], _ => trivial
  | _ :: _, ⟨ht, hts⟩ => ⟨ht.append, RootedAll.append hts⟩

end

/-! ## Unfolding positions into trees -/

mutual

theorem Rooted.tree? : ∀ {t : NodeTree}, t.Rooted nodes → Layout.tree? nodes t.id = some t
  | ⟨id, n, members⟩, ⟨hn, hm, hlt, hts⟩ => by
    rw [Layout.tree?, hn]
    simp only [hm, RootedAll.filterMap_tree? hts hlt]

theorem RootedAll.filterMap_tree? : ∀ {ts : List NodeTree} {bound : NodeId},
    RootedAll nodes ts → (∀ t ∈ ts, t.id < bound) →
    (ts.map NodeTree.id).filterMap
      (fun m => if m < bound then Layout.tree? nodes m else none) = ts
  | [], _, _, _ => rfl
  | t :: ts, bound, ⟨ht, hts⟩, hlt => by
    have hrest : ∀ u ∈ ts, u.id < bound := fun u hu => hlt u (List.mem_cons_of_mem _ hu)
    rw [List.map_cons, List.filterMap_cons, if_pos (hlt t List.mem_cons_self), ht.tree?,
      RootedAll.filterMap_tree? hts hrest]

end

/-! ## The walk with a stack -/

theorem Rooted.below {t : NodeTree} (h : t.Rooted nodes) :
    Layout.below nodes t.id = t.members.map NodeTree.id := by
  obtain ⟨id, n, members⟩ := t
  obtain ⟨hn, hm, hlt, -⟩ := h
  simp only [Layout.below, hn, Option.map_some, Option.getD_some, hm, List.filter_eq_self,
    List.mem_map, forall_exists_index, and_imp, forall_apply_eq_imp_iff₂, decide_eq_true_eq]
  exact hlt

mutual

theorem Rooted.preorderFrom : ∀ {t : NodeTree}, t.Rooted nodes → ∀ stack : List NodeId,
    Layout.preorderFrom nodes (t.id :: stack) = t.ids ++ Layout.preorderFrom nodes stack
  | ⟨id, n, members⟩, h, stack => by
    rw [Layout.preorderFrom, h.below, RootedAll.preorderFrom h.2.2.2, ids, List.cons_append]

theorem RootedAll.preorderFrom : ∀ {ts : List NodeTree}, RootedAll nodes ts →
    ∀ stack : List NodeId, Layout.preorderFrom nodes (ts.map NodeTree.id ++ stack)
      = idsAll ts ++ Layout.preorderFrom nodes stack
  | [], _, _ => rfl
  | _ :: _, ⟨ht, hts⟩, stack => by
    rw [List.map_cons, List.cons_append, ht.preorderFrom, RootedAll.preorderFrom hts, idsAll,
      List.append_assoc]

end

/-! ## Leaves -/

mutual

theorem Rooted.leaves_eq : ∀ {t : NodeTree}, t.Rooted nodes →
    (t.ids.filterMap (nodes[·]?)).filter Node.isLeaf = t.leaves
  | ⟨id, n, members⟩, ⟨hn, _, _, hts⟩ => by
    rw [ids, leaves, List.filterMap_cons, hn, List.filter_cons, RootedAll.leavesAll_eq hts]
    split <;> rfl

theorem RootedAll.leavesAll_eq : ∀ {ts : List NodeTree}, RootedAll nodes ts →
    ((idsAll ts).filterMap (nodes[·]?)).filter Node.isLeaf = leavesAll ts
  | [], _ => rfl
  | _ :: _, ⟨ht, hts⟩ => by
    rw [idsAll, leavesAll, List.filterMap_append, List.filter_append, ht.leaves_eq,
      RootedAll.leavesAll_eq hts]

end

end NodeTree

namespace Layout

open NodeTree

variable {l : Layout} {ts : List NodeTree}

/-- **The forest below the positions of complete trees is the trees.** -/
theorem forest_of_rooted (h : RootedAll l.nodes ts) : l.forest (ts.map NodeTree.id) = ts := by
  rw [forest]
  induction ts with
  | nil => rfl
  | cons t ts ih => rw [List.map_cons, List.filterMap_cons, h.1.tree?, ih h.2]

/-- **The walk with a stack is the recursive walk.** -/
theorem preorder_of_rooted (h : RootedAll l.nodes ts) :
    l.preorder (ts.map NodeTree.id) = idsAll ts := by
  have hw := h.preorderFrom []
  rwa [List.append_nil, Layout.preorderFrom, List.append_nil] at hw

theorem filterMap_filter_isLeafAt (ids : List NodeId) :
    (ids.filter l.isLeafAt).filterMap (l.nodes[·]?)
      = (ids.filterMap (l.nodes[·]?)).filter Node.isLeaf := by
  induction ids with
  | nil => rfl
  | cons id ids ih =>
    rw [List.filter_cons, List.filterMap_cons]
    cases hn : l.nodes[id]? with
    | none => simpa [isLeafAt, hn] using ih
    | some n =>
      cases hleaf : n.isLeaf with
      | true => simpa [isLeafAt, hn, hleaf] using ih
      | false => simpa [isLeafAt, hn, hleaf] using ih

theorem leafNodes_of_rooted (h : RootedAll l.nodes ts) :
    l.leafNodes (ts.map NodeTree.id) = leavesAll ts := by
  rw [leafNodes, Layout.leaves, preorder_of_rooted h, filterMap_filter_isLeafAt, h.leavesAll_eq]

end Layout

end SumLayout
