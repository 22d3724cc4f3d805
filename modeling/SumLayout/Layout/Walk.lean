import SumLayout.Layout

/-!
# Walking an arena of nodes

There are two ways to look at the nodes below a list of roots. `preorder` lists their positions
with a stack: it takes a position off, writes it down and puts the members on top. `forest` unfolds
them into trees, and every other walk of the library is a plain recursion on those trees.

## Why the stack runs empty

A position weighs one more than its members together (`weight`), which is well founded because a
member is followed only if its position is smaller. Taking a position off and putting its members on
makes the stack lighter by one.
-/

namespace SumLayout

namespace Layout

/-- The members of a node that lie below it. -/
def below (nodes : List Node) (id : NodeId) : List NodeId :=
  ((nodes[id]?).map Node.members).getD [] |>.filter (· < id)

/-- The number of steps that the walk below a position takes. -/
def weight (nodes : List Node) (id : NodeId) : Nat :=
  1 + (below nodes id).attach.foldr (fun m n => weight nodes m.1 + n) 0
termination_by id
decreasing_by
  have h := m.2
  simp only [below, List.mem_filter, decide_eq_true_eq] at h
  exact h.2

/-- The weight of some positions together. -/
def totalWeight (nodes : List Node) (ids : List NodeId) : Nat :=
  ids.foldr (fun m n => weight nodes m + n) 0

/-- A position weighs one more than its members. -/
theorem weight_eq (nodes : List Node) (id : NodeId) :
    weight nodes id = 1 + totalWeight nodes (below nodes id) := by
  rw [weight, totalWeight, List.foldr_attach (f := fun m n => weight nodes m + n)]

theorem totalWeight_append (nodes : List Node) (a b : List NodeId) :
    totalWeight nodes (a ++ b) = totalWeight nodes a + totalWeight nodes b := by
  induction a with
  | nil => simp [totalWeight]
  | cons id a ih =>
    simp only [totalWeight, List.cons_append, List.foldr_cons] at ih ⊢
    omega

/-- The stack of positions that are still to be visited, the next one first. -/
def preorderFrom (nodes : List Node) : List NodeId → List NodeId
  | [] => []
  | id :: stack => id :: preorderFrom nodes (below nodes id ++ stack)
termination_by stack => totalWeight nodes stack
decreasing_by
  have h : totalWeight nodes (id :: stack) = weight nodes id + totalWeight nodes stack := rfl
  rw [totalWeight_append, h, weight_eq nodes id]
  omega

/-- The positions below `roots`, a node before its members, in order of declaration. -/
def preorder (l : Layout) (roots : List NodeId) : List NodeId := preorderFrom l.nodes roots

/-- Whether the node at a position is stored as a whole. -/
def isLeafAt (l : Layout) (id : NodeId) : Bool := (l.nodes[id]?).any Node.isLeaf

/-- The positions of the leaves below `roots`, in order of declaration. -/
def leaves (l : Layout) (roots : List NodeId) : List NodeId :=
  (l.preorder roots).filter l.isLeafAt

/-- The leaves below `roots`, in order of declaration. -/
def leafNodes (l : Layout) (roots : List NodeId) : List Node :=
  (l.leaves roots).filterMap (l.nodes[·]?)

end Layout

/-- A node with its members unfolded. -/
structure NodeTree where
  id : NodeId
  node : Node
  members : List NodeTree

namespace Layout

/-- The tree below a position. -/
def tree? (nodes : List Node) (id : NodeId) : Option NodeTree :=
  match nodes[id]? with
  | none => none
  | some n => some ⟨id, n, n.members.filterMap fun m => if m < id then tree? nodes m else none⟩
termination_by id

/-- The trees below `roots`, in order. -/
def forest (l : Layout) (roots : List NodeId) : List NodeTree :=
  roots.filterMap (tree? l.nodes)

end Layout

namespace NodeTree

mutual

/-- The positions in a tree, a node before its members. -/
def ids : NodeTree → List NodeId
  | ⟨id, _, members⟩ => id :: idsAll members

/-- The positions in some trees, tree after tree. -/
def idsAll : List NodeTree → List NodeId
  | [] => []
  | t :: ts => t.ids ++ idsAll ts

end

end NodeTree

end SumLayout
