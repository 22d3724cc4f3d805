import SumLayout.Proofs.JoinedNames
import SumLayout.Proofs.RoundTrip

/-!
# The paths of the leaves of a case

The path of a leaf starts with the name of a parameter and goes on with names of members
(`exists_path_eq`, `mem_path`). So **the leaves of a case have different paths** if sibling values
have different names (`nodup_path`).

The paths follow from the declaration (`Value.leafPaths`). The requests that a case makes have these
paths (`map_path_requestsAll`), and so have the nodes that its values become (`StandsAll.map_path`).
-/

namespace SumLayout

namespace Value

mutual

/-- The names of a value and of everything that it is made of satisfy a condition. -/
def Named (ok : String → Prop) : Value → Prop
  | ⟨name, _, members⟩ => ok name ∧ NamedAll ok members

/-- The names of some values, and of everything that they are made of, satisfy a condition. -/
def NamedAll (ok : String → Prop) : List Value → Prop
  | [] => True
  | v :: vs => v.Named ok ∧ NamedAll ok vs

end

mutual

/-- The paths of the leaves that a value is stored as, in order of declaration. -/
def leafPaths (classOf : Shape → StorageClass) (path : List String) : Value → List (List String)
  | ⟨name, type, members⟩ =>
    if classOf type.shape = .decomposable then leafPathsAll classOf (path ++ [name]) members
    else [path ++ [name]]

/-- The paths of the leaves that some values are stored as, one value after another. -/
def leafPathsAll (classOf : Shape → StorageClass) (path : List String) :
    List Value → List (List String)
  | [] => []
  | v :: vs => v.leafPaths classOf path ++ leafPathsAll classOf path vs

end

variable {c : CaseScope} {stem : String} {path : List String} {r : Request}

/-- The path of a leaf goes through one of the values. -/
theorem exists_path_eq (vs : List Value) : ∀ (stem : String) (path : List String),
    r ∈ requestsAll c stem path vs → ∃ v ∈ vs, ∃ rest, r.path = path ++ v.name :: rest := by
  induction vs using forest_induction with
  | nil => exact fun _ _ hr => absurd hr List.not_mem_nil
  | cons name type members vs ihm ih =>
    intro stem path hr
    by_cases hk : c.classOf type.shape = .decomposable
    · rw [requestsAll_cons_composite hk, List.mem_append] at hr
      rcases hr with hr | hr
      · obtain ⟨w, -, rest, he⟩ := ihm _ _ hr
        exact ⟨_, List.mem_cons_self, w.name :: rest, by rw [he, List.append_assoc]; rfl⟩
      · obtain ⟨w, hw, rest, he⟩ := ih _ _ hr
        exact ⟨w, List.mem_cons_of_mem _ hw, rest, he⟩
    · rw [requestsAll_cons_leaf hk, List.mem_cons] at hr
      rcases hr with rfl | hr
      · exact ⟨_, List.mem_cons_self, [], rfl⟩
      · obtain ⟨w, hw, rest, he⟩ := ih _ _ hr
        exact ⟨w, List.mem_cons_of_mem _ hw, rest, he⟩

/-- The path of a leaf consists of names of values. -/
theorem mem_path {ok : String → Prop} {a : String} (vs : List Value) :
    ∀ (stem : String) (path : List String), NamedAll ok vs → r ∈ requestsAll c stem path vs →
    a ∈ r.path → a ∈ path ∨ ok a := by
  induction vs using forest_induction with
  | nil => exact fun _ _ _ hr => absurd hr List.not_mem_nil
  | cons name type members vs ihm ih =>
    rintro stem path ⟨⟨hname, hmembers⟩, hvs⟩ hr ha
    have hone : ∀ {b}, b ∈ path ++ [name] → b ∈ path ∨ ok b := by
      intro b hb
      rw [List.mem_append, List.mem_singleton] at hb
      rcases hb with hb | rfl
      · exact Or.inl hb
      · exact Or.inr hname
    by_cases hk : c.classOf type.shape = .decomposable
    · rw [requestsAll_cons_composite hk, List.mem_append] at hr
      rcases hr with hr | hr
      · exact (ihm _ _ hmembers hr ha).elim hone Or.inr
      · exact ih _ _ hvs hr ha
    · rw [requestsAll_cons_leaf hk, List.mem_cons] at hr
      rcases hr with rfl | hr
      · exact hone ha
      · exact ih _ _ hvs hr ha

/-- **Leaves have different paths if sibling values have different names.** -/
theorem nodup_path (vs : List Value) : ∀ (stem : String) (path : List String),
    DistinctAll vs → ((requestsAll c stem path vs).map (·.path)).Nodup := by
  induction vs using forest_induction with
  | nil => exact fun _ _ _ => List.nodup_nil
  | cons name type members vs ihm ih =>
    rintro stem path ⟨hne, hmembers, hvs⟩
    -- the paths through the first value differ from the others right after `path`
    have hother : ∀ r ∈ requestsAll c stem path vs, ∀ rest, r.path ≠ path ++ name :: rest := by
      intro r hr rest he
      obtain ⟨w, hw, rest', he'⟩ := exists_path_eq vs stem path hr
      rw [he, List.append_cancel_left_eq, List.cons.injEq] at he'
      exact hne w hw he'.1.symm
    by_cases hk : c.classOf type.shape = .decomposable
    · rw [requestsAll_cons_composite hk, List.map_append, List.nodup_append]
      refine ⟨ihm _ _ hmembers, ih stem path hvs, ?_⟩
      intro p hp q hq he
      obtain ⟨r, hr, rfl⟩ := List.mem_map.mp hp
      obtain ⟨r', hr', rfl⟩ := List.mem_map.mp hq
      obtain ⟨w, -, rest, hpath⟩ := exists_path_eq members _ _ hr
      rw [List.append_assoc] at hpath
      exact hother r' hr' _ (he.symm.trans hpath)
    · rw [requestsAll_cons_leaf hk, List.map_cons, List.nodup_cons]
      refine ⟨fun hmem => ?_, ih stem path hvs⟩
      obtain ⟨r', hr', he⟩ := List.mem_map.mp hmem
      exact hother r' hr' [] he

/-- The paths of the requests of some values are those of their leaves. -/
theorem map_path_requestsAll (c : CaseScope) (vs : List Value) :
    ∀ (stem : String) (path : List String),
      (requestsAll c stem path vs).map (·.path) = leafPathsAll c.classOf path vs := by
  induction vs using forest_induction with
  | nil => exact fun _ _ => rfl
  | cons name type members vs ihm ih =>
    intro stem path
    rw [leafPathsAll, leafPaths]
    by_cases hk : c.classOf type.shape = .decomposable
    · rw [requestsAll_cons_composite hk, if_pos hk, List.map_append, ihm, ih]
    · rw [requestsAll_cons_leaf hk, if_neg hk, List.map_cons, ih]
      rfl

/-- The leaves of trees that stand for some values have the paths of the leaves of the values. -/
theorem StandsAll.map_path {classOf : Shape → StorageClass} {vs : List Value}
    {ts : List NodeTree} (h : StandsAll classOf path vs ts) :
    (NodeTree.leavesAll ts).map (·.path) = leafPathsAll classOf path vs := by
  induction h with
  | nil => rfl
  | leaf whole node _ _ ih =>
    have hleaf : Node.isLeaf _ = true := bne_iff_ne.mpr (node.storage ▸ whole)
    rw [leafPathsAll, leafPaths, if_neg whole, NodeTree.leavesAll, NodeTree.leaves, if_pos hleaf,
      List.map_append, ih, ← node.path]
    rfl
  | composite parts node _ _ _ ihm ih =>
    have hinner : Node.isLeaf _ = false := bne_eq_false_iff_eq.mpr (node.storage.trans parts)
    rw [leafPathsAll, leafPaths, if_pos parts, NodeTree.leavesAll, NodeTree.leaves, hinner,
      if_neg Bool.false_ne_true, List.nil_append, List.map_append, ihm, ih]

end Value

namespace Layout

variable {classOf : Shape → StorageClass} {l : Layout} {c : Case} {cl : CaseLayout}
  {ts : List NodeTree}

/-- The leaves of a case have the paths of the case's requests. -/
theorem Holds.map_path (h : Holds classOf l c cl ts) :
    (NodeTree.leavesAll ts).map (·.path) = (c.requests classOf).map (·.path) :=
  h.stands.map_path.trans (Value.map_path_requestsAll (c.scope classOf) c.values "" []).symm

theorem Holds.exists_request (h : Holds classOf l c cl ts) {n : Node}
    (hn : n ∈ NodeTree.leavesAll ts) : ∃ r ∈ c.requests classOf, r.path = n.path :=
  List.mem_map.mp (h.map_path ▸ List.mem_map_of_mem hn)

theorem Holds.nodup_leafFields (h : Holds classOf l c cl ts) : cl.leafFields.Nodup := by
  refine List.Nodup.of_map some ?_
  rw [← h.overlapLeaves]
  exact h.nodup.sublist (List.filter_sublist.map _)

/-- **Different leaves of a case have different dotted paths**, if sibling values have different
names and no name contains a dot. -/
theorem Holds.dotted_inj (h : Holds classOf l c cl ts) (hd : Value.DistinctAll c.values)
    (hdot : Value.NamedAll (fun name => '.' ∉ name.toList) c.values) {n m : Node}
    (hn : n ∈ NodeTree.leavesAll ts) (hm : m ∈ NodeTree.leavesAll ts)
    (he : Text.dotted n.path = Text.dotted m.path) : n = m := by
  have hnodup : ((NodeTree.leavesAll ts).map (·.path)).Nodup :=
    h.map_path ▸ Value.nodup_path c.values "" [] hd
  have hnames : ∀ {n : Node}, n ∈ NodeTree.leavesAll ts →
      n.path ≠ [] ∧ ∀ a ∈ n.path, '.' ∉ a.toList := by
    intro n hn
    obtain ⟨r, hr, hpath⟩ := h.exists_request hn
    obtain ⟨v, -, rest, hne⟩ := Value.exists_path_eq c.values "" [] hr
    rw [← hpath]
    exact ⟨by simp [hne], fun a ha =>
      (Value.mem_path c.values "" [] hdot hr ha).resolve_left List.not_mem_nil⟩
  refine List.inj_on_of_nodup_map hnodup hn hm ?_
  exact Text.dotted_inj (hnames hn).1 (hnames hm).1 (hnames hn).2 (hnames hm).2 he

end Layout

end SumLayout
