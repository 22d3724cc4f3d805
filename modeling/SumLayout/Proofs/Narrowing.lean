import SumLayout.Proofs.FieldTypes
import SumLayout.Proofs.Unambiguous

/-!
# Narrowing

A field may be wider than a leaf in it, and then the leaf is narrowed to its own type when it is
read. The reads of single fields in an expression are its **atoms**, and the atoms of the read of a
case are, one after another, how its leaves are read (`MapsAll.readsLeaves`): a leaf is narrowed
exactly if the field in the finished layout is of another type than the leaf, and nothing but leaves
is ever narrowed.

Together with the types of fields this tells what is narrowed from what is stored in one field
(`fieldTypes_of_allocate`), and for leaves that are shared by their type, that it takes references
of two types in the same slot (`sameType_of_allocate`). This can happen (`sameType_widened`).
-/

namespace SumLayout

/-- What lists have in common position by position. -/
theorem exists_of_forall₂ {α β : Type} {R : α → β → Prop} {xs : List α} {ys : List β}
    (h : List.Forall₂ R xs ys) {k : Nat} {x : α} (hx : xs[k]? = some x) :
    ∃ y, ys[k]? = some y ∧ R x y := by
  have hlt : k < ys.length := h.length_eq ▸ (List.getElem?_eq_some_iff.mp hx).1
  have hy := List.getElem?_eq_getElem hlt
  exact ⟨_, hy, (List.forall₂_iff_zip.mp h).2
    (List.mem_of_getElem? (List.getElem?_zip_eq_some.mpr ⟨hx, hy⟩))⟩

namespace ReadExpr

mutual

/-- The reads of single fields in an expression, narrowed or not, in order. -/
def atoms : ReadExpr → List ReadExpr
  | field path => [.field path]
  | narrow typeName inner => [.narrow typeName inner]
  | record _ members | tuple members | grouping _ members => atomsAll members
  | singleton _ _ => []

/-- The reads of single fields in some expressions, in order. -/
def atomsAll : List ReadExpr → List ReadExpr
  | [] => []
  | r :: rs => r.atoms ++ atomsAll rs

end

end ReadExpr

/-- The reads of single fields in the read of a case, in order. -/
def CaseRead.atoms : CaseRead → List ReadExpr
  | guarded _ value => value.atoms
  | isCase _ => []

/-- How a leaf is read: from its field as it is, or narrowed to the type of the leaf if the field is
of another type. -/
inductive Layout.ReadsLeaf (l : Layout) (n : Node) : ReadExpr → Prop
  | whole {id : FieldId} {path : List FieldId} (field : n.field = some id)
    (way : l.pathTo? id = some path) (same : l.fieldType id = n.type.name) :
    ReadsLeaf l n (.field path)
  | narrowed {id : FieldId} {path : List FieldId} (field : n.field = some id)
    (way : l.pathTo? id = some path) (differs : l.fieldType id ≠ n.type.name) :
    ReadsLeaf l n (.narrow n.type.name (.field path))

namespace NodeTree

variable {l : Layout} {caseName : String} {id : NodeId} {n : Node} {members : List NodeTree}
  {r : ReadExpr}

theorem readsLeaf_of_readExpr (h : n.storage ≠ .decomposable)
    (hr : readExpr l caseName ⟨id, n, members⟩ = .ok r) : l.ReadsLeaf n r ∧ r.atoms = [r] := by
  rw [readExpr, if_neg h] at hr
  cases hf : n.field with
  | none => simp [hf] at hr
  | some field =>
    cases hp : l.pathTo? field with
    | none => simp [hf, Layout.pathTo, hp] at hr
    | some path =>
      simp only [hf, Layout.pathTo, hp] at hr
      split at hr
      · next hsame =>
        rw [← Except.ok.inj hr]
        exact ⟨.whole hf hp hsame, rfl⟩
      · next hdiffers =>
        rw [← Except.ok.inj hr]
        exact ⟨.narrowed hf hp hdiffers, rfl⟩

theorem atoms_readExpr_composite (h : n.storage = .decomposable)
    (hr : readExpr l caseName ⟨id, n, members⟩ = .ok r) :
    ∃ rs, readExprs l caseName members = .ok rs ∧ r.atoms = ReadExpr.atomsAll rs := by
  obtain ⟨rs, hrs, rfl | ⟨-, rfl⟩⟩ := exists_of_readExpr_composite h hr
  · exact ⟨rs, hrs, by rw [ReadExpr.atoms]⟩
  · exact ⟨rs, hrs, by rw [ReadExpr.atoms]⟩

end NodeTree

/-- **The atoms of the expressions for some values are the reads of their leaves**, one after
another. -/
theorem Value.StandsAll.readsLeaves {classOf : Shape → StorageClass} {l : Layout}
    {caseName : String} {path : List String} {vs : List Value} {ts : List NodeTree}
    (h : StandsAll classOf path vs ts) : ∀ {rs : List ReadExpr},
    NodeTree.readExprs l caseName ts = .ok rs →
    List.Forall₂ l.ReadsLeaf (NodeTree.leavesAll ts) (ReadExpr.atomsAll rs) := by
  induction h with
  | nil =>
    intro rs hrs
    rw [← Except.ok.inj hrs]
    exact .nil
  | leaf whole node _ _ ih =>
    intro rs hrs
    obtain ⟨r, rs', rfl, hr, hrs'⟩ := NodeTree.exists_of_readExprs_cons hrs
    obtain ⟨hread, hatoms⟩ := NodeTree.readsLeaf_of_readExpr (node.storage ▸ whole) hr
    have hleaf : Node.isLeaf _ = true := bne_iff_ne.mpr (node.storage ▸ whole)
    rw [NodeTree.leavesAll, NodeTree.leaves, if_pos hleaf, ReadExpr.atomsAll, hatoms]
    exact .cons hread (ih hrs')
  | composite parts node _ _ _ ihm ih =>
    intro rs hrs
    obtain ⟨r, rs', rfl, hr, hrs'⟩ := NodeTree.exists_of_readExprs_cons hrs
    obtain ⟨inner, hinner, hatoms⟩ :=
      NodeTree.atoms_readExpr_composite (node.storage.trans parts) hr
    have hnode : Node.isLeaf _ = false := bne_eq_false_iff_eq.mpr (node.storage.trans parts)
    rw [NodeTree.leavesAll, NodeTree.leaves, hnode, ReadExpr.atomsAll, hatoms]
    exact List.rel_append (ihm hinner) (ih hrs')

/-- A union that knows strings as references and by their name alone. -/
def Union.holders : Union where
  kind := .tags
  name := "Holder"
  typeName := "Holder"
  cases := [
    { name := "A", values := [{ name := "x", type := .string }] },
    { name := "B", values := [{ name := "y", type := { name := "string", shape := .unknown } }] },
    { name := "C", values := [{ name := "z", type := { name := "List", shape := .reference } }] }]

namespace Layout

variable {classOf : Shape → StorageClass} {overlapped : Bool} {done : List Case} {l : Layout}
  {c : Case} {cl : CaseLayout} {ts : List NodeTree} {i : Nat} {n : Node} {id : FieldId}

/-- The read of a case reads its leaves, one after another. -/
theorem Holds.readsLeaves (h : Holds classOf l c cl ts) (hcl : l.cases[i]? = some cl)
    {tag : UInt32} {r : CaseRead} (hr : l.caseRead i c tag c.bundle = .ok r) :
    List.Forall₂ l.ReadsLeaf (NodeTree.leavesAll ts) r.atoms := by
  have hall : ∀ {rs}, NodeTree.readExprs l c.name ts = .ok rs →
      List.Forall₂ l.ReadsLeaf (NodeTree.leavesAll ts) (ReadExpr.atomsAll rs) :=
    fun hrs => h.stands.readsLeaves hrs
  rw [Layout.caseRead, caseAt_eq hcl, h.forest] at hr
  rcases ts with _ | ⟨t, _ | ⟨u, ts⟩⟩
  · -- a case without values is a single instance or just a tag
    simp only at hr
    split at hr
    all_goals
      rw [← Except.ok.inj hr]
      exact .nil
  · cases ht : t.readExpr l c.name with
    | error e => simp [ht, Except.map] at hr
    | ok value =>
      simp only [ht, Except.map, Except.ok.injEq] at hr
      have hone := hall (NodeTree.readExprs_cons ht rfl)
      rw [ReadExpr.atomsAll, ReadExpr.atomsAll, List.append_nil] at hone
      rw [← hr]
      exact hone
  · cases hrs : NodeTree.readExprs l c.name (t :: u :: ts) with
    | error e =>
      simp only [hrs, Except.map] at hr
      split at hr <;> exact absurd hr (by simp)
    | ok rs =>
      simp only [hrs, Except.map] at hr
      split at hr
      all_goals
        rw [← Except.ok.inj hr]
        exact hall hrs

/-- **The read of every case that is mapped reads the leaves of the case**, one after another. -/
theorem MapsAll.readsLeaves (hb : Built classOf overlapped done l) {tags : List UInt32}
    {ms : List CaseMapping} (hms : l.MapsAll 0 done tags ms) {m : CaseMapping}
    (hm : ms[i]? = some m) :
    List.Forall₂ l.ReadsLeaf (l.leafNodes (l.caseAt i).roots) m.read.atoms := by
  obtain ⟨c, hc⟩ := hms.exists_case hm
  obtain ⟨tag, -, hmap⟩ := hms.maps_at hc hm
  rw [Nat.zero_add] at hmap
  obtain ⟨cl, ts, hcl, h⟩ := hb.holds_at hc
  rw [caseAt_eq hcl, h.leafNodes]
  exact h.readsLeaves hcl (mapCase_eq_ok hmap.result).2

/-! ## Leaves and their fields -/

theorem exists_caseAt_of_mem (hn : n ∈ l.leafNodes (l.caseAt i).roots) :
    ∃ cl, l.cases[i]? = some cl ∧ l.caseAt i = cl := by
  cases hcl : l.cases[i]? with
  | some cl => exact ⟨cl, rfl, caseAt_eq hcl⟩
  | none =>
    rw [caseAt, List.getD_eq_getElem?_getD, hcl] at hn
    exact absurd hn (by simp [leafNodes, leaves, preorder, preorderFrom, CaseLayout.vacant])

/-- A leaf of a case is stored in a field. -/
theorem Built.exists_houses (hb : Built classOf overlapped done l) (hs : Suits classOf l)
    (hn : n ∈ l.leafNodes (l.caseAt i).roots) : ∃ id, n.field = some id ∧ l.Houses id n := by
  obtain ⟨cl, hcl, he⟩ := exists_caseAt_of_mem hn
  rw [he] at hn
  obtain ⟨c, -, ts, h⟩ := hb.holds_of_mem (List.mem_of_getElem? hcl)
  obtain ⟨id, -, hf, -⟩ := h.route hs (h.leafNodes ▸ hn)
  exact ⟨id, hf, i, cl, hcl, hn, hf⟩

/-- A leaf is read from its field, narrowed only if the field is of another type. -/
theorem ReadsLeaf.eq {r : ReadExpr} (h : l.ReadsLeaf n r) {f : Field} (hn : n.field = some id)
    (hf : l.fields[id]? = some f) : ∃ path, l.pathTo? id = some path ∧
      r = if f.typeName = n.type.name then .field path else .narrow n.type.name (.field path) := by
  have htype : l.fieldType id = f.typeName := by
    rw [fieldType, hf]
    rfl
  cases h with
  | whole field way same =>
    obtain rfl : _ = id := Option.some.inj (field.symm.trans hn)
    exact ⟨_, way, (if_pos (htype ▸ same)).symm⟩
  | narrowed field way differs =>
    obtain rfl : _ = id := Option.some.inj (field.symm.trans hn)
    exact ⟨_, way, (if_neg (htype ▸ differs)).symm⟩

/-! ## What is narrowed -/

/-- **The type of a field is settled by all leaves that are stored in it, and a leaf is narrowed
exactly if its field is of another type.**

A field has the type of its leaves if they agree on it, and otherwise it is a slot for references
with the type of any reference. Whatever the tags are, each case can be mapped, and the atoms of its
read are the reads of its leaves, one after another. -/
theorem fieldTypes_of_allocate {u : Union} {allowOverlap : Bool}
    (hl : allocate u allowOverlap = .ok l) :
    (∀ id n, l.Houses id n → ∃ f, l.fields[id]? = some f ∧ l.TypedAs id f) ∧
    ∀ tags : List UInt32, ∃ ms, mapCases u l tags = .ok ms ∧
      ms.length = min u.cases.length tags.length ∧
      ∀ (i : Nat) (m : CaseMapping), ms[i]? = some m →
        List.Forall₂ l.ReadsLeaf (l.leafNodes (l.caseAt i).roots) m.read.atoms := by
  obtain ⟨-, hb⟩ := built_of_allocate hl
  refine ⟨fun id n hn => hb.typedAs hn, fun tags => ?_⟩
  obtain ⟨ms, hms⟩ := hb.exists_mapsAll (suits_of_allocate hl) tags
  exact ⟨ms, hms.result, hms.length, fun i m hm => hms.readsLeaves hb hm⟩

/-- The leaf of the second case of `Union.holders` is in a slot of another type. -/
theorem allocate_holders : ∃ l, allocate .holders false = .ok l ∧ l.fieldType 0 = "object" ∧
    l.pathTo? 0 = some [0] ∧ l.leafNodes (l.caseAt 1).roots
      = [⟨"y", { name := "string", shape := .unknown }, .sameType, some 0, ["y"], []⟩] := by
  have hrun : (allocate .holders false).map
      (fun l => (l.fieldType 0, l.pathTo? 0, (l.caseAt 1).roots, l.nodes[1]?))
        = .ok ("object", some [0], [1],
          some ⟨"y", { name := "string", shape := .unknown }, .sameType, some 0, ["y"], []⟩) := by
    decide
  obtain ⟨l, hl, hparts⟩ := exists_layout_of_map hrun
  simp only [Prod.mk.injEq] at hparts
  obtain ⟨htype, hpath, hroots, hnode⟩ := hparts
  refine ⟨l, hl, htype, hpath, ?_⟩
  have hrooted : NodeTree.RootedAll l.nodes [⟨1, ⟨"y", { name := "string", shape := .unknown },
      .sameType, some 0, ["y"], []⟩, []⟩] :=
    ⟨⟨hnode, rfl, fun _ ht => absurd ht List.not_mem_nil, trivial⟩, trivial⟩
  rw [hroots]
  exact leafNodes_of_rooted hrooted

theorem fieldTypes_holders : ∃ l n f ms m, allocate .holders false = .ok l ∧
    l.leafNodes (l.caseAt 1).roots = [n] ∧ l.fields[0]? = some f ∧ l.TypedAs 0 f ∧
    mapCases .holders l [1, 2, 3] = .ok ms ∧ ms.length = 3 ∧ ms[1]? = some m ∧
    List.Forall₂ l.ReadsLeaf [n] m.read.atoms := by
  obtain ⟨l, hl, -, -, hleaves⟩ := allocate_holders
  obtain ⟨htypes, hreads⟩ := fieldTypes_of_allocate hl
  obtain ⟨ms, hms, hlen, hread⟩ := hreads [1, 2, 3]
  have hone : 1 < ms.length := hlen ▸ by decide
  have hm := List.getElem?_eq_getElem hone
  obtain ⟨cl, hcl, he⟩ := exists_caseAt_of_mem (i := 1) (hleaves ▸ List.mem_singleton_self _)
  obtain ⟨f, hf, htype⟩ := htypes 0 _ ⟨1, cl, hcl, he ▸ hleaves ▸ List.mem_singleton_self _, rfl⟩
  exact ⟨l, _, f, ms, ms[1], hl, hleaves, hf, htype, hms, hlen, hm, hleaves ▸ hread 1 _ hm⟩

/-- How the type of a field has to do with a leaf in it that is shared by its type. -/
structure SharesType (l : Layout) (id : FieldId) (f : Field) (n : Node) : Prop where
  /-- The types differ if and only if a reference of another type shares the field, unless the
  leaf's own type is that of any reference. -/
  differs : f.typeName ≠ n.type.name ↔ n.type.name ≠ Field.anyReference ∧
    ∃ m, l.Houses id m ∧ m.storage = .reference ∧ m.type.name ≠ n.type.name
  /-- If they differ, the field is a slot that was declared for a reference of the leaf's type. -/
  widened : f.typeName ≠ n.type.name → f.kind = .reference ∧ id ∈ l.unionFields ∧
    f.typeName = Field.anyReference ∧
    ∃ m, l.Houses id m ∧ m.storage = .reference ∧ m.type.name = n.type.name

theorem Built.sharesType (hb : Built classOf overlapped done l) (hn : l.Houses id n)
    (hs : n.storage = .sameType) : ∃ f, l.fields[id]? = some f ∧ l.SharesType id f n := by
  obtain ⟨f, hf, hfits⟩ := hb.fits hn
  refine ⟨f, hf, ne_comm.trans (hfits.sameType_ne_iff hn hs), fun hne => ?_⟩
  have hw := hfits.types.resolve_left fun htypes => hne (htypes n hn).symm
  exact ⟨hw.kind, hb.mem_unionFields hn (by simp [Node.isOverlap, hs]), hw.typeName,
    (hfits.sameType n hn hs hne.symm).1⟩

/-- **A leaf that is shared by its type is stored in a field of its type and read as it is**, unless
references of its type and of another type are stored in the same slot. -/
theorem sameType_of_allocate {u : Union} {allowOverlap : Bool}
    (hl : allocate u allowOverlap = .ok l) {i k : Nat} {n : Node}
    (hn : (l.leafNodes (l.caseAt i).roots)[k]? = some n) (hs : n.storage = .sameType) :
    ∃ id f, n.field = some id ∧ l.fields[id]? = some f ∧ l.SharesType id f n ∧
      ∀ tags : List UInt32, ∃ ms, mapCases u l tags = .ok ms ∧
        ∀ m, ms[i]? = some m → ∃ path, l.pathTo? id = some path ∧
          m.read.atoms[k]? = some (if f.typeName = n.type.name then .field path
            else .narrow n.type.name (.field path)) := by
  obtain ⟨-, hb⟩ := built_of_allocate hl
  obtain ⟨id, hfield, hhouses⟩ := hb.exists_houses (suits_of_allocate hl) (List.mem_of_getElem? hn)
  obtain ⟨f, hf, htype⟩ := hb.sharesType hhouses hs
  refine ⟨id, f, hfield, hf, htype, fun tags => ?_⟩
  obtain ⟨ms, hms⟩ := hb.exists_mapsAll (suits_of_allocate hl) tags
  refine ⟨ms, hms.result, fun m hm => ?_⟩
  obtain ⟨r, hr, hread⟩ := exists_of_forall₂ (hms.readsLeaves hb hm) hn
  obtain ⟨path, hp, rfl⟩ := hread.eq hfield hf
  exact ⟨path, hp, hr⟩

theorem sameType_holders : ∃ l n f, allocate .holders false = .ok l ∧
    (l.leafNodes (l.caseAt 1).roots)[0]? = some n ∧ n.storage = .sameType ∧
    n.field = some 0 ∧ l.fields[0]? = some f ∧ l.SharesType 0 f n := by
  obtain ⟨l, hl, -, -, hleaves⟩ := allocate_holders
  have hn := congrArg (·[0]?) hleaves
  obtain ⟨id, f, hfield, hf, htype, -⟩ := sameType_of_allocate hl hn rfl
  obtain rfl : 0 = id := Option.some.inj hfield
  exact ⟨l, _, f, hl, hn, rfl, hfield, hf, htype⟩

/-- **A leaf that is shared by its type may be narrowed**: the second case joins the slot of the
first, since the types have one name, and the third case widens it. -/
theorem sameType_widened : ∃ l n ms m, allocate .holders false = .ok l ∧
    l.leafNodes (l.caseAt 1).roots = [n] ∧ n.storage = .sameType ∧ n.field = some 0 ∧
    l.fieldType 0 ≠ n.type.name ∧
    mapCases .holders l [1, 2, 3] = .ok ms ∧ ms[1]? = some m ∧
    m.read.atoms = [.narrow n.type.name (.field [0])] := by
  obtain ⟨l, hl, htype, hpath, hleaves⟩ := allocate_holders
  obtain ⟨-, hb⟩ := built_of_allocate hl
  obtain ⟨ms, hms⟩ := hb.exists_mapsAll (suits_of_allocate hl) [1, 2, 3]
  have hone : 1 < ms.length := hms.length ▸ by decide
  have hm := List.getElem?_eq_getElem hone
  have hne : l.fieldType 0 ≠ "string" := htype ▸ by decide
  refine ⟨l, _, ms, ms[1], hl, hleaves, rfl, rfl, hne, hms.result, hm, ?_⟩
  have hreads := hms.readsLeaves hb hm
  rw [hleaves, List.forall₂_cons_left_iff] at hreads
  obtain ⟨r, rest, hr, hrest, he⟩ := hreads
  rw [he, List.forall₂_nil_left_iff.mp hrest]
  cases hr with
  | whole field _ same =>
    obtain rfl := Option.some.inj field
    exact absurd same hne
  | narrowed field way _ =>
    obtain rfl := Option.some.inj field
    rw [Option.some.inj (way.symm.trans hpath)]

end Layout

end SumLayout
