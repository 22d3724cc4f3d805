import SumLayout.Proofs.Mapping

/-!
# Reading back what a factory was given

A factory takes one argument for each parameter of its case. An argument for a value that is stored
whole is anything at all; one for a value that is taken apart is a record or a tuple of its parts
(`Value.FitsAll`). The constructor is given the leaves, found **by name** (`Value.argumentAll?`), so
that sibling values must not share a name (`Value.DistinctAll`).

Then the values that the trees of a case stand for are the arguments
(`StandsAll.contents_eq`), and together with the mapping of each case:
**a case is read back as it was written, and no other case is read from it**
(`roundTrip_of_allocate`).
-/

namespace SumLayout

namespace Value

variable {α : Type} {classOf : Shape → StorageClass}

mutual

/-- What a factory may be given for a value. -/
def Fits (classOf : Shape → StorageClass) : Value → Content α → Prop
  | ⟨_, type, members⟩, x =>
    if classOf type.shape = .decomposable then
      ∃ parts, x = type.assemble parts ∧ FitsAll classOf members parts
    else ∃ a, x = .leaf a

/-- What a factory may be given for some values. -/
def FitsAll (classOf : Shape → StorageClass) : List Value → List (Content α) → Prop
  | [], xs => xs = []
  | _ :: _, [] => False
  | v :: vs, x :: xs => v.Fits classOf x ∧ FitsAll classOf vs xs

end

mutual

/-- The leaf of an argument that lies at a path below it, if there is one. -/
def argument? : Value → Content α → List String → Option α
  | ⟨_, _, members⟩, x, path =>
    match x with
    | .leaf a => if path.isEmpty then some a else none
    | .record _ parts | .tuple parts => argumentAll? members parts path
    | _ => none

/-- The leaf of some arguments that lies at a path, which starts with the name of a value. -/
def argumentAll? : List Value → List (Content α) → List String → Option α
  | v :: vs, x :: xs, name :: path =>
    if v.name = name then v.argument? x path else argumentAll? vs xs (name :: path)
  | _, _, _ => none

end

mutual

/-- The values that a value is made of have different names, to any depth. -/
def Distinct : Value → Prop
  | ⟨_, _, members⟩ => DistinctAll members

/-- Some values, and the values that each is made of, have different names. -/
def DistinctAll : List Value → Prop
  | [] => True
  | v :: vs => (∀ w ∈ vs, w.name ≠ v.name) ∧ v.Distinct ∧ DistinctAll vs

end

/-! ## Finding an argument by its path -/

theorem argument?_assemble (name : String) (type : ValueType) (members : List Value)
    (parts : List (Content α)) (path : List String) :
    argument? ⟨name, type, members⟩ (type.assemble parts) path
      = argumentAll? members parts path := by
  rw [ValueType.assemble]
  split <;> rw [argument?]

theorem argumentAll?_cons_self (v : Value) (vs : List Value) (x : Content α)
    (xs : List (Content α)) (path : List String) :
    argumentAll? (v :: vs) (x :: xs) (v.name :: path) = v.argument? x path := by
  rw [argumentAll?, if_pos rfl]

/-- A path leads into one of the values. -/
theorem exists_mem_of_argumentAll? {vs : List Value} {xs : List (Content α)} {path : List String}
    {a : α} (h : argumentAll? vs xs path = some a) :
    ∃ v ∈ vs, ∃ rest, path = v.name :: rest := by
  induction vs generalizing xs with
  | nil => exact absurd h (by simp [argumentAll?])
  | cons v vs ih =>
    match xs, path with
    | [], _ => exact absurd h (by simp [argumentAll?])
    | _ :: _, [] => exact absurd h (by simp [argumentAll?])
    | x :: xs, name :: rest =>
      rw [argumentAll?] at h
      split at h
      · next hname => exact ⟨v, List.mem_cons_self, rest, by rw [hname]⟩
      · obtain ⟨w, hw, hrest⟩ := ih h
        exact ⟨w, List.mem_cons_of_mem _ hw, hrest⟩

/-- A path that leads into one of the other values does so also if the first one is there. -/
theorem argumentAll?_cons_of_ne {v : Value} {vs : List Value} {x : Content α}
    {xs : List (Content α)} {path : List String} {a : α} (hv : ∀ w ∈ vs, w.name ≠ v.name)
    (h : argumentAll? vs xs path = some a) : argumentAll? (v :: vs) (x :: xs) path = some a := by
  obtain ⟨w, hw, rest, rfl⟩ := exists_mem_of_argumentAll? h
  rw [argumentAll?, if_neg fun he => hv w hw he.symm]
  exact h

/-- **The trees of some values stand for the arguments that they were given.** -/
theorem StandsAll.contents_eq {path : List String} {vs : List Value} {ts : List NodeTree}
    {arg : List String → α} (h : StandsAll classOf path vs ts) : ∀ {xs : List (Content α)},
    DistinctAll vs → FitsAll classOf vs xs →
    (∀ rest a, argumentAll? vs xs rest = some a → arg (path ++ rest) = a) →
    NodeTree.contents arg ts = xs := by
  induction h with
  | nil =>
    intro xs _ hfit _
    rw [FitsAll] at hfit
    rw [hfit, NodeTree.contents]
  | @leaf path name type members vs id n ts whole node _ _ ih =>
    intro xs hd hfit harg
    cases xs with
    | nil => exact hfit.elim
    | cons x xs =>
      obtain ⟨hx, hxs⟩ := hfit
      rw [Fits, if_neg whole] at hx
      obtain ⟨a, rfl⟩ := hx
      have htail := ih hd.2.2 hxs fun rest a ha =>
        harg rest a (argumentAll?_cons_of_ne hd.1 ha)
      have ha := harg [name] a ((argumentAll?_cons_self ⟨name, type, members⟩ vs _ xs []).trans rfl)
      rw [NodeTree.contents, NodeTree.content, htail, node.storage, if_neg whole, node.path, ha]
  | @composite path name type members vs id n us ts parts node _ _ _ ihm ih =>
    intro xs hd hfit harg
    cases xs with
    | nil => exact hfit.elim
    | cons x xs =>
      obtain ⟨hx, hxs⟩ := hfit
      rw [Fits, if_pos parts] at hx
      obtain ⟨ys, rfl, hys⟩ := hx
      have htail := ih hd.2.2 hxs fun rest a ha =>
        harg rest a (argumentAll?_cons_of_ne hd.1 ha)
      -- the path below the composite is the rest of the path after its name
      have hinner := ihm hd.2.1 hys fun rest a ha => by
        rw [List.append_assoc]
        refine harg (name :: rest) a ?_
        rw [argumentAll?_cons_self ⟨name, type, members⟩ vs _ xs rest, argument?_assemble, ha]
      rw [NodeTree.contents, NodeTree.content, htail, node.storage, if_pos parts, hinner, node.type]
      rfl

end Value

/-- The leaf at a path of the arguments of a case. -/
def Case.argument {α : Type} (c : Case) (args : List (Content α)) (absent : α)
    (path : List String) : α :=
  (Value.argumentAll? c.values args path).getD absent

/-- Sibling values have different names. -/
def Union.DistinctSiblings (u : Union) : Prop := ∀ c ∈ u.cases, Value.DistinctAll c.values

namespace Layout

variable {classOf : Shape → StorageClass} {overlapped : Bool} {done : List Case} {l : Layout}
  {c : Case} {i : Nat}

theorem Built.expected_argument {α : Type} (hb : Built classOf overlapped done l)
    (hc : done[i]? = some c) (hd : Value.DistinctAll c.values) {args : List (Content α)}
    (hfit : Value.FitsAll classOf c.values args) (absent : α) :
    l.expected (c.argument args absent) i c c.bundle = c.value args := by
  obtain ⟨cl, ts, hcl, h⟩ := hb.holds_at hc
  have hcontents : NodeTree.contents (c.argument args absent) ts = args :=
    h.stands.contents_eq hd hfit fun rest a ha => by
      rw [List.nil_append, Case.argument, ha, Option.getD_some]
  rw [h.expected hcl, hcontents]

/-- The classification in the layout of a union follows from whether there is an overlap region. -/
theorem classes_eq_of_allocate {u : Union} {allowOverlap : Bool}
    (h : allocate u allowOverlap = .ok l) :
    classes u allowOverlap = .ofShape u.options l.overlap.isSome := by
  rw [classes, hasOverlap_eq_isSome h]

/-- **A case is read back as it was written, and no other case is read from it**: with different
tags, the read of any other case gives its default and looks at no field. -/
theorem roundTrip_of_allocate {u : Union} {allowOverlap : Bool} {l : Layout} {tags : List UInt32}
    (hu : u.DistinctSiblings) (hl : allocate u allowOverlap = .ok l) (htags : tags.Nodup) :
    ∃ ms, mapCases u l tags = .ok ms ∧ ms.length = min u.cases.length tags.length ∧
      ∀ (i : Nat) (c : Case) (m : CaseMapping), u.cases[i]? = some c → ms[i]? = some m →
        ∀ {α : Type} (args : List (Content α)) (absent : α),
          Value.FitsAll (.ofShape u.options l.overlap.isSome) c.values args →
          let s := Storage.construct l (c.argument args absent) m.construction
          s.read m.read = c.value args ∧
            ∀ (j : Nat) (m' : CaseMapping), j ≠ i → ms[j]? = some m' →
              s.read m'.read = m'.read.inactive ∧ s.pathsRead m'.read = [] := by
  obtain ⟨-, hb⟩ := built_of_allocate hl
  obtain ⟨ms, hms⟩ := hb.exists_mapsAll (suits_of_allocate hl) tags
  refine ⟨ms, hms.result, hms.length, ?_⟩
  intro i c m hc hm α args absent hfit
  rw [← classes_eq_of_allocate hl] at hfit
  obtain ⟨tag, ht, hmap⟩ := hms.maps_at hc hm
  rw [Nat.zero_add] at hmap
  refine ⟨?_, fun j m' hne hm' => ?_⟩
  · rw [hmap.inverse, hmap.bundle,
      hb.expected_argument hc (hu c (List.mem_of_getElem? hc)) hfit absent]
  · obtain ⟨d, hd⟩ := hms.exists_case hm'
    obtain ⟨tag', ht', hmap'⟩ := hms.maps_at hd hm'
    refine Storage.read_of_tag_ne ?_
    rw [hmap'.readTag, Storage.tag_construct, hmap.constructionTag]
    exact fun he => hne ((List.getElem?_inj (List.getElem?_eq_some_iff.mp ht').1 htags).mp
      (ht'.trans (he ▸ ht.symm)))

theorem distinctSiblings_figures : Union.figures.DistinctSiblings := by
  simp [Union.DistinctSiblings, Union.figures, Value.DistinctAll, Value.Distinct]

theorem roundTrip_figures : ∃ l ms m m', allocate .figures true = .ok l ∧
    mapCases .figures l [1, 2, 3, 4, 5] = .ok ms ∧ ms[1]? = some m ∧ ms[0]? = some m' ∧
    ∃ s : Storage Nat, s.tag = m.construction.tag ∧
      s.read m.read = .tuple [.record "Point" [.leaf 3, .leaf 4], .leaf 5] ∧
      s.read m'.read = m'.read.inactive := by
  obtain ⟨l, hl, ho⟩ := allocate_figures
  have htags : ([1, 2, 3, 4, 5] : List UInt32).Nodup := by decide
  obtain ⟨ms, hms, hlen, hall⟩ := roundTrip_of_allocate distinctSiblings_figures hl htags
  have hone : 1 < ms.length := hlen ▸ by decide
  have hzero : 0 < ms.length := hlen ▸ by decide
  have hfit : Value.FitsAll (.ofShape Union.figures.options l.overlap.isSome)
      Union.figures.cases[1].values
      [.record "Point" [.leaf 3, .leaf 4], .leaf 5] := by
    rw [ho]
    exact ⟨⟨[.leaf 3, .leaf 4], rfl, ⟨3, rfl⟩, ⟨4, rfl⟩, rfl⟩, ⟨5, rfl⟩, rfl⟩
  obtain ⟨hread, hother⟩ := hall 1 _ ms[1] rfl (List.getElem?_eq_getElem hone) _ 0 hfit
  exact ⟨l, ms, ms[1], ms[0], hl, hms, List.getElem?_eq_getElem hone,
    List.getElem?_eq_getElem hzero, _, Storage.tag_construct l _, hread,
    (hother 0 ms[0] (by decide) (List.getElem?_eq_getElem hzero)).1⟩

end Layout

end SumLayout
