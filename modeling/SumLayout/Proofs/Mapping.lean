import SumLayout.Proofs.Reading

/-!
# The mapping of every case

`Layout.Maps` says of the mapping of a case that its call and its read go under the tag of the case
and that the read gives back what the call has written. **Each case of a layout has such a mapping**
(`Built.exists_maps`), and so all cases can be mapped (`Built.exists_mapsAll`).

What a case gives back is told without its layout: it is the arguments of the factory, put together
as the number of them asks for (`Case.value`).
-/

namespace SumLayout

/-- The value of a case, from the arguments of its factory: the only argument, several arguments put
together, or without arguments the single instance of the case's type, if it has one, and otherwise
just that the case holds. -/
def Case.value {α : Type} (c : Case) : List (Content α) → Content α
  | [] =>
    match c.singleton? with
    | some (typeName, accessor) => .singleton typeName accessor
    | none => .flag true
  | [x] => x
  | xs =>
    match c.bundle with
    | some (.grouping typeName) => .grouping typeName xs
    | some .tuple | none => .tuple xs

namespace Layout

variable {classOf : Shape → StorageClass} {overlapped : Bool} {done : List Case} {l : Layout}
  {c : Case} {cl : CaseLayout} {ts : List NodeTree} {i : Nat}

/-- What the mapping of the case at a position does. -/
structure Maps (l : Layout) (i : Nat) (c : Case) (tag : UInt32) (m : CaseMapping) : Prop where
  result : l.mapCase i c tag = .ok m
  constructionTag : m.construction.tag = tag
  readTag : m.read.tag = tag
  bundle : m.bundle = c.bundle
  inverse : ∀ {α : Type} (arg : List String → α),
    (Storage.construct l arg m.construction).read m.read = l.expected arg i c m.bundle

/-- A mapping is a call and a read of the same case. -/
theorem mapCase_eq_ok {tag : UInt32} {m : CaseMapping} (h : l.mapCase i c tag = .ok m) :
    l.construction i c.name tag = .ok m.construction ∧
      l.caseRead i c tag c.bundle = .ok m.read := by
  rw [mapCase] at h
  cases hk : l.construction i c.name tag with
  | error e => simp [hk] at h
  | ok k =>
    cases hr : l.caseRead i c tag c.bundle with
    | error e => simp [hk, hr] at h
    | ok r =>
      simp only [hk, hr, Except.ok.injEq] at h
      exact ⟨by rw [← h], by rw [← h]⟩

/-- What reading the case must give is the case's value. -/
theorem Holds.expected {α : Type} (h : Holds classOf l c cl ts) (hcl : l.cases[i]? = some cl)
    (arg : List String → α) :
    l.expected arg i c c.bundle = c.value (NodeTree.contents arg ts) := by
  rw [Layout.expected, caseAt_eq hcl, h.forest]
  match ts with
  | [] => rfl
  | [_] => rfl
  | _ :: _ :: _ =>
    cases hb : c.bundle with
    | none => simp only [NodeTree.contents, Case.value, hb]
    | some b => cases b <;> simp only [NodeTree.contents, Case.value, hb]

/-! ## The read of a case -/

/-- Each leaf of a case can be reached. -/
theorem Holds.reached (h : Holds classOf l c cl ts) (hb : Built classOf overlapped done l)
    (hs : Suits classOf l) (hcl : cl ∈ l.cases)
    (caseName : String) : NodeTree.Reached l caseName ts := by
  intro n hn
  obtain ⟨id, path, hf, hr⟩ := h.route hs hn
  obtain ⟨f, hfield⟩ := hb.exists_field hcl hr
  exact ⟨id, path, hf, (hr.pathTo hb hcl hfield).2 caseName⟩

/-- Each leaf of a case holds its argument after the call for the case. -/
theorem Holds.filled {α : Type} (h : Holds classOf l c cl ts) (hb : Built classOf overlapped done l)
    (hs : Suits classOf l) (hcl : cl ∈ l.cases)
    (caseName : String) (arg : List String → α) (tag : UInt32) :
    NodeTree.Filled l caseName ts arg (Storage.construct l arg (l.call cl tag)) := by
  intro n hn id path hf hp
  obtain ⟨id', path', hf', hr⟩ := h.route hs hn
  rw [hf, Option.some.injEq] at hf'
  subst hf'
  obtain ⟨f, hfield⟩ := hb.exists_field hcl hr
  rw [(hr.pathTo hb hcl hfield).2 caseName, Except.ok.injEq] at hp
  subst hp
  exact h.readPath_construct hb.overlap_not_slot hn hf hr tag

/-- The values of a case are read under its tag. -/
structure ReadAs (ts : List NodeTree) (l : Layout) (c : Case) (tag : UInt32) (r : CaseRead) :
    Prop where
  tagged : r.tag = tag
  read : ∀ {α : Type} {arg : List String → α} {s : Storage α}, s.tag = tag →
    NodeTree.Filled l c.name ts arg s → s.read r = c.value (NodeTree.contents arg ts)

theorem readAs_guarded {value : ReadExpr} {tag : UInt32}
    (h : ∀ {α : Type} {arg : List String → α} {s : Storage α},
      NodeTree.Filled l c.name ts arg s → s.eval value = c.value (NodeTree.contents arg ts)) :
    ReadAs ts l c tag (.guarded tag value) where
  tagged := rfl
  read ht hfill := by
    rw [Storage.read, if_pos ht.symm]
    exact h hfill

theorem Holds.caseRead (h : Holds classOf l c cl ts) (hcl : l.cases[i]? = some cl) (tag : UInt32)
    {rs : List ReadExpr} (hrs : NodeTree.ReadBy l c.name ts rs) :
    ∃ r, l.caseRead i c tag c.bundle = .ok r ∧ ReadAs ts l c tag r := by
  rw [Layout.caseRead, caseAt_eq hcl, h.forest]
  have hres := hrs.result
  match ts with
  | [] =>
    cases hs : c.singleton? with
    | some single =>
      refine ⟨_, rfl, readAs_guarded fun _ => ?_⟩
      simp only [NodeTree.contents, Case.value, hs, Storage.eval]
    | none =>
      refine ⟨_, rfl, rfl, fun {α arg s} ht _ => ?_⟩
      simp only [NodeTree.contents, Case.value, hs, Storage.read, ht, decide_true]
  | [t] =>
    rw [NodeTree.readExprs] at hres
    cases ht : t.readExpr l c.name with
    | error e => simp [ht] at hres
    | ok r =>
      simp only [ht, NodeTree.readExprs, Except.ok.injEq] at hres
      refine ⟨.guarded tag r, by simp only [ht, Except.map],
        readAs_guarded fun {α arg s} hfill => ?_⟩
      have heval := hrs.eval hfill
      rw [← hres] at heval
      exact (List.cons.inj heval).1
  | _ :: _ :: _ =>
    simp only [hres, Except.map]
    rcases hb : c.bundle with _ | _ | typeName
    all_goals
      refine ⟨_, rfl, readAs_guarded fun hfill => ?_⟩
      simp only [Storage.eval, hrs.eval hfill, NodeTree.contents, Case.value, hb]

/-! ## All cases -/

/-- **Each case of a layout has a mapping that reads what it writes.** -/
theorem Built.exists_maps (hb : Built classOf overlapped done l)
    (hs : Suits classOf l) (hc : done[i]? = some c) (tag : UInt32) : ∃ m, l.Maps i c tag m := by
  obtain ⟨cl, ts, hcl, h⟩ := hb.holds_at hc
  have hmem : cl ∈ l.cases := List.mem_of_getElem? hcl
  obtain ⟨rs, hrs⟩ := h.stands.readExprs hs.composite (h.reached hb hs hmem c.name)
  obtain ⟨r, hr, hread⟩ := h.caseRead hcl tag hrs
  refine ⟨⟨l.call cl tag, r, c.bundle⟩, ?_, rfl, hread.tagged, rfl, fun arg => ?_⟩
  · rw [mapCase, h.construction hcl]
    simp only [hr]
  · rw [h.expected hcl]
    exact hread.read (Storage.tag_construct l _) (h.filled hb hs hmem c.name arg tag)

/-- The mappings of some cases, the first of them at position `i`. -/
structure MapsAll (l : Layout) (i : Nat) (cs : List Case) (tags : List UInt32)
    (ms : List CaseMapping) : Prop where
  result : l.mapCasesFrom i cs tags = .ok ms
  length : ms.length = min cs.length tags.length
  maps : ∀ j c tag m, cs[j]? = some c → tags[j]? = some tag → ms[j]? = some m →
    l.Maps (i + j) c tag m

section MapsAll

variable {cs : List Case} {tags : List UInt32} {ms : List CaseMapping} {m : CaseMapping} {j : Nat}

theorem MapsAll.exists_case (h : l.MapsAll i cs tags ms) (hm : ms[j]? = some m) :
    ∃ c, cs[j]? = some c := by
  have hlt := (List.getElem?_eq_some_iff.mp hm).1
  rw [h.length] at hlt
  exact ⟨_, List.getElem?_eq_getElem (Nat.lt_of_lt_of_le hlt (Nat.min_le_left ..))⟩

theorem MapsAll.maps_at (h : l.MapsAll i cs tags ms) (hc : cs[j]? = some c)
    (hm : ms[j]? = some m) : ∃ tag, tags[j]? = some tag ∧ l.Maps (i + j) c tag m := by
  have hlt := (List.getElem?_eq_some_iff.mp hm).1
  rw [h.length] at hlt
  have ht := List.getElem?_eq_getElem (Nat.lt_of_lt_of_le hlt (Nat.min_le_right ..))
  exact ⟨_, ht, h.maps j c _ m hc ht hm⟩

end MapsAll

theorem exists_mapsAll {cs : List Case} : ∀ {i : Nat} (tags : List UInt32),
    (∀ j c, cs[j]? = some c → ∀ tag, ∃ m, l.Maps (i + j) c tag m) →
    ∃ ms, l.MapsAll i cs tags ms := by
  induction cs with
  | nil =>
    intro i tags _
    exact ⟨[], by simp [mapCasesFrom], by simp, fun j c tag m hc => absurd hc (by simp)⟩
  | cons c cs ih =>
    intro i tags h
    cases tags with
    | nil =>
      exact ⟨[], by simp [mapCasesFrom], by simp, fun j c tag m _ ht => absurd ht (by simp)⟩
    | cons tag tags =>
      obtain ⟨m, hmaps⟩ := h 0 c rfl tag
      rw [Nat.add_zero] at hmaps
      obtain ⟨ms, hms⟩ := ih (i := i + 1) tags fun j d hd tag' => by
        have hnext := h (j + 1) d hd tag'
        rwa [← Nat.add_assoc, Nat.add_right_comm] at hnext
      refine ⟨m :: ms, ?_, ?_, ?_⟩
      · rw [mapCasesFrom, hmaps.result]
        simp only [hms.result]
      · rw [List.length_cons, hms.length, List.length_cons, List.length_cons,
          Nat.succ_min_succ]
      · intro j d tag' m' hd ht hm'
        cases j with
        | zero =>
          simp only [List.getElem?_cons_zero, Option.some.injEq] at hd ht hm'
          subst hd ht hm'
          exact hmaps
        | succ j =>
          have hnext := hms.maps j d tag' m' hd ht hm'
          rwa [Nat.add_assoc, Nat.add_comm 1 j] at hnext

/-- **All cases of a layout can be mapped**, under any tags. -/
theorem Built.exists_mapsAll (hb : Built classOf overlapped done l) (hs : Suits classOf l)
    (tags : List UInt32) : ∃ ms, l.MapsAll 0 done tags ms := by
  refine Layout.exists_mapsAll tags fun j c hc tag => ?_
  rw [Nat.zero_add]
  exact hb.exists_maps hs hc tag

end Layout

end SumLayout
