import SumLayout.Proofs.Classification
import SumLayout.Proofs.Placement

/-!
# Allocation case by case

`Layout.Built` generates the layouts that allocation passes through: the empty one, and from a
layout the next one, with one more case stored in it (`CaseAdded`). What allocation guarantees is
proved by induction on it.

Allocation fails at the first case with a hollow part (`allocate_of_hollow`) and otherwise gives a
layout that is built from all cases in order (`allocate_of_solid`). Since the region of a case is
decided by a count that is made before, it is shown here that this count is the number of requests
that will be made (`overlapCounts_eq_countP`).
-/

namespace SumLayout

namespace Value

variable {classOf : Shape → StorageClass}

theorem overlapCounts_cons_leaf {name : String} {type : ValueType} {members vs : List Value}
    (hk : classOf type.shape ≠ .decomposable) :
    overlapCounts classOf (⟨name, type, members⟩ :: vs)
      = (if classOf type.shape = .overlappable then 1 else 0) + overlapCounts classOf vs := by
  rw [overlapCounts, overlapCount]
  cases h : classOf type.shape with
  | decomposable => exact absurd h hk
  | _ => simp

theorem overlapCounts_cons_composite {name : String} {type : ValueType} {members vs : List Value}
    (hk : classOf type.shape = .decomposable) :
    overlapCounts classOf (⟨name, type, members⟩ :: vs)
      = overlapCounts classOf members + overlapCounts classOf vs := by
  rw [overlapCounts, overlapCount]
  simp only [hk]

/-- **The count made in advance is the number of overlappable requests.** -/
theorem overlapCounts_eq_countP (c : CaseScope) (vs : List Value) :
    ∀ (stem : String) (path : List String),
      overlapCounts c.classOf vs = (requestsAll c stem path vs).countP Request.isOverlap := by
  induction vs using forest_induction with
  | nil => exact fun _ _ => rfl
  | cons name type members vs ihm ih =>
    intro stem path
    by_cases hk : c.classOf type.shape = .decomposable
    · rw [overlapCounts_cons_composite hk, requestsAll_cons_composite hk, List.countP_append,
        ihm (c.memberStem path.isEmpty stem name) (path ++ [name]), ih stem path]
    · rw [overlapCounts_cons_leaf hk, requestsAll_cons_leaf hk, List.countP_cons, ih stem path,
        Nat.add_comm]
      simp [Request.isOverlap]

theorem overlapCounts_eq_zero (h : ∀ s, classOf s ≠ .overlappable) (vs : List Value) :
    overlapCounts classOf vs = 0 := by
  induction vs using forest_induction with
  | nil => rfl
  | cons name type members vs ihm ih =>
    by_cases hk : classOf type.shape = .decomposable
    · rw [overlapCounts_cons_composite hk, ihm, ih]
    · rw [overlapCounts_cons_leaf hk, if_neg (h _), ih]

end Value

namespace Case

/-- What is fixed while the case is stored. -/
def scope (classOf : Shape → StorageClass) (c : Case) : CaseScope where
  caseName := c.name
  isLone := c.values.length == 1
  needsRegion := 1 < Value.overlapCounts classOf c.values
  classOf := classOf

/-- The requests of the case. -/
def requests (classOf : Shape → StorageClass) (c : Case) : List Request :=
  Value.requestsAll (c.scope classOf) "" [] c.values

/-- The first hollow part of the case. -/
def hollow? (classOf : Shape → StorageClass) (c : Case) : Option (List String × Shape) :=
  Value.hollowAll? classOf [] c.values

theorem needsRegion_scope (classOf : Shape → StorageClass) (c : Case) :
    (c.scope classOf).needsRegion = decide (1 < (c.requests classOf).countP Request.isOverlap) := by
  rw [requests, ← Value.overlapCounts_eq_countP]
  rfl

end Case

namespace Layout

/-- The layout before any case, with or without an overlap region. -/
def start (overlapped : Bool) : Layout where
  fields := if overlapped then [.overlapRegion] else []
  nodes := []
  unionFields := []
  overlap := if overlapped then some 0 else none
  cases := []

/-- The storage that the next case finds. -/
def progress (l : Layout) : Progress where
  slots := { fields := l.fields, slots := l.unionFields }
  nodes := l.nodes

/-- Serve the requests of a case after those before it. -/
def place (classOf : Shape → StorageClass) (l : Layout) (c : Case) : List FieldId × Progress :=
  l.progress.placeAll (c.scope classOf) (c.requests classOf)

/-- What the case owns afterwards, if its values have become the trees `ts`. -/
def caseLayout (classOf : Shape → StorageClass) (l : Layout) (c : Case) (ts : List NodeTree) :
    CaseLayout where
  roots := ts.map NodeTree.id
  overlapField := overlapField (l.place classOf c).2
  regionFields := (l.place classOf c).2.regionFields

/-- The case `c`, with trees `ts`, is stored in `l'` after what is stored in `l`. -/
structure CaseAdded (classOf : Shape → StorageClass) (c : Case) (ts : List NodeTree)
    (l l' : Layout) : Prop where
  fields : l'.fields = (l.place classOf c).2.slots.fields
  unionFields : l'.unionFields = (l.place classOf c).2.slots.slots
  overlap : l'.overlap = l.overlap
  cases : l'.cases = l.cases ++ [l.caseLayout classOf c ts]
  nodes : ∃ added, l'.nodes = l.nodes ++ added ∧
    Value.StoredAll (c.scope classOf) "" [] c.values l.progress ts added

/-- The layouts that allocation passes through, with the cases that are stored in them. -/
inductive Built (classOf : Shape → StorageClass) (overlapped : Bool) :
    List Case → Layout → Prop
  | start : Built classOf overlapped [] (Layout.start overlapped)
  | case {done : List Case} {l l' : Layout} {c : Case} {ts : List NodeTree}
    (before : Built classOf overlapped done l) (step : CaseAdded classOf c ts l l') :
    Built classOf overlapped (done ++ [c]) l'

variable {classOf : Shape → StorageClass} {overlapped : Bool}

theorem Built.overlap_eq {done : List Case} {l : Layout} (h : Built classOf overlapped done l) :
    l.overlap = if overlapped then some 0 else none := by
  induction h with
  | start => rfl
  | case _ step ih => rw [step.overlap, ih]

theorem Built.length_cases {done : List Case} {l : Layout} (h : Built classOf overlapped done l) :
    l.cases.length = done.length := by
  induction h with
  | start => rfl
  | case _ step ih => rw [step.cases, List.length_append, List.length_append, ih]; rfl

/-! ## Allocation builds its layout -/

theorem allocateCase_of_hollow {c : Case} {q : List String} {s : Shape}
    (h : c.hollow? classOf = some (q, s)) (slots : Slots) (nodes : List Node) :
    allocateCase classOf (c.scope classOf).needsRegion c slots nodes
      = .error (.invalidShape c.name (Text.dotted q) s .noMembers) := by
  unfold allocateCase
  have hstore := Value.storeAll_of_hollow (c := c.scope classOf) c.values "" []
    { slots := slots.newCase, nodes := nodes } h
  rw [Case.scope] at hstore
  simp only [Case.scope, hstore]

theorem allocateCase_of_solid {c : Case} (h : c.hollow? classOf = none) (l : Layout)
    (slots : Slots) (hs : slots.newCase = l.progress.slots) :
    ∃ ts l', CaseAdded classOf c ts l l' ∧
      allocateCase classOf (c.scope classOf).needsRegion c slots l.nodes
        = .ok (l.caseLayout classOf c ts, (l.place classOf c).2.slots, l'.nodes) := by
  obtain ⟨ts, added, hst⟩ :=
    Value.storeAll_of_solid (c := c.scope classOf) c.values "" [] l.progress h
  refine ⟨ts, ⟨(l.place classOf c).2.slots.fields, l.nodes ++ added,
    (l.place classOf c).2.slots.slots, l.overlap, l.cases ++ [l.caseLayout classOf c ts]⟩,
    ⟨rfl, rfl, rfl, rfl, added, rfl, hst⟩, ?_⟩
  unfold allocateCase
  have hres := hst.result
  rw [Case.scope, progress] at hres
  simp only [Case.scope, hs, hres, progress]
  rfl

/-- The cases as allocation takes them. -/
def withRegions (classOf : Shape → StorageClass) (cs : List Case) : List (Case × Bool) :=
  cs.map fun c => (c, (c.scope classOf).needsRegion)

theorem allocateCases_of_solid (rest : List Case) : ∀ {done : List Case} {l : Layout}
    {slots : Slots}, Built classOf overlapped done l → slots.newCase = l.progress.slots →
    (∀ c ∈ rest, c.hollow? classOf = none) →
    ∃ layouts slots' nodes', allocateCases classOf (withRegions classOf rest) slots l.nodes
        = .ok (layouts, slots', nodes') ∧
      Built classOf overlapped (done ++ rest)
        ⟨slots'.fields, nodes', slots'.slots, l.overlap, l.cases ++ layouts⟩ := by
  induction rest with
  | nil =>
    intro done l slots hb hs _
    have hf : slots.fields = l.fields := congrArg Slots.fields hs
    have hu : slots.slots = l.unionFields := congrArg Slots.slots hs
    refine ⟨[], slots, l.nodes, rfl, ?_⟩
    rw [hf, hu, List.append_nil, List.append_nil]
    exact hb
  | cons c rest ih =>
    intro done l slots hb hs hsolid
    obtain ⟨ts, l', hadd, hres⟩ := allocateCase_of_solid (hsolid c List.mem_cons_self) l slots hs
    have hs' : (l.place classOf c).2.slots.newCase = l'.progress.slots := by
      rw [progress, hadd.fields, hadd.unionFields]
      rfl
    obtain ⟨layouts, slots', nodes', hrest, hb'⟩ :=
      ih (hb.case hadd) hs' fun d hd => hsolid d (List.mem_cons_of_mem _ hd)
    refine ⟨l.caseLayout classOf c ts :: layouts, slots', nodes', ?_, ?_⟩
    · rw [withRegions, List.map_cons, allocateCases, hres]
      simp only
      rw [← withRegions, hrest]
    · rw [hadd.cases, hadd.overlap, List.append_assoc, List.append_assoc] at hb'
      exact hb'

theorem allocateCases_of_hollow {c : Case} {q : List String} {s : Shape} (rest : List Case) :
    ∀ {done : List Case} {l : Layout} {slots : Slots}, Built classOf overlapped done l →
    slots.newCase = l.progress.slots →
    rest.findSome? (fun d => (d.hollow? classOf).map fun h => (d, h)) = some (c, q, s) →
    allocateCases classOf (withRegions classOf rest) slots l.nodes
      = .error (.invalidShape c.name (Text.dotted q) s .noMembers) := by
  induction rest with
  | nil =>
    intro done l slots _ _ h
    exact absurd h (by simp)
  | cons d rest ih =>
    intro done l slots hb hs h
    rw [List.findSome?_cons] at h
    rw [withRegions, List.map_cons, allocateCases, ← withRegions]
    cases hd : d.hollow? classOf with
    | some r =>
      rw [hd, Option.map_some] at h
      simp only [Option.some.injEq, Prod.mk.injEq] at h
      obtain ⟨rfl, rfl⟩ := h
      rw [allocateCase_of_hollow hd]
    | none =>
      -- the cases before the first with a hollow part are stored
      rw [hd, Option.map_none] at h
      obtain ⟨ts, l', hadd, hres⟩ := allocateCase_of_solid hd l slots hs
      have hs' : (l.place classOf d).2.slots.newCase = l'.progress.slots := by
        rw [progress, hadd.fields, hadd.unionFields]
        rfl
      rw [hres]
      simp only
      rw [ih (hb.case hadd) hs' h]

/-- Whether the layout of a union has an overlap region. -/
def hasOverlap (u : Union) (allowOverlap : Bool) : Bool := allowOverlap && sharesOverlap u

/-- How shapes are classified in the layout of a union. -/
def classes (u : Union) (allowOverlap : Bool) : Shape → StorageClass :=
  .ofShape u.options (hasOverlap u allowOverlap)

/-- A case needs a region of its own if it has several overlappable leaves in the layout at hand. -/
theorem needsRegion_eq (u : Union) (allowOverlap : Bool) (c : Case) :
    (hasOverlap u allowOverlap && decide (1 < overlapCount u.options c))
      = (c.scope (classes u allowOverlap)).needsRegion := by
  rw [classes]
  cases hasOverlap u allowOverlap with
  | true => rfl
  | false =>
    have hzero : Value.overlapCounts (.ofShape u.options false) c.values = 0 :=
      Value.overlapCounts_eq_zero (fun _ => StorageClass.ofShape_false_ne_overlappable) c.values
    simp [Case.scope, hzero]

theorem newCase_start (overlapped : Bool) :
    Slots.newCase { fields := (start overlapped).fields } = (start overlapped).progress.slots :=
  rfl

theorem allocate_eq (u : Union) (allowOverlap : Bool) :
    allocate u allowOverlap
      = (allocateCases (classes u allowOverlap) (withRegions (classes u allowOverlap) u.cases)
          { fields := (start (hasOverlap u allowOverlap)).fields } []).map
          fun r => ⟨r.2.1.fields, r.2.2, r.2.1.slots, (start (hasOverlap u allowOverlap)).overlap,
            r.1⟩ := by
  have hcases : (u.cases.map fun c =>
      (c, hasOverlap u allowOverlap && decide (1 < overlapCount u.options c)))
        = withRegions (classes u allowOverlap) u.cases := by
    simp only [needsRegion_eq, withRegions]
  rw [← hcases, allocate]
  symm
  split <;> next he => exact (congrArg (Except.map _) he).trans rfl

/-- **Without hollow parts, allocation gives a layout that is built from all cases.** -/
theorem allocate_of_solid {u : Union} {allowOverlap : Bool}
    (h : ∀ c ∈ u.cases, c.hollow? (classes u allowOverlap) = none) :
    ∃ l, allocate u allowOverlap = .ok l ∧
      Built (classes u allowOverlap) (hasOverlap u allowOverlap) u.cases l := by
  obtain ⟨layouts, slots, nodes, hres, hb⟩ :=
    allocateCases_of_solid u.cases Built.start
      (newCase_start (hasOverlap u allowOverlap)) h
  refine ⟨_, ?_, hb⟩
  rw [allocate_eq]
  simp only [start] at hres ⊢
  rw [hres]
  rfl

/-- **Allocation stops at the first case with a hollow part** and names the part. -/
theorem allocate_of_hollow {u : Union} {allowOverlap : Bool} {c : Case} {q : List String}
    {s : Shape} (h : u.cases.findSome? (fun d =>
      (d.hollow? (classes u allowOverlap)).map fun h => (d, h)) = some (c, q, s)) :
    allocate u allowOverlap = .error (.invalidShape c.name (Text.dotted q) s .noMembers) := by
  have hres := allocateCases_of_hollow u.cases Built.start
    (newCase_start (hasOverlap u allowOverlap)) h
  rw [allocate_eq]
  simp only [start] at hres ⊢
  rw [hres]
  rfl

theorem hollow?_eq_none_of_findSome? {classOf : Shape → StorageClass} {cs : List Case}
    (h : cs.findSome? (fun d => (d.hollow? classOf).map fun h => (d, h)) = none) :
    ∀ c ∈ cs, c.hollow? classOf = none := by
  intro c hc
  rw [List.findSome?_eq_none_iff] at h
  exact Option.map_eq_none_iff.mp (h c hc)

/-- **A layout that allocation gives is built from all cases**, none of which has a hollow part. -/
theorem built_of_allocate {u : Union} {allowOverlap : Bool} {l : Layout}
    (h : allocate u allowOverlap = .ok l) :
    (∀ c ∈ u.cases, c.hollow? (classes u allowOverlap) = none) ∧
      Built (classes u allowOverlap) (hasOverlap u allowOverlap) u.cases l := by
  cases hf : u.cases.findSome? (fun d =>
      (d.hollow? (classes u allowOverlap)).map fun h => (d, h)) with
  | some r =>
    rw [allocate_of_hollow hf] at h
    exact absurd h (by simp)
  | none =>
    have hsolid := hollow?_eq_none_of_findSome? hf
    obtain ⟨l', hl', hb⟩ := allocate_of_solid hsolid
    rw [hl', Except.ok.injEq] at h
    exact ⟨hsolid, h ▸ hb⟩

theorem hasOverlap_eq_isSome {u : Union} {allowOverlap : Bool} {l : Layout}
    (h : allocate u allowOverlap = .ok l) : hasOverlap u allowOverlap = l.overlap.isSome := by
  rw [(built_of_allocate h).2.overlap_eq]
  cases hasOverlap u allowOverlap <;> rfl

/-- **A union has a layout exactly if no case has a hollow part.** -/
theorem exists_allocate_iff {u : Union} {allowOverlap : Bool} :
    (∃ l, allocate u allowOverlap = .ok l) ↔
      ∀ c ∈ u.cases, c.hollow? (classes u allowOverlap) = none := by
  refine ⟨fun ⟨l, hl⟩ => (built_of_allocate hl).1, fun h => ?_⟩
  obtain ⟨l, hl, -⟩ := allocate_of_solid h
  exact ⟨l, hl⟩

end Layout

end SumLayout
