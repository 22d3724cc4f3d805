import SumLayout.Input
import SumLayout.Proofs.JoinedNames

/-!
# The first unknown shape

The types that stand in a file are listed here in the order of the file, each with the names that
lead to it (`typesAll`): unions and cases in order, the type that a case wraps before its values,
and the type of a value before its members. Looking shapes up goes through this list. It comes to an
end exactly if every shape is known, and otherwise **the first unknown shape is reported, with the
names that lead to it** (`resolveAll_outcome`).

Each look-up is one look-up and then another, and what is reported by both is what the first one
reports, or else the second (`failure?_bind`). This is what searching two lists put together comes
to, so that the equation of every look-up with its list is a single induction on values.
-/

namespace SumLayout.Input

/-- A type in a file, with the names that lead to it. -/
structure TypeAt where
  /-- The union, the case, and then the values from the parameter down. -/
  names : List String
  type : RawType

namespace TypeAt

/-- The shape of the type is the identifier of some shape. -/
def IsKnown (t : TypeAt) : Prop := ∃ s : Shape, s.name = t.type.shape

/-- What is reported if the shape of the type is unknown. -/
def error (t : TypeAt) : Error := .unknownShape t.type.shape (Text.dotted t.names)

theorem isKnown_iff {t : TypeAt} : t.IsKnown ↔ (Shape.ofName? t.type.shape).isSome = true := by
  constructor
  · rintro ⟨s, hs⟩
    rw [← hs, Shape.ofName?_name]
    rfl
  · intro h
    obtain ⟨s, hs⟩ := Option.isSome_iff_exists.mp h
    exact ⟨s, Shape.name_of_ofName? hs⟩

instance (t : TypeAt) : Decidable t.IsKnown := decidable_of_iff _ isKnown_iff.symm

end TypeAt

/-! ## The types of a file in order -/

namespace RawValue

mutual

/-- The types of a value that lies under the names in `path`. -/
def types (path : List String) : RawValue → List TypeAt
  | ⟨name, type, members⟩ => ⟨path ++ [name], type⟩ :: typesAll (path ++ [name]) members

/-- The types of some values, one value after another. -/
def typesAll (path : List String) : List RawValue → List TypeAt
  | [] => []
  | v :: vs => v.types path ++ typesAll path vs

end

end RawValue

/-- The types of a case: the one that it wraps, if there is one, and those of its values. -/
def RawCase.types (unionName : String) (c : RawCase) : List TypeAt :=
  c.wraps.toList.map (fun t => ⟨[unionName, c.name], t⟩) ++
    RawValue.typesAll [unionName, c.name] c.values

/-- The types of a union, one case after another. -/
def RawUnion.types (u : RawUnion) : List TypeAt := u.cases.flatMap (RawCase.types u.name)

/-- The types of a file, one union after another. -/
def typesAll (us : List RawUnion) : List TypeAt := us.flatMap RawUnion.types

/-- What the first unknown shape among some types reports. -/
def report? (ts : List TypeAt) : Option Error :=
  (ts.find? fun t => ¬t.IsKnown).map TypeAt.error

theorem report?_append (ts ts' : List TypeAt) :
    report? (ts ++ ts') = (report? ts).or (report? ts') := by
  rw [report?, List.find?_append, Option.map_or]
  rfl

theorem report?_eq_some_iff {ts : List TypeAt} {e : Error} : report? ts = some e ↔
    ∃ before t after, ts = before ++ t :: after ∧ (∀ s ∈ before, s.IsKnown) ∧ ¬t.IsKnown ∧
      e = t.error := by
  rw [report?, Option.map_eq_some_iff]
  constructor
  · rintro ⟨t, ht, rfl⟩
    obtain ⟨hunknown, before, after, rfl, hbefore⟩ := List.find?_eq_some_iff_append.mp ht
    exact ⟨before, t, after, rfl, fun s hs => by simpa using hbefore s hs, by simpa using hunknown,
      rfl⟩
  · rintro ⟨before, t, after, rfl, hbefore, hunknown, rfl⟩
    refine ⟨t, List.find?_eq_some_iff_append.mpr ⟨by simpa using hunknown, before, after, rfl, ?_⟩,
      rfl⟩
    intro s hs
    simpa using hbefore s hs

theorem report?_eq_none_iff {ts : List TypeAt} : report? ts = none ↔ ∀ t ∈ ts, t.IsKnown := by
  rw [report?, Option.map_eq_none_iff, List.find?_eq_none]
  simp

/-! ## One look-up after another -/

section Failure

variable {α β γ : Type}

/-- What a look-up reports if it fails. -/
def failure? : Except Error α → Option Error
  | .error e => some e
  | .ok _ => none

theorem failure?_eq_some_iff {r : Except Error α} {e : Error} :
    failure? r = some e ↔ r = .error e := by
  cases r <;> simp [failure?]

theorem failure?_eq_none_iff {r : Except Error α} : failure? r = none ↔ ∃ a, r = .ok a := by
  cases r <;> simp [failure?]

theorem failure?_map (r : Except Error α) (f : α → β) : failure? (r.map f) = failure? r := by
  cases r <;> rfl

/-- **Of two look-ups, the first one that fails is reported.** -/
theorem failure?_bind (r : Except Error α) (s : Except Error β) (f : α → β → γ) :
    failure? (r.bind fun a => s.map (f a)) = (failure? r).or (failure? s) := by
  cases r with
  | error e => rfl
  | ok a => exact failure?_map s (f a)

end Failure

theorem failure?_resolve_type (t : RawType) (names : List String) :
    failure? (t.resolve (Text.dotted names)) = report? [⟨names, t⟩] := by
  rw [RawType.resolve]
  cases h : Shape.ofName? t.shape with
  | none =>
    have hunknown : ¬TypeAt.IsKnown ⟨names, t⟩ := by
      simp [TypeAt.isKnown_iff, h]
    simp [report?, hunknown, failure?, TypeAt.error]
  | some shape =>
    have hknown : TypeAt.IsKnown ⟨names, t⟩ := ⟨shape, Shape.name_of_ofName? h⟩
    simp [report?, hknown, failure?]

namespace RawValue

theorem resolve_eq_bind (context name : String) (type : RawType) (members : List RawValue) :
    resolve context ⟨name, type, members⟩ = (type.resolve (context ++ "." ++ name)).bind fun t =>
      (resolveAll (context ++ "." ++ name) members).map fun ms => ⟨name, t, ms⟩ := by
  rw [resolve]
  cases type.resolve (context ++ "." ++ name) <;> rfl

theorem resolveAll_cons (context : String) (v : RawValue) (vs : List RawValue) :
    resolveAll context (v :: vs)
      = (v.resolve context).bind fun w => (resolveAll context vs).map (w :: ·) := by
  rw [resolveAll]
  cases v.resolve context <;> rfl

/-- The context of a value is its dotted path. -/
theorem dotted_concat {path : List String} (h : path ≠ []) (name : String) :
    Text.dotted path ++ "." ++ name = Text.dotted (path ++ [name]) :=
  Text.joinWith_joinWith_cons h [name]

mutual

theorem failure?_resolve {path : List String} (h : path ≠ []) :
    ∀ v : RawValue, failure? (v.resolve (Text.dotted path)) = report? (v.types path)
  | ⟨name, type, members⟩ => by
    rw [resolve_eq_bind, failure?_bind, dotted_concat h, failure?_resolve_type,
      failure?_resolveAll (List.concat_ne_nil name path) members, ← report?_append, types]
    rfl

theorem failure?_resolveAll {path : List String} (h : path ≠ []) :
    ∀ vs : List RawValue, failure? (resolveAll (Text.dotted path) vs) = report? (typesAll path vs)
  | [] => rfl
  | v :: vs => by
    rw [resolveAll_cons, failure?_bind, failure?_resolve h v, failure?_resolveAll h vs,
      ← report?_append, typesAll]

end

end RawValue

namespace RawCase

theorem failure?_resolveWraps (c : RawCase) (unionName : String) :
    failure? (c.resolveWraps (Text.dotted [unionName, c.name]))
      = report? (c.wraps.toList.map fun t => ⟨[unionName, c.name], t⟩) := by
  rw [resolveWraps]
  cases c.wraps with
  | none => rfl
  | some t => exact (failure?_map _ some).trans (failure?_resolve_type t _)

theorem resolve_eq_bind (c : RawCase) (unionName : String) :
    c.resolve unionName = (c.resolveWraps (Text.dotted [unionName, c.name])).bind fun wraps =>
      (RawValue.resolveAll (Text.dotted [unionName, c.name]) c.values).map fun values =>
        { name := c.name, wraps, tag := c.tag, values, factory := c.factory
          factoryName := c.factoryName, accessor := c.accessor, accessorName := c.accessorName
          accessibility := c.accessibility } := by
  have hcontext : Text.dotted [unionName, c.name] = unionName ++ "." ++ c.name := rfl
  rw [resolve, hcontext]
  cases c.resolveWraps (unionName ++ "." ++ c.name) <;> rfl

theorem failure?_resolve_case (c : RawCase) (unionName : String) :
    failure? (c.resolve unionName) = report? (c.types unionName) := by
  rw [resolve_eq_bind, failure?_bind, failure?_resolveWraps,
    RawValue.failure?_resolveAll (List.cons_ne_nil _ _), ← report?_append, types]

theorem failure?_resolveAll_cases (unionName : String) (cs : List RawCase) :
    failure? (resolveAll unionName cs) = report? (cs.flatMap (types unionName)) := by
  induction cs with
  | nil => rfl
  | cons c cs ih =>
    have hcons : resolveAll unionName (c :: cs)
        = (c.resolve unionName).bind fun d => (resolveAll unionName cs).map (d :: ·) := by
      rw [resolveAll]
      cases c.resolve unionName <;> rfl
    rw [hcons, failure?_bind, failure?_resolve_case, ih, ← report?_append, List.flatMap_cons]

end RawCase

namespace RawUnion

/-- **What looking all shapes up reports is the first unknown shape.** -/
theorem failure?_resolveAll_unions (us : List RawUnion) :
    failure? (resolveAll us) = report? (typesAll us) := by
  induction us with
  | nil => rfl
  | cons u us ih =>
    have hcons : resolveAll (u :: us) = u.resolve.bind fun v => (resolveAll us).map (v :: ·) := by
      rw [resolveAll]
      cases u.resolve <;> rfl
    have hunion : failure? u.resolve = report? u.types :=
      (failure?_map _ _).trans (RawCase.failure?_resolveAll_cases u.name u.cases)
    rw [hcons, failure?_bind, hunion, ih, ← report?_append]
    rfl

/-- **What comes of looking shapes up.** It succeeds exactly if the shape of every type in the file
is known. Otherwise it fails with the first type in the order of the file whose shape is not, and
names the shape and all that leads to it. -/
theorem resolveAll_outcome (us : List RawUnion) :
    ((∃ vs, resolveAll us = .ok vs) ↔ ∀ t ∈ typesAll us, t.IsKnown) ∧
      ∀ e, resolveAll us = .error e ↔ ∃ before t after, typesAll us = before ++ t :: after ∧
        (∀ s ∈ before, s.IsKnown) ∧ ¬t.IsKnown ∧
        e = .unknownShape t.type.shape (Text.dotted t.names) := by
  have hreport := failure?_resolveAll_unions us
  constructor
  · rw [← failure?_eq_none_iff, hreport, report?_eq_none_iff]
  · intro e
    rw [← failure?_eq_some_iff, hreport, report?_eq_some_iff]
    rfl

/-- The member of a value comes before the next value and the next case. -/
example : failure? (resolveAll [{ name := "U", cases := [
      { name := "A", wraps := some { shape := "object" }, values := [
        { name := "p", type := { shape := "non_overlap_safe_tuple" }, members := [
          { name := "x", type := { shape := "primitive" } },
          { name := "y", type := { shape := "blob" } }] },
        { name := "q", type := { shape := "clob" } }] },
      { name := "B", wraps := some { shape := "" } }] }])
    = some (.unknownShape "blob" "U.A.p.y") := rfl

end RawUnion

end SumLayout.Input
