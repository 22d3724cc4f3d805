import SumLayout.Input.Format
import SumLayout.Proofs.InputText
import SumLayout.Proofs.RecordReading
import SumLayout.Proofs.Requests

/-!
# The file format loses nothing

A file is read in two steps: its text into unions whose shapes are still names, and these into
unions. Going backwards, a union has a form with the names of its shapes (`Union.raw`), from which
looking the shapes up gives it back (`resolve_raw`). **Each text that says what some unions are is
read as these unions** (`parse_of_writesBatch`): in whatever order its keys are, with or without the
defaults, with blanks and escapes anywhere, as long as it is nested less than 128 levels deep.
-/

namespace SumLayout

/-! ## Unions before their shapes are looked up -/

open Input

/-- The type with its shape as a name. -/
def ValueType.raw (t : ValueType) : RawType := ⟨t.name, t.shape.name, t.singletonAccessor⟩

namespace Value

mutual

/-- The value with its shapes as names. -/
def raw : Value → RawValue
  | ⟨name, type, members⟩ => ⟨name, type.raw, rawAll members⟩

/-- Some values with their shapes as names. -/
def rawAll : List Value → List RawValue
  | [] => []
  | v :: vs => v.raw :: rawAll vs

end

end Value

/-- The case with its shapes as names. -/
def Case.raw (c : Case) : RawCase :=
  { name := c.name, wraps := c.wraps.map ValueType.raw, tag := c.tag
    values := Value.rawAll c.values, factory := c.factory, factoryName := c.factoryName
    accessor := c.accessor, accessorName := c.accessorName, accessibility := c.accessibility }

/-- The union with its shapes as names, and the name with type parameters as it is written. -/
def Union.raw (u : Union) (typeName : Option String) : RawUnion :=
  { kind := u.kind, name := u.name, typeName, refLike := u.refLike, options := u.options
    cases := u.cases.map Case.raw }

namespace Input

theorem resolve_raw_type (t : ValueType) (context : String) :
    t.raw.resolve context = .ok t := by
  rw [RawType.resolve, ValueType.raw, Shape.ofName?_name]

theorem resolveAll_rawAll (vs : List Value) :
    ∀ context, RawValue.resolveAll context (Value.rawAll vs) = .ok vs := by
  induction vs using Value.forest_induction with
  | nil => exact fun _ => rfl
  | cons name type members vs ihm ih =>
    intro context
    rw [Value.rawAll, Value.raw, RawValue.resolveAll, RawValue.resolve]
    simp only [resolve_raw_type, ihm, ih]
    rfl

theorem resolve_raw_case (c : Case) (unionName : String) :
    c.raw.resolve unionName = .ok c := by
  have hwraps : ∀ context, c.raw.resolveWraps context = .ok c.wraps := by
    intro context
    rw [RawCase.resolveWraps, Case.raw]
    cases c.wraps with
    | none => rfl
    | some t =>
      simp only [Option.map_some, resolve_raw_type]
      rfl
  rw [RawCase.resolve]
  simp only [hwraps]
  simp only [Case.raw, resolveAll_rawAll]
  rfl

theorem resolveAll_raw_cases (cs : List Case) (unionName : String) :
    RawCase.resolveAll unionName (cs.map Case.raw) = .ok cs := by
  induction cs with
  | nil => rfl
  | cons c cs ih =>
    rw [List.map_cons, RawCase.resolveAll, resolve_raw_case, ih]
    rfl

/-- **Looking the shapes up gives the union back.** -/
theorem resolve_raw {u : Union} {typeName : Option String}
    (h : typeName.getD u.name = u.typeName) : (u.raw typeName).resolve = .ok u := by
  rw [RawUnion.resolve, Union.raw, resolveAll_raw_cases]
  simp only [h]
  rfl

/-! ## Values without parts -/

open Json

variable {depth : Nat} {j : Tree}

theorem reads_writesString {x : String} (h : WritesString x j) : j ≠ .null ∧ Reads string j x := by
  cases h
  exact ⟨by simp, reads_string x⟩

theorem reads_writesBool {b : Bool} (h : WritesBool b j) : j ≠ .null ∧ Reads bool j b := by
  cases h
  exact ⟨by simp, reads_bool b⟩

theorem reads_writesWord {n : UInt32} (h : WritesWord n j) : j ≠ .null ∧ Reads word j n := by
  cases h
  exact ⟨by simp, reads_word n⟩

theorem reads_writesName {β : Type} {variants : List (String × β)} {name : String} {x : β}
    (hx : variants.lookup name = some x) (h : WritesString name j) :
    j ≠ .null ∧ Reads (enum depth variants) j x := by
  cases h
  exact ⟨by simp, reads_enum depth hx⟩

/-- A field that may be null takes a part if it reads it and, if it is null, leaves the default. -/
theorem takes_orNull {ρ β : Type} {r : Record ρ} {collected : List String → ρ} {item : Reader β}
    {put : Option β → ρ → ρ} {key : String} {isDefault : Prop} {writes : Tree → Prop} {x : β}
    (hfind : r.entries.find? (·.key == key) = some (.defaulted key (optional item) put))
    (hread : ∀ j, writes j → j ≠ .null ∧ Reads item j x)
    (hsome : ∀ seen, put (some x) (collected seen) = collected (key :: seen))
    (hnone : isDefault → ∀ seen, put none (collected seen) = collected (key :: seen)) :
    r.Takes depth collected (.orNull key isDefault writes) := by
  refine Record.takes_defaulted hfind fun j hj _ => ?_
  rcases hj with hw | ⟨hdefault, rfl⟩
  · obtain ⟨hne, hitem⟩ := hread j hw
    exact ⟨some x, reads_optional hitem hne, hsome⟩
  · exact ⟨none, reads_optional_null item, hnone hdefault⟩

/-- A part that may be missing is read as its value or as nothing. -/
theorem reads_option {α β : Type} {item : Reader β} (f : α → β) {writes : α → Tree → Prop}
    {x : Option α} (h : ∀ a, writes a j → j ≠ .null ∧ Reads item j (f a))
    {key : String} (hj : (Part.option key writes x).writes j) :
    Reads (optional item) j (x.map f) := by
  rcases hj with ⟨a, rfl, hw⟩ | ⟨rfl, rfl⟩
  · obtain ⟨hne, hread⟩ := h a hw
    exact reads_optional hread hne
  · exact reads_optional_null item

theorem reads_optionString {key : String} {x : Option String}
    (hj : (Part.option key WritesString x).writes j) : Reads (optional string) j x := by
  have hread := reads_option id (fun _ => reads_writesString) hj
  rwa [Option.map_id] at hread

/-! ## Types and values -/

/-- What has been read of a type. -/
def collectedType (t : ValueType) (seen : List String) : RawType where
  name := pick seen "name" t.name ""
  shape := pick seen "shape" t.shape.name ""
  singletonAccessor := pick seen "singleton_accessor" t.singletonAccessor none

theorem collects_type (t : ValueType) :
    typeRecord.Collects depth (typeParts t) (collectedType t) t.raw where
  blank := rfl
  entry := by
    simp only [typeParts, List.mem_cons, List.not_mem_nil, or_false, forall_eq_or_imp, forall_eq]
    refine ⟨Record.takes_required rfl fun j hj _ => ⟨_, (reads_writesString hj).2, fun seen => ?_⟩,
      Record.takes_required rfl fun j hj _ => ⟨_, (reads_writesString hj).2, fun seen => ?_⟩,
      Record.takes_defaulted rfl fun j hj _ => ⟨_, reads_optionString hj, fun seen => ?_⟩⟩
    all_goals simp [collectedType, pick, Part.always, Part.option, Part.orNull]
  required := by
    simp [typeRecord, typeParts, Entry.required, Entry.defaulted, Part.always]
  whole := by
    intro seen h
    simp only [typeParts, Part.always, Part.option, Part.orNull, List.mem_cons, List.not_mem_nil,
      or_false, forall_eq_or_imp, forall_eq] at h
    obtain ⟨hname, hshape, haccessor⟩ := h
    rw [collectedType, pick_eq hname False.elim, pick_eq hshape False.elim,
      pick_eq haccessor Eq.symm]
    rfl

theorem reads_writesType {t : ValueType} (h : WritesType t j) (hd : j.depth < depth) :
    Reads (typeRecord.read depth) j t.raw :=
  (collects_type t).reads h hd

/-- What has been read of a value. -/
def collectedValue (v : Value) (seen : List String) : RawValue where
  name := pick seen "name" v.name ""
  type := pick seen "type" v.type.raw {}
  members := pick seen "members" (Value.rawAll v.members) []

theorem collects_value {name : String} {type : ValueType} {members : List Value}
    {item : Reader (List RawValue)} (h : ∀ js, WritesValues members js →
      (Tree.list js).depth < depth → Reads item (.list js) (Value.rawAll members)) :
    (valueRecord depth item).Collects depth
      [.always "name" (WritesString name), .always "type" (WritesType type),
       .orLeftOut "members" (members = []) fun j => ∃ js, j = .list js ∧ WritesValues members js]
      (collectedValue ⟨name, type, members⟩) (Value.raw ⟨name, type, members⟩) where
  blank := rfl
  entry := by
    simp only [List.mem_cons, List.not_mem_nil, or_false, forall_eq_or_imp, forall_eq]
    refine ⟨Record.takes_required rfl fun j hj _ => ⟨_, (reads_writesString hj).2, fun seen => ?_⟩,
      Record.takes_required rfl fun j hj hd => ⟨_, reads_writesType hj hd, fun seen => ?_⟩,
      Record.takes_defaulted rfl fun j hj hd => ?_⟩
    · simp [collectedValue, pick, Part.always]
    · simp [collectedValue, pick, Part.always]
    · obtain ⟨js, rfl, hjs⟩ := hj
      refine ⟨_, h js hjs hd, fun seen => ?_⟩
      simp [collectedValue, pick, Part.orLeftOut]
  required := by
    simp [valueRecord, Entry.required, Entry.defaulted, Part.always]
  whole := by
    intro seen h
    simp only [Part.always, Part.orLeftOut, List.mem_cons, List.not_mem_nil, or_false,
      forall_eq_or_imp, forall_eq] at h
    obtain ⟨hname, htype, hmembers⟩ := h
    rw [collectedValue, pick_eq hname False.elim, pick_eq htype False.elim,
      pick_eq hmembers fun hm => by rw [hm]; rfl, Value.raw]

/-- **Values are read from each way of writing them**, one level of values for each two levels of
nesting. -/
theorem reads_values (vs : List Value) : ∀ {js : List Tree} {depth : Nat},
    WritesValues vs js → (∀ j ∈ js, j.depth < depth) →
    List.Forall₂ (Reads (value depth)) js (Value.rawAll vs) := by
  induction vs using Value.forest_induction with
  | nil =>
    rintro js depth rfl -
    exact .nil
  | cons name type members vs ihm ih =>
    rintro js depth ⟨k, ks, rfl, hk, hks⟩ hd
    obtain ⟨hdk, hdks⟩ := List.forall_mem_cons.mp hd
    rw [Value.rawAll]
    refine .cons ?_ (ih hks hdks)
    rw [WritesValue] at hk
    match depth with
    | depth + 2 =>
      rw [value]
      refine Record.Collects.reads (collects_value fun js hjs hdepth => ?_) hk hdk
      rw [Tree.depth] at hdepth
      refine reads_list (by omega) (ihm hjs fun j hj => ?_)
      have hle := Tree.depth_le_depthItems hj
      omega
    | 0 => exact absurd hdk (by omega)
    | 1 =>
      obtain ⟨fields, rfl, -⟩ := hk
      rw [Tree.depth] at hdk
      omega

theorem writesValues_iff {vs : List Value} : ∀ {js : List Tree},
    WritesValues vs js ↔ List.Forall₂ WritesValue vs js := by
  induction vs with
  | nil =>
    intro js
    rw [WritesValues, List.forall₂_nil_left_iff]
  | cons v vs ih =>
    intro js
    rw [WritesValues, List.forall₂_cons_left_iff]
    simp only [ih]
    constructor
    · rintro ⟨k, ks, rfl, hk, hks⟩
      exact ⟨k, ks, hk, hks, rfl⟩
    · rintro ⟨k, ks, hk, hks, rfl⟩
      exact ⟨k, ks, rfl, hk, hks⟩

/-! ## Lists -/

/-- The items of a list are nested less deeply than the list. -/
theorem depth_lt_of_mem {js : List Tree} (hd : (Tree.list js).depth < depth) :
    2 ≤ depth ∧ ∀ j ∈ js, j.depth < depth - 1 := by
  rw [Tree.depth] at hd
  refine ⟨by omega, fun j hj => ?_⟩
  have hle := Tree.depth_le_depthItems hj
  omega

theorem reads_listValues {vs : List Value} (hj : WritesList WritesValue vs j)
    (hd : j.depth < depth) : Reads (list depth (value (depth - 1))) j (Value.rawAll vs) := by
  obtain ⟨js, rfl, hjs⟩ := hj
  obtain ⟨hdepth, hitems⟩ := depth_lt_of_mem hd
  exact reads_list hdepth (reads_values vs (writesValues_iff.mpr hjs) hitems)

/-! ## Cases -/

theorem lookup_factoryNames (f : FactoryKind) : factoryNames.lookup f.name = some f := by
  cases f <;> rfl

theorem lookup_accessorNames (a : AccessorKind) : accessorNames.lookup a.name = some a := by
  cases a <;> rfl

theorem lookup_unionNames (k : UnionKind) : unionNames.lookup k.name = some k := by
  cases k <;> rfl

/-- What has been read of a case. -/
def collectedCase (c : Case) (seen : List String) : RawCase where
  name := pick seen "name" c.name ""
  wraps := pick seen "type" (c.wraps.map ValueType.raw) none
  tag := pick seen "tag" c.tag none
  values := pick seen "values" (Value.rawAll c.values) []
  factory := pick seen "factory" c.factory .method
  factoryName := pick seen "factory_name" c.factoryName none
  accessor := pick seen "accessor" c.accessor .property
  accessorName := pick seen "accessor_name" c.accessorName none
  accessibility := pick seen "accessibility" c.accessibility none

theorem reads_optionWord {key : String} {x : Option UInt32}
    (hj : (Part.option key WritesWord x).writes j) : Reads (optional word) j x := by
  have hread := reads_option id (fun _ => reads_writesWord) hj
  rwa [Option.map_id] at hread

theorem reads_optionType {key : String} {t : Option ValueType} (hd : j.depth < depth)
    (hj : (Part.option key WritesType t).writes j) :
    Reads (optional (typeRecord.read depth)) j (t.map ValueType.raw) := by
  refine reads_option ValueType.raw (fun t ht => ⟨?_, reads_writesType ht hd⟩) hj
  obtain ⟨fields, rfl, -⟩ := ht
  simp

theorem collects_case (c : Case) :
    (caseRecord depth).Collects depth (caseParts c) (collectedCase c) c.raw where
  blank := rfl
  entry := by
    simp only [caseParts, List.mem_cons, List.not_mem_nil, or_false, forall_eq_or_imp, forall_eq]
    refine ⟨Record.takes_required rfl fun j hj _ => ⟨_, (reads_writesString hj).2, fun seen => ?_⟩,
      Record.takes_defaulted rfl fun j hj hd => ⟨_, reads_optionType hd hj, fun seen => ?_⟩,
      Record.takes_defaulted rfl fun j hj _ => ⟨_, reads_optionWord hj, fun seen => ?_⟩,
      Record.takes_defaulted rfl fun j hj hd => ⟨_, reads_listValues hj hd, fun seen => ?_⟩,
      takes_orNull rfl (fun j => reads_writesName (lookup_factoryNames c.factory)) ?_ ?_,
      Record.takes_defaulted rfl fun j hj _ => ⟨_, reads_optionString hj, fun seen => ?_⟩,
      takes_orNull rfl (fun j => reads_writesName (lookup_accessorNames c.accessor)) ?_ ?_,
      Record.takes_defaulted rfl fun j hj _ => ⟨_, reads_optionString hj, fun seen => ?_⟩,
      Record.takes_defaulted rfl fun j hj _ => ⟨_, reads_optionString hj, fun seen => ?_⟩⟩
    all_goals
      simp +contextual [collectedCase, pick, Part.always, Part.option, Part.orNull, Part.orLeftOut]
  required := by
    simp [caseRecord, caseParts, Entry.required, Entry.defaulted, Part.always]
  whole := by
    intro seen h
    simp only [caseParts, Part.always, Part.option, Part.orNull, Part.orLeftOut, List.mem_cons,
      List.not_mem_nil, or_false, forall_eq_or_imp, forall_eq] at h
    obtain ⟨hname, htype, htag, hvalues, hfactory, hfactoryName, haccessor, haccessorName,
      haccessibility⟩ := h
    rw [collectedCase, pick_eq hname False.elim, pick_eq htype fun h => by rw [h]; rfl,
      pick_eq htag Eq.symm, pick_eq hvalues fun h => by rw [h]; rfl, pick_eq hfactory Eq.symm,
      pick_eq hfactoryName Eq.symm, pick_eq haccessor Eq.symm, pick_eq haccessorName Eq.symm,
      pick_eq haccessibility Eq.symm, Case.raw]

/-! ## Options -/

theorem key_ofKey? (t : Toggle) : Toggle.ofKey? t.key = some t := by
  cases t <;> rfl

theorem toggle_key_inj {t t' : Toggle} (h : t.key = t'.key) : t = t' := by
  have hsome := key_ofKey? t
  rw [h, key_ofKey?] at hsome
  exact (Option.some.inj hsome).symm

/-- What has been read of an option set. -/
def collectedOptions (o : Options) (seen : List String) : Options where
  toFlags := Flags.ofFn fun t => pick seen t.key (o.get t) (Flags.get {} t)
  tagTypeName := pick seen "tag_type_name" o.tagTypeName "Case"
  tagPropertyName := pick seen "tag_property_name" o.tagPropertyName "Kind"

/-- Seeing the key of a toggle sets the toggle. -/
theorem collectedOptions_key (o : Options) (t : Toggle) (seen : List String) :
    collectedOptions o (t.key :: seen) = (collectedOptions o seen).set t (o.get t) := by
  have htype : "tag_type_name" ≠ t.key := by cases t <;> decide
  have hproperty : "tag_property_name" ≠ t.key := by cases t <;> decide
  have hflags : (collectedOptions o (t.key :: seen)).toFlags
      = (collectedOptions o seen).toFlags.set t (o.get t) := by
    ext u
    rw [Flags.get_set, collectedOptions, collectedOptions, Flags.get_ofFn, Flags.get_ofFn]
    split
    · next hu => rw [hu, pick_cons_self]
    · next hu => exact pick_cons_of_ne (fun he => hu (toggle_key_inj he)) _ _ _
  rw [Options.set, ← hflags, collectedOptions, collectedOptions, pick_cons_of_ne htype,
    pick_cons_of_ne hproperty]

theorem takes_toggle (o : Options) (t : Toggle) :
    optionsRecord.Takes depth (collectedOptions o) (togglePart o t) := by
  have hfind : optionsRecord.entries.find? (·.key == (togglePart o t).key)
      = some (toggleEntry t) := by
    cases t <;> rfl
  refine takes_orNull hfind (fun j => reads_writesBool)
    (fun seen => (collectedOptions_key o t seen).symm) fun hdefault seen => ?_
  -- nothing is set, and the toggle has its default already
  have hget : (collectedOptions o seen).get t = o.get t := by
    rw [collectedOptions, Flags.get_ofFn, pick, ← hdefault, ite_self]
  have hset : (collectedOptions o seen).toFlags.set t (o.get t)
      = (collectedOptions o seen).toFlags := by
    ext u
    rw [Flags.get_set, ← hget]
    split
    · next hu => rw [hu]
    · rfl
  exact ((collectedOptions_key o t seen).trans (by rw [Options.set, hset])).symm

theorem collects_options (o : Options) :
    optionsRecord.Collects depth (optionsParts o) (collectedOptions o) o where
  blank := rfl
  entry := by
    rw [optionsParts, List.forall_mem_append]
    constructor
    · intro p hp
      obtain ⟨t, -, rfl⟩ := List.mem_map.mp hp
      exact takes_toggle o t
    · simp only [List.mem_cons, List.not_mem_nil, or_false, forall_eq_or_imp, forall_eq]
      have hne : ∀ t : Toggle, t.key ≠ "tag_type_name" ∧ t.key ≠ "tag_property_name" := by
        intro t
        cases t <;> decide
      refine ⟨takes_orNull rfl (fun j => reads_writesString) ?_ ?_,
        takes_orNull rfl (fun j => reads_writesString) ?_ ?_⟩
      all_goals simp +contextual [collectedOptions, pick, hne]
  required := by
    intro e he hr
    rw [optionsRecord, List.mem_append] at he
    rcases he with he | he
    · obtain ⟨t, -, rfl⟩ := List.mem_map.mp he
      exact absurd hr (by simp [toggleEntry, Entry.defaulted])
    · simp only [List.mem_cons, List.not_mem_nil, or_false] at he
      rcases he with rfl | rfl <;> exact absurd hr (by simp [Entry.defaulted])
  whole := by
    intro seen h
    rw [optionsParts, List.forall_mem_append] at h
    obtain ⟨htoggles, hnames⟩ := h
    simp only [Part.orNull, List.mem_cons, List.not_mem_nil, or_false, forall_eq_or_imp,
      forall_eq] at hnames
    obtain ⟨htype, hproperty⟩ := hnames
    have hflags : (Flags.ofFn fun t => pick seen t.key (o.get t) (Flags.get {} t)) = o.toFlags := by
      ext t
      have ht : t ∈ Toggle.all := by cases t <;> decide
      rw [Flags.get_ofFn]
      exact pick_eq (htoggles _ (List.mem_map_of_mem ht)) Eq.symm
    rw [collectedOptions, hflags, pick_eq htype Eq.symm, pick_eq hproperty Eq.symm]

/-! ## Unions -/

/-- What has been read of a union. -/
def collectedUnion (u : Union) (typeName : Option String) (seen : List String) : RawUnion where
  kind := pick seen "kind" u.kind .tags
  name := pick seen "name" u.name ""
  typeName := pick seen "type_name" typeName none
  refLike := pick seen "ref_like" u.refLike false
  options := pick seen "options" u.options {}
  cases := pick seen "cases" (u.cases.map Case.raw) []

theorem reads_listCases {cs : List Case} (hj : WritesList WritesCase cs j) (hd : j.depth < depth) :
    Reads (list depth ((caseRecord (depth - 2)).read (depth - 1))) j (cs.map Case.raw) := by
  obtain ⟨js, rfl, hjs⟩ := hj
  obtain ⟨hdepth, hitems⟩ := depth_lt_of_mem hd
  refine reads_list hdepth ?_
  rw [List.forall₂_map_right_iff]
  clear hd
  induction hjs with
  | nil => exact .nil
  | cons hc _ ih =>
    obtain ⟨hk, hks⟩ := List.forall_mem_cons.mp hitems
    exact .cons ((collects_case _).reads hc hk) (ih hks)

theorem collects_union (u : Union) (typeName : Option String) :
    (unionRecord depth).Collects depth (unionParts u typeName) (collectedUnion u typeName)
      (u.raw typeName) where
  blank := rfl
  entry := by
    simp only [unionParts, List.mem_cons, List.not_mem_nil, or_false, forall_eq_or_imp, forall_eq]
    refine ⟨Record.takes_required rfl fun j hj _ =>
        ⟨_, (reads_writesName (lookup_unionNames u.kind) hj).2, fun seen => ?_⟩,
      Record.takes_required rfl fun j hj _ => ⟨_, (reads_writesString hj).2, fun seen => ?_⟩,
      Record.takes_defaulted rfl fun j hj _ => ⟨_, reads_optionString hj, fun seen => ?_⟩,
      Record.takes_defaulted rfl fun j hj _ => ⟨_, (reads_writesBool hj).2, fun seen => ?_⟩,
      Record.takes_defaulted rfl fun j hj hd =>
        ⟨_, (collects_options u.options).reads hj hd, fun seen => ?_⟩,
      Record.takes_defaulted rfl fun j hj hd => ⟨_, reads_listCases hj hd, fun seen => ?_⟩⟩
    all_goals
      simp [collectedUnion, pick, Part.always, Part.option, Part.orNull, Part.orLeftOut]
  required := by
    simp [unionRecord, unionParts, Entry.required, Entry.defaulted, Part.always]
  whole := by
    intro seen h
    simp only [unionParts, Part.always, Part.option, Part.orNull, Part.orLeftOut, List.mem_cons,
      List.not_mem_nil, or_false, forall_eq_or_imp, forall_eq] at h
    obtain ⟨hkind, hname, htype, href, hoptions, hcases⟩ := h
    rw [collectedUnion, pick_eq hkind False.elim, pick_eq hname False.elim, pick_eq htype Eq.symm,
      pick_eq href Eq.symm, pick_eq hoptions Eq.symm, pick_eq hcases fun h => by rw [h]; rfl,
      Union.raw]

/-- **Unions are read from each way of writing them**, up to looking their shapes up. -/
theorem exists_reads_unions {us : List Union} {js : List Tree}
    (h : List.Forall₂ WritesUnion us js) (hd : ∀ j ∈ js, j.depth < depth - 1) :
    ∃ raws, List.Forall₂ (Reads ((unionRecord (depth - 2)).read (depth - 1))) js raws ∧
      RawUnion.resolveAll raws = .ok us := by
  induction h with
  | nil => exact ⟨[], .nil, rfl⟩
  | @cons u j us js hu _ ih =>
    obtain ⟨hk, hks⟩ := List.forall_mem_cons.mp hd
    obtain ⟨raws, hreads, hresolve⟩ := ih hks
    obtain ⟨typeName, hname, hu⟩ := hu
    refine ⟨u.raw typeName :: raws, .cons ((collects_union u typeName).reads hu hk) hreads, ?_⟩
    rw [RawUnion.resolveAll, resolve_raw hname, hresolve]
    rfl

/-! ## Files -/

theorem collects_batch {raws : List RawUnion}
    (h : Reads (list depth ((unionRecord (depth - 2)).read (depth - 1))) j raws) :
    (batchRecord depth).Collects depth [.always "unions" (· = j)]
      (fun seen => pick seen "unions" raws []) raws where
  blank := rfl
  entry := by
    simp only [List.mem_cons, List.not_mem_nil, or_false, forall_eq]
    refine Record.takes_required rfl fun j hj hd => ⟨raws, hj ▸ h, fun seen => ?_⟩
    simp [pick, Part.always]
  required := by
    simp [batchRecord, Entry.required, Part.always]
  whole := by
    intro seen h
    simp only [Part.always, List.mem_cons, List.not_mem_nil, or_false, forall_eq] at h
    exact pick_eq h False.elim

/-- A text is read to its end. -/
theorem document_of_isText {α : Type} {r : Reader α} {x : α} {s : List Char} (h : Reads r j x)
    (hs : IsText s j) : document r s = .ok x := by
  obtain ⟨s₁, s₂, hb, hw, hb'⟩ := hs
  have hends : Ends s₂ := hb'.ends (by rintro c ⟨⟩)
  have hskip : skipBlanks s₂ = [] := hb'.skip (by rintro c ⟨⟩)
  rw [document, (h s s₁ s₂ hb hw hends).1]
  simp [hskip]

/-- **The file format loses nothing.** Each text that says what some unions are is read as these
unions, in whatever order its keys are, with or without the parts that have their defaults, with
blanks and escapes anywhere, if fewer than 128 lists and objects are nested in each other. -/
theorem parse_of_writesBatch {us : List Union} {text : String} (hj : WritesBatch us j)
    (ht : IsText text.toList j) (hd : j.depth < 128) : parse text = .ok us := by
  obtain ⟨k, rfl, js, rfl, hjs⟩ := hj
  have hlist : (Tree.list js).depth < 127 := by
    rw [Tree.depth, Tree.depthFields, Tree.depthFields, Nat.max_zero] at hd
    omega
  obtain ⟨hdepth, hitems⟩ := depth_lt_of_mem hlist
  obtain ⟨raws, hreads, hresolve⟩ := exists_reads_unions hjs hitems
  have hbatch : (Tree.object [("unions", .list js)]).IsRecord
      [.always "unions" (· = .list js)] := by
    refine ⟨_, rfl, ?_, ?_, ?_⟩ <;> simp [Part.always]
  have hraw : readRaw text = .ok raws :=
    document_of_isText ((collects_batch (reads_list hdepth hreads)).reads hbatch hd) ht
  rw [parse, hraw]
  exact hresolve

/-- A file with its keys out of order, a null, and without most of the defaults. -/
def sampleTree : Tree :=
  .object [("unions", .list [.object [
    ("name", .string "Größe"),
    ("options", .object [("overlap_structs", .bool false)]),
    ("kind", .string "tag_union"),
    ("cases", .list [.object [
      ("tag", .number 71),
      ("name", .string "\"A\""),
      ("type", .null),
      ("values", .list [.object [
        ("type", .object [("shape", .string "primitive"), ("name", .string "int")]),
        ("name", .string "x")]])]])]])]

/-- The union that the file declares. -/
def sampleUnion : Union where
  kind := .tags
  name := "Größe"
  typeName := "Größe"
  options := Options.set {} .overlapStructs false
  cases := [{ name := "\"A\"", tag := some 71, values := [{ name := "x", type := .int }] }]

theorem writesType_sample : WritesType .int
    (.object [("shape", .string "primitive"), ("name", .string "int")]) := by
  refine ⟨_, rfl, by simp, ?_, ?_⟩
  · simp [typeParts, Part.always, WritesString, ValueType.int, ValueType.primitive, Shape.name]
  · simp [typeParts, Part.always, Part.option, Part.orNull, ValueType.int, ValueType.primitive]

theorem writesValue_sample : WritesValue { name := "x", type := .int } (.object
    [("type", .object [("shape", .string "primitive"), ("name", .string "int")]),
      ("name", .string "x")]) := by
  rw [WritesValue]
  refine ⟨_, rfl, by simp, ?_, ?_⟩
  · simp [Part.always, WritesString, writesType_sample]
  · simp [Part.always, Part.orLeftOut]

theorem writesCase_sample :
    WritesCase { name := "\"A\"", tag := some 71, values := [{ name := "x", type := .int }] }
      (.object [("tag", .number 71), ("name", .string "\"A\""), ("type", .null),
        ("values", .list [.object
          [("type", .object [("shape", .string "primitive"), ("name", .string "int")]),
            ("name", .string "x")]])]) := by
  refine ⟨_, rfl, by simp, ?_, ?_⟩
  · simp [caseParts, Part.always, Part.option, Part.orNull, Part.orLeftOut, WritesString,
      WritesWord, WritesList, writesValue_sample]
  · simp [caseParts, Part.always, Part.option, Part.orNull, Part.orLeftOut]

theorem writesOptions_sample : WritesOptions (Options.set {} .overlapStructs false)
    (.object [("overlap_structs", .bool false)]) := by
  refine ⟨_, rfl, by simp, ?_, ?_⟩
  · simp [optionsParts, togglePart, Toggle.all, Toggle.key, Part.orNull, WritesBool, Options.set,
      Flags.get_set]
  · simp [optionsParts, togglePart, Toggle.all, Toggle.key, Part.orNull, Options.set, Flags.get_set]

theorem writesBatch_sample : WritesBatch [sampleUnion] sampleTree := by
  refine ⟨_, rfl, _, rfl, .cons ⟨none, rfl, _, rfl, by simp, ?_, ?_⟩ .nil⟩
  · simp [unionParts, Part.always, Part.option, Part.orNull, Part.orLeftOut, WritesString,
      WritesList, sampleUnion, UnionKind.name, writesOptions_sample, writesCase_sample]
  · simp [unionParts, Part.always, Part.option, Part.orNull, Part.orLeftOut, sampleUnion]

theorem parse_sample : WritesBatch [sampleUnion] sampleTree ∧
    IsText (String.ofList sampleTree.text).toList sampleTree ∧ sampleTree.depth < 128 ∧
    parse (String.ofList sampleTree.text) = .ok [sampleUnion] := by
  have ht : IsText (String.ofList sampleTree.text).toList sampleTree := by
    rw [String.toList_ofList]
    exact isText_text sampleTree
  have hd : sampleTree.depth < 128 := by decide
  exact ⟨writesBatch_sample, ht, hd, parse_of_writesBatch writesBatch_sample ht hd⟩

end Input

end SumLayout
