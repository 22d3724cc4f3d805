import SumLayout.Proofs.JsonReading

/-!
# Records are read from objects

The fields of an object come in any order, and some may be missing. What has been read of a record
therefore depends on which keys have been seen, and not on their order: it has the values of those
fields and the defaults of all others. Given as a function of the keys (`Record.Collects`), that
record is blank before any key, takes in one more key with each field, and is the whole record once
nothing is missing but defaults. **A record is then read from each way of writing it**
(`Record.Collects.reads`).
-/

namespace SumLayout.Json

variable {ρ β : Type} {s s' t : List Char}

/-- The value of a field whose key has been seen, and a default otherwise. -/
def pick (seen : List String) (key : String) (written default : β) : β :=
  if key ∈ seen then written else default

@[simp] theorem pick_cons_self (seen : List String) (key : String) (written default : β) :
    pick (key :: seen) key written default = written := by
  simp [pick]

theorem pick_cons_of_ne {key other : String} (h : key ≠ other) (seen : List String)
    (written default : β) :
    pick (other :: seen) key written default = pick seen key written default := by
  simp [pick, h]

/-- A default may be missing. -/
theorem pick_eq {seen : List String} {key : String} {written default : β} {isDefault : Prop}
    (h : isDefault ∨ key ∈ seen) (hd : isDefault → default = written) :
    pick seen key written default = written := by
  rw [pick]
  split
  · rfl
  · next hno => exact hd (h.resolve_right hno)

/-- A field begins with the quote of its key. -/
theorem FieldWritten.first {f : String × Tree} (h : FieldWritten Written s f t) :
    ∃ start, s = '"' :: start := by
  cases h with
  | field => exact ⟨_, rfl⟩

namespace Record

/-- The record has an entry for the part, whose reader takes the part into what has been read so
far. What is written of the part is nested less deeply than `depth`. -/
def Takes (r : Record ρ) (depth : Nat) (collected : List String → ρ) (p : Part) : Prop :=
  ∃ e, r.entries.find? (·.key == p.key) = some e ∧ ∀ j, p.writes j → j.depth < depth →
    ∃ put, Reads e.read j put ∧ ∀ seen, put (collected seen) = collected (p.key :: seen)

/-- While the parts of a record are read by `r`, what has been read so far is told by the keys seen,
and in the end it is `x`. -/
structure Collects (r : Record ρ) (depth : Nat) (parts : List Part) (collected : List String → ρ)
    (x : ρ) : Prop where
  blank : collected [] = r.blank
  entry : ∀ p ∈ parts, r.Takes depth collected p
  required : ∀ e ∈ r.entries, e.isRequired = true → ∃ p ∈ parts, p.key = e.key ∧ ¬p.isDefault
  whole : ∀ seen, (∀ p ∈ parts, p.isDefault ∨ p.key ∈ seen) → collected seen = x

variable {r : Record ρ} {depth : Nat} {parts : List Part} {collected : List String → ρ} {x : ρ}
  {fields : List (String × Tree)} {seen : List String}

theorem reads_put {e : Entry ρ} {item : Reader β} {put : β → ρ → ρ} {j : Tree} {b : β}
    (he : e.read = fun s => (item s).map fun b => (put b.1, b.2)) (h : Reads item j b) :
    Reads e.read j (put b) := by
  intro s s' t hb hw ht
  obtain ⟨hread, hlt⟩ := h s s' t hb hw ht
  rw [he]
  simp only [hread]
  exact ⟨rfl, hlt⟩

section Takes

variable {p : Part} {item : Reader β} {put : β → ρ → ρ}

/-- A required field takes a part if it reads it and puts it in its place. -/
theorem takes_required (hfind : r.entries.find? (·.key == p.key) = some (.required p.key item put))
    (h : ∀ j, p.writes j → j.depth < depth →
      ∃ b, Reads item j b ∧ ∀ seen, put b (collected seen) = collected (p.key :: seen)) :
    r.Takes depth collected p := by
  refine ⟨_, hfind, fun j hj hd => ?_⟩
  obtain ⟨b, hreads, hput⟩ := h j hj hd
  exact ⟨put b, reads_put rfl hreads, hput⟩

/-- A field that can be left out takes a part if it reads it and puts it in its place. -/
theorem takes_defaulted
    (hfind : r.entries.find? (·.key == p.key) = some (.defaulted p.key item put))
    (h : ∀ j, p.writes j → j.depth < depth →
      ∃ b, Reads item j b ∧ ∀ seen, put b (collected seen) = collected (p.key :: seen)) :
    r.Takes depth collected p := by
  refine ⟨_, hfind, fun j hj hd => ?_⟩
  obtain ⟨b, hreads, hput⟩ := h j hj hd
  exact ⟨put b, reads_put rfl hreads, hput⟩

end Takes

theorem nextKey_first {s₁ : List Char} (h : Blanks s ('"' :: s₁)) :
    nextKey true s = .ok (some s₁) := by
  rw [nextKey, skipBlanks_of_token h (by decide)]
  rfl

theorem nextKey_comma {s₁ s₂ : List Char} (h : Blanks s (',' :: s₁)) (h' : Blanks s₁ ('"' :: s₂)) :
    nextKey false s = .ok (some s₂) := by
  simp [nextKey, skipBlanks_of_token h (by decide), skipBlanks_of_token h' (by decide)]

/-- **A field is read from each way of writing it.** -/
theorem Collects.readField (h : r.Collects depth parts collected x) {f : String × Tree}
    (hf : ∃ p ∈ parts, p.key = f.1 ∧ p.writes f.2) (hd : f.2.depth < depth) (hs : f.1 ∉ seen)
    (hw : FieldWritten Written ('"' :: s) f t) (ht : Ends t) :
    ∃ put, r.readField seen s = .ok ((f.1, put), t) ∧ t.length < s.length ∧
      ∀ seen, put (collected seen) = collected (f.1 :: seen) := by
  cases hw with
  | @field key s s₁ s₂ s₃ t j chars blanks blanks' value =>
    obtain ⟨p, hp, rfl, hwrites⟩ := hf
    obtain ⟨e, he, hread⟩ := h.entry p hp
    obtain ⟨put, hput, hcollected⟩ := hread j hwrites hd
    obtain ⟨hvalue, hlt⟩ := hput s₂ s₃ t blanks' value ht
    have hentry : r.entry seen p.key = .ok e := by
      rw [Record.entry, he]
      simp [hs]
    have hcolon : colon s₁ = .ok s₂ := by
      rw [colon, skipBlanks_of_token blanks (by decide)]
      rfl
    refine ⟨put, ?_, ?_, hcollected⟩
    · rw [Record.readField]
      simp only [readStringBody_of_written chars, hentry, hcolon, hvalue, bind, Except.bind]
      rfl
    · have hchars := (readChars_of_written chars).2
      have hlen := blanks.length_le
      have hlen' := blanks'.length_le
      rw [List.length_cons] at hlen
      omega

/-- An object may be closed once nothing is missing but defaults. -/
theorem Collects.finish (h : r.Collects depth parts collected x)
    (hall : ∀ p ∈ parts, p.isDefault ∨ p.key ∈ seen) {a : ρ} (hs : Blanks s ('\x7d' :: t)) :
    r.finish seen a s = .ok (a, t) := by
  have hmissing : r.missing? seen = none := by
    rw [missing?, List.find?_eq_none]
    intro e he hno
    rw [Bool.and_eq_true, Bool.not_eq_true', List.contains_eq_mem, decide_eq_false_iff_not] at hno
    obtain ⟨p, hp, hkey, hwritten⟩ := h.required e he hno.1
    exact hno.2 (hkey ▸ (hall p hp).resolve_left hwritten)
  have hclose : closeObject s = .ok t := by
    rw [closeObject, skipBlanks_of_token hs (by decide)]
    rfl
  rw [Record.finish, hmissing]
  simp only [hclose]
  rfl

theorem readFields_close {isFirst : Bool} {a : ρ} (hs : Blanks s ('\x7d' :: t)) :
    r.readFields isFirst seen a s = r.finish seen a s := by
  have hnext : nextKey isFirst s = .ok none := by
    rw [nextKey, skipBlanks_of_token hs (by decide)]
    rfl
  rw [readFields, hnext]

theorem readFields_field {isFirst : Bool} {a : ρ} {start rest : List Char} {key : String}
    {put : ρ → ρ} (hnext : nextKey isFirst s = .ok (some start))
    (hfield : r.readField seen start = .ok ((key, put), rest)) (hlt : rest.length < s.length) :
    r.readFields isFirst seen a s = r.readFields false (key :: seen) (put a) rest := by
  rw [readFields, hnext]
  simp only [hfield, if_pos hlt]

/-- What is still to come of an object after some keys have been seen. -/
structure Remaining (parts : List Part) (seen : List String) (fields : List (String × Tree)) :
    Prop where
  nodup : (fields.map (·.1) ++ seen).Nodup
  known : ∀ f ∈ fields, ∃ p ∈ parts, p.key = f.1 ∧ p.writes f.2
  complete : ∀ p ∈ parts, p.isDefault ∨ p.key ∈ fields.map (·.1) ++ seen

theorem Remaining.notMem {f : String × Tree} (h : Remaining parts seen (f :: fields)) :
    f.1 ∉ seen := by
  have hnodup := h.nodup
  rw [List.map_cons, List.cons_append, List.nodup_cons] at hnodup
  exact fun hf => hnodup.1 (List.mem_append_right _ hf)

/-- The next field goes over to the keys that have been seen. -/
theorem Remaining.next {f : String × Tree} (h : Remaining parts seen (f :: fields)) :
    Remaining parts (f.1 :: seen) fields where
  nodup := List.perm_middle.nodup_iff.mpr h.nodup
  known g hg := h.known g (List.mem_cons_of_mem _ hg)
  complete p hp := (h.complete p hp).imp_right fun hk => List.perm_middle.mem_iff.mpr hk

/-- **The next field takes one more key in.** -/
theorem Collects.readFields_step (h : r.Collects depth parts collected x) {isFirst : Bool}
    {start rest : List Char} {f : String × Tree} (hr : Remaining parts seen (f :: fields))
    (hd : f.2.depth < depth) (hnext : nextKey isFirst s = .ok (some start))
    (hlen : start.length < s.length) (hw : FieldWritten Written ('"' :: start) f rest)
    (ht : Ends rest) :
    rest.length < s.length ∧ r.readFields isFirst seen (collected seen) s
      = r.readFields false (f.1 :: seen) (collected (f.1 :: seen)) rest := by
  obtain ⟨put, hfield, hlt, hput⟩ :=
    h.readField (hr.known f List.mem_cons_self) hd hr.notMem hw ht
  have hshort : rest.length < s.length := Nat.lt_trans hlt hlen
  rw [readFields_field hnext hfield hshort, hput]
  exact ⟨hshort, rfl⟩

/-- **The fields that follow one are read up to the closing brace.** -/
theorem Collects.readFields_of_tail (h : r.Collects depth parts collected x)
    (hw : TailWritten (FieldWritten Written) '\x7d' s fields t) :
    ∀ {seen}, Remaining parts seen fields → (∀ f ∈ fields, f.2.depth < depth) →
      r.readFields false seen (collected seen) s = .ok (x, t) ∧ t.length < s.length := by
  induction hw with
  | close blanks =>
    intro seen hr _
    have hall : ∀ p ∈ parts, p.isDefault ∨ p.key ∈ seen := hr.complete
    rw [readFields_close blanks, h.finish hall blanks, h.whole seen hall]
    exact ⟨rfl, blanks.length_le⟩
  | comma blanks blanks' hw rest ih =>
    intro seen hr hd
    obtain ⟨hf, hfs⟩ := List.forall_mem_cons.mp hd
    obtain ⟨start, rfl⟩ := hw.first
    have hlen := blanks.length_le
    have hlen' := blanks'.length_le
    simp only [List.length_cons] at hlen hlen'
    obtain ⟨hlt, hstep⟩ := h.readFields_step hr hf (nextKey_comma blanks blanks') (by omega) hw
      (rest.ends (.inr rfl))
    obtain ⟨hrest, hlt'⟩ := ih hr.next hfs
    exact ⟨hstep.trans hrest, Nat.lt_trans hlt' hlt⟩

/-- **The fields of an object are read after its opening brace.** -/
theorem Collects.readFields (h : r.Collects depth parts collected x) (hp : HaveParts parts fields)
    (hd : ∀ f ∈ fields, f.2.depth < depth)
    (hw : ItemsWritten (FieldWritten Written) '\x7b' '\x7d' ('\x7b' :: s) fields t) :
    r.readFields true [] r.blank s = .ok (x, t) ∧ t.length < s.length := by
  have hremaining : Remaining parts [] fields := by
    refine ⟨?_, hp.known, ?_⟩ <;> rw [List.append_nil]
    · exact hp.nodup
    · exact hp.complete
  rw [← h.blank]
  cases hw with
  | none blanks =>
    have hall : ∀ p ∈ parts, p.isDefault ∨ p.key ∈ [] := hremaining.complete
    rw [readFields_close blanks, h.finish hall blanks, h.whole [] hall]
    exact ⟨rfl, blanks.length_le⟩
  | some blanks hw rest =>
    obtain ⟨hf, hfs⟩ := List.forall_mem_cons.mp hd
    obtain ⟨start, rfl⟩ := hw.first
    obtain ⟨hlt, hstep⟩ := h.readFields_step hremaining hf (nextKey_first blanks)
      blanks.length_le hw (rest.ends (.inr rfl))
    obtain ⟨hrest, hlt'⟩ := h.readFields_of_tail rest hremaining.next hfs
    exact ⟨hstep.trans hrest, Nat.lt_trans hlt' hlt⟩

/-- **A record is read from each way of writing it.** -/
theorem Collects.reads (h : r.Collects (depth - 1) parts collected x) {j : Tree}
    (hj : j.IsRecord parts) (hd : j.depth < depth) : Reads (r.read depth) j x := by
  obtain ⟨fields, rfl, hp⟩ := hj
  intro s s' t hb hw _
  have hskip := hw.skip hb
  rw [Tree.depth] at hd
  have hopen : ¬depth < 2 := by omega
  have hdepth : ∀ f ∈ fields, f.2.depth < depth - 1 := by
    intro f hf
    have hle := Tree.depth_le_depthFields hf
    omega
  cases hw with
  | object braces =>
    obtain ⟨start, rfl⟩ : ∃ start, s' = '\x7b' :: start := by
      cases braces <;> exact ⟨_, rfl⟩
    obtain ⟨hfields, hlt⟩ := h.readFields hp hdepth braces
    rw [read, hskip]
    simp only [if_neg hopen, hfields, true_and]
    exact Nat.lt_succ_of_lt hlt

end Record

end SumLayout.Json
