import SumLayout.PlanError
import SumLayout.Union

/-!
# Discriminants

Each case has a tag, a 32-bit word. Declared tags are reserved first; the other cases are numbered
in order of declaration. A number is the one after the end of the first run of used tags, counted
from the least used one. Where that run reaches the largest word, everything from its start upwards
is used, and the least free tag above zero is 1, if it is free at all. Zero is never handed out: it
is left for a case that declares it.
-/

namespace SumLayout

/-- The tags in use, without repetition and in ascending order. -/
structure UsedTags where
  tags : List UInt32 := []
  deriving DecidableEq, Repr

namespace UsedTags

/-- The largest tag. -/
def largest : UInt32 := 0xFFFFFFFF

/-- The tag after `t`, if there is one. -/
def next? (t : UInt32) : Option UInt32 :=
  if t = largest then none else some (t + 1)

/-- Put a tag in its place in an ascending list. -/
def insertSorted (t : UInt32) : List UInt32 → List UInt32
  | [] => [t]
  | u :: us =>
    if t < u then t :: u :: us
    else if t = u then u :: us
    else u :: insertSorted t us

/-- Reserve a tag. -/
def insert (s : UsedTags) (t : UInt32) : UsedTags := ⟨insertSorted t s.tags⟩

/-- Reserve some tags. -/
def ofList (ts : List UInt32) : UsedTags := ts.foldl insert {}

/-- The end of the run that starts with `last` in an ascending list. -/
def runEnd (last : UInt32) : List UInt32 → UInt32
  | [] => last
  | t :: ts => if (next? last).any (· < t) then last else runEnd t ts

/-- The tag that the next case without a declared tag gets. -/
def nextTag? (s : UsedTags) : Option UInt32 :=
  match s.tags with
  | [] => some 1
  | first :: rest =>
    match next? (runEnd first rest) with
    | some t => some t
    | none => if 1 < first then some 1 else none

/-- Resolve the tag of one case and reserve it. If there is none, nothing is reserved. -/
def assign (s : UsedTags) (declared : Option UInt32) : Option (UInt32 × UsedTags) :=
  match declared with
  | some t => some (t, s.insert t)
  | none => s.nextTag?.map fun t => (t, s.insert t)

/-- Resolve the tags of some cases in order. -/
def assignAll (s : UsedTags) : List Case → Except PlanError (List UInt32)
  | [] => .ok []
  | c :: cs =>
    match s.assign c.tag with
    | none => .error (.tagsExhausted c.name)
    | some (t, s) =>
      match assignAll s cs with
      | .error e => .error e
      | .ok ts => .ok (t :: ts)

end UsedTags

/-- The tag of every case, in order of declaration. -/
def assignTags (cases : List Case) : Except PlanError (List UInt32) :=
  (UsedTags.ofList (cases.filterMap (·.tag))).assignAll cases

end SumLayout
