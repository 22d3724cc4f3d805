/-!
# Joined names

Names are made from segments in two ways. A **dotted** path keeps every segment, since it tells
where a value is. An **underscored** name is a new identifier, and an empty segment adds nothing to
it, not even a separator.
-/

namespace SumLayout.Text

/-- The segments with a separator between them. -/
def joinWith (sep : String) : List String → String
  | [] => ""
  | [s] => s
  | s :: rest => s ++ sep ++ joinWith sep rest

/-- A dotted path. -/
def dotted (path : List String) : String := joinWith "." path

/-- An identifier from the segments that are not empty. -/
def underscored (segments : List String) : String :=
  joinWith "_" (segments.filter (· ≠ ""))

@[simp] theorem underscored_nil : underscored [] = "" := rfl

/-- An empty segment adds nothing. -/
@[simp] theorem underscored_cons_empty (segments : List String) :
    underscored ("" :: segments) = underscored segments := by
  simp [underscored]

end SumLayout.Text
