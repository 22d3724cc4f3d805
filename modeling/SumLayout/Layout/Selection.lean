import SumLayout.Layout.Allocation

/-!
# Choosing a layout

Overlapping usually saves fields, but not always: leaves that would have shared slots by their type
can end up costing more once they are in a region. So a union is laid out both ways, and **the
overlapped layout is kept only if it has strictly fewer fields**.
-/

namespace SumLayout

namespace Layout

/-- The cheaper of the plain and the overlapped layout, the plain one if they cost the same. -/
def select (u : Union) : Except PlanError Layout :=
  match allocate u false with
  | .error e => .error e
  | .ok plain =>
    if u.options.overlapStructs then
      match allocate u true with
      | .error e => .error e
      | .ok overlapped =>
        .ok (if overlapped.fieldCount < plain.fieldCount then overlapped else plain)
    else .ok plain

end Layout

end SumLayout
