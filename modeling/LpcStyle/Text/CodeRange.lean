/-!
Sets of characters given as ranges of code points. A table is a list of closed ranges in rising order.
-/

namespace LpcStyle.Text

/-- the code point lies in one of the closed ranges -/
def inRanges (table : List (Nat × Nat)) (code : Nat) : Bool :=
  table.any fun (lo, hi) => lo ≤ code && code ≤ hi

/-- ranges in rising order that do not touch -/
def Rising : List (Nat × Nat) → Bool
  | [] => true
  | [(lo, hi)] => lo ≤ hi
  | (lo, hi) :: (lo', hi') :: rest => lo ≤ hi && hi + 1 < lo' && Rising ((lo', hi') :: rest)

end LpcStyle.Text
