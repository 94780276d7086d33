import LpcStyle.Tree.Forest

/-!
Lookups by offset. Siblings are searched by halving, which finds the last one that starts before the offset when they
stand in order.
-/

namespace LpcStyle

open Text

/-- halves the window `base .. base + size` at most `fuel` times; `base` moves to the middle if `p` holds there -/
def halve {α : Type} (p : α → Bool) (items : List α) : Nat → Nat → Nat → Nat
  | 0, base, _ => base
  | fuel + 1, base, size =>
    if size ≤ 1 then base
    else
      let middle := base + size / 2
      halve p items fuel (if items[middle]?.any p then middle else base) (size - size / 2)

/-- where `p` stops to hold, if it holds of a first part of the items only -/
def partitionPoint {α : Type} (p : α → Bool) (items : List α) : Nat :=
  let base := halve p items items.length 0 items.length
  if items[base]?.any p then base + 1 else base

namespace Branch

/-- place of the last sibling that starts before the offset -/
def lastBefore? (offset : Nat) (siblings : List Branch) : Option Nat :=
  match partitionPoint (fun b => b.start < offset) siblings with
  | 0 => none
  | n + 1 => some n

mutual

/-- labels from this branch down to the deepest node that holds the offset -/
def pathAt (offset : Nat) : Branch → List Label
  | .mk label kids _ => label :: pathAtKid offset (lastBefore? offset kids) kids

/-- the same from the kid at a place down, if that kid holds the offset -/
def pathAtKid (offset : Nat) : Option Nat → List Branch → List Label
  | none, _ => []
  | some _, [] => []
  | some 0, b :: _ => if b.start < offset && offset ≤ b.stop then b.pathAt offset else []
  | some (n + 1), _ :: bs => pathAtKid offset (some n) bs

end

/-- the last kid ends together with its parent -/
def endsWithLastKid (label : Label) (kids : List Branch) : Bool :=
  kids.getLast?.any fun kid => kid.stop == label.span.stop

mutual

/-- the deepest node of this branch that ends at or before the offset, else `outer` -/
def lastAhead (offset : Nat) (outer : Option Label) : Branch → Option Label
  | .mk label kids _ =>
    if offset ≤ label.span.start then outer
    else if offset < label.span.stop || endsWithLastKid label kids then
      lastAheadKid offset (some label) (lastBefore? offset kids) kids
    else some label

def lastAheadKid (offset : Nat) (outer : Option Label) : Option Nat → List Branch → Option Label
  | none, _ => outer
  | some _, [] => outer
  | some 0, b :: _ => b.lastAhead offset outer
  | some (n + 1), _ :: bs => lastAheadKid offset outer (some n) bs

end

end Branch

/-- labels from a root down to the deepest node that holds the offset; none if no root holds it -/
def pathAt (forest : List Branch) (offset : Nat) : List Label :=
  Branch.pathAtKid offset (Branch.lastBefore? offset forest) forest

/-- the deepest node that holds the offset -/
def nodeAt? (forest : List Branch) (offset : Nat) : Option Label := (pathAt forest offset).getLast?

/-- the nodes around the deepest one that holds the offset, nearest first -/
def ancestorsAt (forest : List Branch) (offset : Nat) : List Label := (pathAt forest offset).dropLast.reverse

/-- the deepest node that ends at or before the offset -/
def nodeBefore? (forest : List Branch) (offset : Nat) : Option Label :=
  Branch.lastAheadKid offset none (Branch.lastBefore? offset forest) forest

end LpcStyle
