import LpcStyle.Tree.Forest

/-!
The nodes of a forest in a row: each node, then its parts, then its suffix. An entry knows its parent and its suffix
by their places in the row.
-/

namespace LpcStyle

structure Entry where
  label : Label
  parent : Option Nat
  suffix : Option Nat
deriving DecidableEq, Repr

mutual

/-- nodes of a branch, suffixes included -/
def Branch.size : Branch → Nat
  | .mk _ kids suffix => 1 + Branch.sizes kids + suffix.toList.length

def Branch.sizes : List Branch → Nat
  | [] => 0
  | b :: bs => b.size + Branch.sizes bs

end

mutual

/-- the entries of a branch whose first entry is at the given place -/
def Branch.entries (parent : Option Nat) (place : Nat) : Branch → List Entry
  | .mk label kids suffix =>
    let last := place + 1 + Branch.sizes kids
    ⟨label, parent, suffix.map fun _ => last⟩ :: Branch.listing (some place) (place + 1) kids ++
      suffix.toList.map fun c => ⟨(Branch.ofComment c).label, some place, none⟩

def Branch.listing (parent : Option Nat) (place : Nat) : List Branch → List Entry
  | [] => []
  | b :: bs => b.entries parent place ++ Branch.listing parent (place + b.size) bs

end

mutual

/-- a branch takes as many places as it has nodes -/
theorem Branch.length_entries (parent : Option Nat) (place : Nat) : (b : Branch) →
    (b.entries parent place).length = b.size
  | .mk label kids suffix => by
    have := Branch.length_listing (some place) (place + 1) kids
    simp only [Branch.entries, Branch.size, List.length_cons, List.length_append, List.length_map]
    omega

theorem Branch.length_listing (parent : Option Nat) (place : Nat) : (bs : List Branch) →
    (Branch.listing parent place bs).length = Branch.sizes bs
  | [] => rfl
  | b :: bs => by
    simp only [Branch.listing, Branch.sizes, List.length_append, Branch.length_entries, Branch.length_listing]

end

/-- every node of a document in a row -/
def Document.listing (d : Document) : List Entry := Branch.listing none 0 d.forest

/-- `Name@start..stop` -/
def Label.title (l : Label) : List Char := l.shape.name.toList ++ '@' :: l.span.label

end LpcStyle
