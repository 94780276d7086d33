import Mathlib.Tactic
import LpcStyle.Grammar.Reading
import LpcStyle.Proofs.Tree.Parts
import LpcStyle.Tree.Listing

/-!
The comments of a tree: those that stand in it as nodes, and those that are suffixes. They are counted as a multiset, so
that what a node carries is the sum of what its parts carry.
- `Document.comments_listing`: the comments among the entries of a listing.
-/

namespace LpcStyle

open Text

/-- the comment that a label is of -/
def Label.comment? (l : Label) : Option Comment :=
  match l.shape with
  | .comment kind text => some ⟨kind, l.span, text⟩
  | _ => none

mutual

/-- the comments of a branch in the order of its listing -/
def Branch.comments : Branch → List Comment
  | .mk label kids suffix => label.comment?.toList ++ Branch.commentsOf kids ++ suffix.toList

def Branch.commentsOf : List Branch → List Comment
  | [] => []
  | b :: bs => b.comments ++ Branch.commentsOf bs

end

theorem Branch.commentsOf_eq_flatMap (bs : List Branch) : Branch.commentsOf bs = bs.flatMap Branch.comments := by
  induction bs with
  | nil => rfl
  | cons b bs ih => rw [Branch.commentsOf, ih, List.flatMap_cons]

@[simp] theorem Branch.comments_ofComment (c : Comment) : (Branch.ofComment c).comments = [c] := rfl

mutual

/-- **A listing holds the comments of a branch**, each of them once. -/
theorem Branch.comments_entries (parent : Option Nat) (place : Nat) : (b : Branch) →
    (b.entries parent place).filterMap (·.label.comment?) = b.comments
  | .mk label kids suffix => by
    have hkids := Branch.comments_listing (some place) (place + 1) kids
    have hsuffix : (suffix.toList.map fun c => (⟨(Branch.ofComment c).label, some place, none⟩ : Entry)).filterMap
        (·.label.comment?) = suffix.toList := by
      cases suffix <;> rfl
    rw [Branch.entries, Branch.comments, List.filterMap_append, List.filterMap_cons, hkids, hsuffix]
    cases label.comment? <;> rfl

theorem Branch.comments_listing (parent : Option Nat) (place : Nat) : (bs : List Branch) →
    (Branch.listing parent place bs).filterMap (·.label.comment?) = Branch.commentsOf bs
  | [] => rfl
  | b :: bs => by
    rw [Branch.listing, Branch.commentsOf, List.filterMap_append, Branch.comments_entries, Branch.comments_listing]

end

/-! ## Nodes -/

/-- the comments of a node -/
def Node.comments (n : Node) : Multiset Comment := ↑n.branch.comments

/-- the comments of some nodes -/
def commentsAll (ns : List Node) : Multiset Comment := (ns.map Node.comments).sum

/-- the comments of a part that may be missing -/
def comments? (n : Option Node) : Multiset Comment := commentsAll n.toList

@[simp] theorem commentsAll_nil : commentsAll [] = 0 := rfl

@[simp] theorem commentsAll_cons (n : Node) (ns : List Node) : commentsAll (n :: ns) = n.comments + commentsAll ns := rfl

@[simp] theorem commentsAll_append (ms ns : List Node) : commentsAll (ms ++ ns) = commentsAll ms + commentsAll ns := by
  rw [commentsAll, List.map_append, List.sum_append, commentsAll, commentsAll]

@[simp] theorem commentsAll_reverse (ns : List Node) : commentsAll ns.reverse = commentsAll ns := by
  induction ns with
  | nil => rfl
  | cons n ns ih => rw [List.reverse_cons, commentsAll_append, ih, commentsAll_cons, commentsAll_cons, commentsAll_nil,
      add_zero, add_comm]

@[simp] theorem commentsAll_toList (n : Option Node) : commentsAll n.toList = comments? n := rfl

@[simp] theorem comments?_none : comments? none = 0 := rfl

@[simp] theorem comments?_some (n : Node) : comments? (some n) = n.comments := add_zero _

/-- the comments of some branches -/
def Branch.commentsIn (bs : List Branch) : Multiset Comment := ↑(Branch.commentsOf bs)

namespace Branch

@[simp] theorem commentsIn_nil : commentsIn [] = 0 := rfl

@[simp] theorem commentsIn_cons (n : Node) (bs : List Branch) :
    commentsIn (n.branch :: bs) = n.comments + commentsIn bs := by
  rw [commentsIn, commentsOf, ← Multiset.coe_add, Node.comments, commentsIn]

@[simp] theorem commentsIn_append (as bs : List Branch) : commentsIn (as ++ bs) = commentsIn as + commentsIn bs := by
  rw [commentsIn, commentsOf_eq_flatMap, List.flatMap_append, ← Multiset.coe_add, commentsIn, commentsIn,
    commentsOf_eq_flatMap, commentsOf_eq_flatMap]

@[simp] theorem commentsIn_reverse (bs : List Branch) : commentsIn bs.reverse = commentsIn bs := by
  rw [commentsIn, commentsIn, commentsOf_eq_flatMap, commentsOf_eq_flatMap]
  exact Multiset.coe_eq_coe.2 ((List.reverse_perm bs).flatMap_right _)

@[simp] theorem commentsIn_map (ns : List Node) : commentsIn (ns.map Node.branch) = commentsAll ns := by
  induction ns with
  | nil => rfl
  | cons n ns ih => rw [List.map_cons, commentsIn_cons, ih, commentsAll_cons]

@[simp] theorem commentsIn_optionBranch (n : Option Node) : commentsIn (Node.optionBranch n) = comments? n := by
  cases n with
  | none => rfl
  | some n => rw [Node.optionBranch, commentsIn_cons, commentsIn_nil, add_zero, comments?_some]

@[simp] theorem commentsIn_ofComment (c : Option Comment) : commentsIn (c.map ofComment).toList = ↑c.toList := by
  cases c <;> rfl

end Branch

/-- the comment beside the brace that opens a block -/
def Shape.opening {α : Type} : Shape α → Option Comment
  | .codeBlock c _ => c
  | _ => none

/-- the comments of the parts of a form, and the one beside its opening brace -/
def Shape.comments (shape : Shape Node) : Multiset Comment := ↑shape.opening.toList + commentsAll shape.parts

theorem Shape.commentsIn_branches (shape : Shape Node) : Branch.commentsIn shape.branches = shape.comments := by
  cases shape <;> simp [branches, comments, opening, parts]

theorem Node.comments_mk {span : Span} {shape : Shape Node} {suffix : Option Comment} (h : shape.isComment = false) :
    (Node.mk span shape suffix).comments = shape.comments + ↑suffix.toList := by
  have hown : Label.comment? ⟨span, shape.map fun _ => ()⟩ = none := by
    cases shape <;> first | rfl | cases h
  rw [Node.comments, Node.branch, Branch.comments, hown, Option.toList_none, List.nil_append, ← Multiset.coe_add,
    ← Shape.commentsIn_branches, Branch.commentsIn]

@[simp] theorem Node.comments_ofComment (c : Comment) : (Node.ofComment c).comments = {c} := rfl

theorem commentsAll_ofComment (cs : List Comment) : commentsAll (cs.map Node.ofComment) = ↑cs := by
  induction cs with
  | nil => rfl
  | cons c cs ih => rw [List.map_cons, commentsAll_cons, ih, Node.comments_ofComment, ← Multiset.cons_coe,
      Multiset.singleton_add]

theorem Node.comments_withSuffix {n : Node} (h : n.hasSuffix = false) (c : Comment) :
    (n.withSuffix c).comments = n.comments + {c} := by
  obtain ⟨span, shape, suffix⟩ := n
  obtain rfl : suffix = none := by simpa [hasSuffix, Node.suffix] using h
  simp only [withSuffix, Node.span, Node.shape, comments, branch, Branch.comments, Option.toList_none, List.append_nil,
    Option.toList_some, ← Multiset.coe_add, Multiset.coe_singleton]

/-- comments that a node takes in, and those that are left over -/
theorem Node.comments_adopt (n : Node) (cs : List Comment) :
    (n.adopt cs).1.comments + ↑(n.adopt cs).2 = n.comments + ↑cs := by
  cases cs with
  | nil => rfl
  | cons c cs =>
    rw [adopt]
    split
    · rfl
    · next hsuffix =>
      rw [comments_withSuffix (by simpa using hsuffix), ← Multiset.cons_coe, add_assoc, Multiset.singleton_add]

/-- **The comments among the entries of a document** are those of its roots. -/
theorem Document.comments_listing (d : Document) :
    (↑(d.listing.filterMap (·.label.comment?)) : Multiset Comment) = commentsAll d.roots := by
  rw [Document.listing, Branch.comments_listing, Document.forest, Node.branches_eq_map]
  exact Branch.commentsIn_map d.roots

end LpcStyle
