import LpcStyle.Tree.Node

/-!
The tree as a forest of labelled branches. A label is a node without its parts, and the branches below it are its
parts in source order, so what holds for every form alike is said and computed here.
-/

namespace LpcStyle

open Text

/-- a node without its parts -/
structure Label where
  span : Span
  shape : Shape Unit
deriving DecidableEq, Repr

inductive Branch where
  | mk (label : Label) (kids : List Branch) (suffix : Option Comment)

namespace Branch

def label : Branch → Label
  | mk label _ _ => label

def kids : Branch → List Branch
  | mk _ kids _ => kids

def suffix : Branch → Option Comment
  | mk _ _ suffix => suffix

def start (b : Branch) : Nat := b.label.span.start

def stop (b : Branch) : Nat := b.label.span.stop

/-- a comment as a branch of its own -/
def ofComment (c : Comment) : Branch := mk ⟨c.span, .comment c.kind c.text⟩ [] none

end Branch

mutual

/-- the branch of a node -/
def Node.branch : Node → Branch
  | .mk span shape suffix => .mk ⟨span, shape.map fun _ => ()⟩ (Shape.branches shape) suffix

/-- the parts of a form in source order -/
def Shape.branches : Shape Node → List Branch
  | .spread a | .unary _ a | .typeCast _ _ a | .inherit _ a => [a.branch]
  | .array ns | .mapping ns | .indexor ns | .paren ns | .multiExpression ns | .varDecl _ _ ns
  | .structLiteral _ ns | .inlineClosure ns => Node.branches ns
  | .mappingPair a ns | .call a ns | .structDef a ns | .switch a ns => a.branch :: Node.branches ns
  | .member a b _ | .index a b | .binary a _ b _ | .logical a _ b | .range a b | .whileLoop a b | .doWhile a b
  | .lambda a b => [a.branch, b.branch]
  | .parentAccess s m => Node.optionBranch s ++ [m.branch]
  | .ternary t c a => [t.branch, c.branch, a.branch]
  | .assignment l _ r => l.branch :: Node.optionBranch r
  | .declarator n _ _ _ i _ => Node.optionBranch n ++ Node.optionBranch i
  | .function _ _ _ n ps b => n.branch :: Node.branches ps ++ Node.optionBranch b
  | .ifElse t c a => t.branch :: c.branch :: Node.optionBranch a
  | .switchCase t ns => Node.optionBranch t ++ Node.branches ns
  | .forLoop i t u b => Node.optionBranch i ++ Node.optionBranch t ++ Node.optionBranch u ++ [b.branch]
  | .foreachLoop vs i b => Node.branches vs ++ [i.branch, b.branch]
  | .returnValue a => Node.optionBranch a
  | .codeBlock c ns => (c.map Branch.ofComment).toList ++ Node.branches ns
  | .literal .. | .textBlock _ | .identifier _ | .indexMark _ | .jump _ | .directive .. | .blankLine | .comment ..
  | .closureSymbol _ | .closureIndex _ => []

def Node.branches : List Node → List Branch
  | [] => []
  | n :: ns => n.branch :: Node.branches ns

def Node.optionBranch : Option Node → List Branch
  | none => []
  | some n => [n.branch]

end

@[simp] theorem Node.branches_eq_map (ns : List Node) : Node.branches ns = ns.map Node.branch := by
  induction ns with
  | nil => rfl
  | cons n ns ih => simp [Node.branches, ih]

/-- the roots of a document as branches -/
def Document.forest (d : Document) : List Branch := Node.branches d.roots

end LpcStyle
