import Mathlib.Tactic
import LpcStyle.Grammar.Expression
import LpcStyle.Proofs.Text.Words
import LpcStyle.Tree.Node

/-!
What is left of a tree when the places of its nodes are forgotten. A type is compared word by word, since what stands
between `struct` and its name belongs to the layout. Blank lines are kept or not, as one asks for.
-/

namespace LpcStyle

open Text LpcStyle.Grammar

def Lexeme.unplaced (l : Lexeme) : Lexeme := ⟨.empty 0, l.text⟩

/-- one space between words -/
def Lexeme.byWords (l : Lexeme) : Lexeme := ⟨.empty 0, join [' '] (words l.text)⟩

/-- a type of one word is itself -/
theorem Lexeme.byWords_of_solid {l : Lexeme} (h : ∀ c ∈ l.text, isBlank c = false) (hne : l.text ≠ []) :
    l.byWords = l.unplaced := by
  rw [byWords, words_of_solid h hne]
  rfl

def Comment.unplaced (c : Comment) : Comment := ⟨c.kind, .empty 0, c.text⟩

mutual

/-- the node without its places, and without the blank lines in it unless they are kept -/
def Node.unplaced (keep : Bool) : Node → Node
  | .mk _ shape suffix => .mk (.empty 0) (Shape.unplaced keep shape) (suffix.map Comment.unplaced)

def Shape.unplaced (keep : Bool) : Shape Node → Shape Node
  | .literal kind text => .literal kind text
  | .textBlock text => .textBlock text
  | .identifier text => .identifier text
  | .spread a => .spread (a.unplaced keep)
  | .array es => .array (Node.unplacedAll keep es)
  | .mapping ps => .mapping (Node.unplacedAll keep ps)
  | .mappingPair k vs => .mappingPair (k.unplaced keep) (Node.unplacedAll keep vs)
  | .call c as => .call (c.unplaced keep) (Node.unplacedAll keep as)
  | .member o p dot => .member (o.unplaced keep) (p.unplaced keep) dot
  | .index o i => .index (o.unplaced keep) (i.unplaced keep)
  | .indexor ps => .indexor (Node.unplacedAll keep ps)
  | .indexMark mark => .indexMark mark
  | .parentAccess s m => .parentAccess (Node.unplaced? keep s) (m.unplaced keep)
  | .binary l op r implied => .binary (l.unplaced keep) op.unplaced (r.unplaced keep) implied
  | .logical l op r => .logical (l.unplaced keep) op.unplaced (r.unplaced keep)
  | .ternary t c a => .ternary (t.unplaced keep) (c.unplaced keep) (a.unplaced keep)
  | .assignment l op r => .assignment (l.unplaced keep) op.unplaced (Node.unplaced? keep r)
  | .unary op a => .unary op.unplaced (a.unplaced keep)
  | .typeCast ty isArray a => .typeCast ty.unplaced isArray (a.unplaced keep)
  | .paren is => .paren (Node.unplacedAll keep is)
  | .multiExpression is => .multiExpression (Node.unplacedAll keep is)
  | .varDecl ms ty ds => .varDecl (ms.map Lexeme.unplaced) (ty.map Lexeme.byWords) (Node.unplacedAll keep ds)
  | .declarator n isArray byRef isSpread i isDefault =>
    .declarator (Node.unplaced? keep n) isArray byRef isSpread (Node.unplaced? keep i) isDefault
  | .function ms ty isArray n ps b =>
    .function (ms.map Lexeme.unplaced) (ty.map Lexeme.byWords) isArray (n.unplaced keep) (Node.unplacedAll keep ps)
      (Node.unplaced? keep b)
  | .structDef n ms => .structDef (n.unplaced keep) (Node.unplacedAll keep ms)
  | .structLiteral n is => .structLiteral n.unplaced (Node.unplacedAll keep is)
  | .ifElse t c a => .ifElse (t.unplaced keep) (c.unplaced keep) (Node.unplaced? keep a)
  | .switch t cs => .switch (t.unplaced keep) (Node.unplacedAll keep cs)
  | .switchCase t b => .switchCase (Node.unplaced? keep t) (Node.unplacedAll keep b)
  | .forLoop i t u b =>
    .forLoop (Node.unplaced? keep i) (Node.unplaced? keep t) (Node.unplaced? keep u) (b.unplaced keep)
  | .foreachLoop vs i b => .foreachLoop (Node.unplacedAll keep vs) (i.unplaced keep) (b.unplaced keep)
  | .range a b => .range (a.unplaced keep) (b.unplaced keep)
  | .whileLoop t b => .whileLoop (t.unplaced keep) (b.unplaced keep)
  | .doWhile b t => .doWhile (b.unplaced keep) (t.unplaced keep)
  | .returnValue a => .returnValue (Node.unplaced? keep a)
  | .jump kind => .jump kind
  | .inherit ms a => .inherit (ms.map Lexeme.unplaced) (a.unplaced keep)
  | .directive n k as => .directive n.unplaced (k.map Lexeme.unplaced) (as.map Lexeme.unplaced)
  | .blankLine => .blankLine
  | .comment kind text => .comment kind text
  | .codeBlock c ss => .codeBlock (c.map Comment.unplaced) (Node.unplacedAll keep ss)
  | .closureSymbol text => .closureSymbol text
  | .inlineClosure is => .inlineClosure (Node.unplacedAll keep is)
  | .lambda a c => .lambda (a.unplaced keep) (c.unplaced keep)
  | .closureIndex text => .closureIndex text

def Node.unplacedAll (keep : Bool) : List Node → List Node
  | [] => []
  | n :: ns =>
    if n.shape.isBlankLine && !keep then Node.unplacedAll keep ns
    else n.unplaced keep :: Node.unplacedAll keep ns

def Node.unplaced? (keep : Bool) : Option Node → Option Node
  | none => none
  | some n => some (n.unplaced keep)

end

/-- the nodes of a list but the blank lines that are not kept -/
def Node.solid (keep : Bool) (ns : List Node) : List Node := ns.filter fun n => keep || !n.shape.isBlankLine

theorem Node.unplacedAll_eq_map (keep : Bool) (ns : List Node) :
    Node.unplacedAll keep ns = (Node.solid keep ns).map (Node.unplaced keep) := by
  induction ns with
  | nil => rfl
  | cons n ns ih =>
    rw [Node.unplacedAll, ih]
    cases hn : n.shape.isBlankLine <;> cases keep <;> simp [Node.solid, hn]

variable {keep : Bool}

theorem Node.shape_unplaced (n : Node) : (n.unplaced keep).shape = n.shape.unplaced keep := by
  cases n
  rw [Node.unplaced]
  rfl

/-! ## What the grammar asks of a form -/

namespace Shape

/-- what the grammar asks of a form does not depend on places -/
theorem isIdentifier_unplaced (s : Shape Node) : (s.unplaced keep).isIdentifier = s.isIdentifier := by
  cases s <;> rfl

theorem isVarDecl_unplaced (s : Shape Node) : (s.unplaced keep).isVarDecl = s.isVarDecl := by
  cases s <;> rfl

theorem isBlankLine_unplaced (s : Shape Node) : (s.unplaced keep).isBlankLine = s.isBlankLine := by
  cases s <;> rfl

theorem isCallable_unplaced (s : Shape Node) : isCallable (s.unplaced keep) = isCallable s := by
  cases s <;> rfl

theorem joins_unplaced (s : Shape Node) (next : Kind) : joins (s.unplaced keep) next = joins s next := by
  cases s with
  | binary left op right implied => cases implied <;> rfl
  | _ => rfl

end Shape

/-! ## Nodes that differ in places only -/

namespace Node

variable {n n' : Node}

theorem shape_eq_of_unplaced (h : n.unplaced keep = n'.unplaced keep) : n.shape.unplaced keep = n'.shape.unplaced keep := by
  rw [← shape_unplaced, ← shape_unplaced, h]

theorem suffix_eq_of_unplaced (h : n.unplaced keep = n'.unplaced keep) :
    n.suffix.map Comment.unplaced = n'.suffix.map Comment.unplaced := by
  obtain ⟨span, shape, suffix⟩ := n
  obtain ⟨span', shape', suffix'⟩ := n'
  rw [unplaced, unplaced] at h
  exact (Node.mk.inj h).2.2

/-- what does not depend on places is the same for both -/
theorem ask_of_unplaced {α : Type} (f : Shape Node → α) (hf : ∀ s, f (Shape.unplaced keep s) = f s)
    (h : n.unplaced keep = n'.unplaced keep) : f n'.shape = f n.shape :=
  calc f n'.shape
    _ = f (n'.shape.unplaced keep) := (hf _).symm
    _ = f (n.shape.unplaced keep) := by rw [shape_eq_of_unplaced h]
    _ = f n.shape := hf _

theorem isIdentifier_of_unplaced (h : n.unplaced keep = n'.unplaced keep) :
    n'.shape.isIdentifier = n.shape.isIdentifier := ask_of_unplaced _ Shape.isIdentifier_unplaced h

theorem isBlankLine_of_unplaced (h : n.unplaced keep = n'.unplaced keep) :
    n'.shape.isBlankLine = n.shape.isBlankLine := ask_of_unplaced _ Shape.isBlankLine_unplaced h

theorem isCallable_of_unplaced (h : n.unplaced keep = n'.unplaced keep) : isCallable n'.shape = isCallable n.shape :=
  ask_of_unplaced _ Shape.isCallable_unplaced h

theorem joins_of_unplaced (h : n.unplaced keep = n'.unplaced keep) (next : Kind) :
    joins n'.shape next = joins n.shape next :=
  ask_of_unplaced (joins · next) (fun s => Shape.joins_unplaced s next) h

/-- a declaration among some nodes -/
theorem any_isVarDecl_of_unplaced {ns ns' : List Node} (h : unplacedAll keep ns = unplacedAll keep ns') :
    ns'.any (·.shape.isVarDecl) = ns.any (·.shape.isVarDecl) := by
  have hany (ns : List Node) : (unplacedAll keep ns).any (·.shape.isVarDecl) = ns.any (·.shape.isVarDecl) := by
    induction ns with
    | nil => rfl
    | cons n ns ih =>
      have hn : (n.unplaced keep).shape.isVarDecl = n.shape.isVarDecl := by
        rw [shape_unplaced, Shape.isVarDecl_unplaced]
      rw [unplacedAll]
      split
      · next hblank =>
        have hdecl : n.shape.isVarDecl = false := by
          cases hshape : n.shape <;> simp [hshape, Shape.isBlankLine] at hblank
          rfl
        rw [ih, List.any_cons, hdecl, Bool.false_or]
      · rw [List.any_cons, List.any_cons, ih, hn]
  rw [← hany, ← h, hany]

/-- a call differs from calls only -/
theorem call_of_unplaced (h : n.unplaced keep = n'.unplaced keep) {callee : Node} {args : List Node}
    (hn : n.shape = .call callee args) : ∃ callee' args', n'.shape = .call callee' args' ∧
      callee.unplaced keep = callee'.unplaced keep ∧ unplacedAll keep args = unplacedAll keep args' := by
  have hshape := shape_eq_of_unplaced h
  rw [hn] at hshape
  cases hn' : n'.shape <;> rw [hn'] at hshape <;> simp only [Shape.unplaced, reduceCtorEq, Shape.call.injEq] at hshape
  next callee' args' => exact ⟨callee', args', rfl, hshape.1, hshape.2⟩

end Node

end LpcStyle
