import Mathlib.Tactic
import LpcStyle.Tree.Node

/-!
The parts of a form and induction over them: what holds of a node whenever it holds of the parts of its form holds of
every node.
-/

namespace LpcStyle

open Text

section Induction

set_option linter.unusedSectionVars false

variable {motive : Node → Prop}
  (mk : ∀ span shape suffix, (∀ k ∈ shape.parts, motive k) → motive (.mk span shape suffix))

include mk

mutual

/-- **Induction over the parts**: a node has a property if the parts of its form having it is enough. -/
@[elab_as_elim]
theorem Node.partsInduction : ∀ n : Node, motive n
  | .mk span shape suffix => mk span shape suffix (Shape.forall_mem_parts shape)

theorem Shape.forall_mem_parts : ∀ shape : Shape Node, ∀ k ∈ shape.parts, motive k
  | .spread a | .unary _ a | .typeCast _ _ a | .inherit _ a => by
    simpa [Shape.parts] using Node.partsInduction a
  | .array ns | .mapping ns | .indexor ns | .paren ns | .multiExpression ns | .varDecl _ _ ns
  | .structLiteral _ ns | .inlineClosure ns | .codeBlock _ ns => Node.forall_mem ns
  | .mappingPair a ns | .call a ns | .structDef a ns | .switch a ns =>
    List.forall_mem_cons.2 ⟨Node.partsInduction a, Node.forall_mem ns⟩
  | .member a b _ | .index a b | .binary a _ b _ | .logical a _ b | .range a b | .whileLoop a b | .doWhile a b
  | .lambda a b => by
    simpa [Shape.parts] using And.intro (Node.partsInduction a) (Node.partsInduction b)
  | .parentAccess s m => List.forall_mem_append.2 ⟨Node.forall_mem_toList s, by simpa using Node.partsInduction m⟩
  | .ternary t c a => by
    simpa [Shape.parts] using And.intro (Node.partsInduction t)
      (And.intro (Node.partsInduction c) (Node.partsInduction a))
  | .assignment l _ r => List.forall_mem_cons.2 ⟨Node.partsInduction l, Node.forall_mem_toList r⟩
  | .declarator n _ _ _ i _ => List.forall_mem_append.2 ⟨Node.forall_mem_toList n, Node.forall_mem_toList i⟩
  | .function _ _ _ n ps b =>
    List.forall_mem_cons.2 ⟨Node.partsInduction n,
      List.forall_mem_append.2 ⟨Node.forall_mem ps, Node.forall_mem_toList b⟩⟩
  | .ifElse t c a =>
    List.forall_mem_cons.2 ⟨Node.partsInduction t,
      List.forall_mem_cons.2 ⟨Node.partsInduction c, Node.forall_mem_toList a⟩⟩
  | .switchCase t ns => List.forall_mem_append.2 ⟨Node.forall_mem_toList t, Node.forall_mem ns⟩
  | .forLoop i t u b =>
    List.forall_mem_append.2 ⟨List.forall_mem_append.2 ⟨List.forall_mem_append.2 ⟨Node.forall_mem_toList i,
      Node.forall_mem_toList t⟩, Node.forall_mem_toList u⟩, by simpa using Node.partsInduction b⟩
  | .foreachLoop vs i b =>
    List.forall_mem_append.2 ⟨Node.forall_mem vs, by
      simpa using And.intro (Node.partsInduction i) (Node.partsInduction b)⟩
  | .returnValue a => Node.forall_mem_toList a
  | .literal .. | .textBlock _ | .identifier _ | .indexMark _ | .jump _ | .directive .. | .blankLine | .comment ..
  | .closureSymbol _ | .closureIndex _ => by simp [Shape.parts]

theorem Node.forall_mem : ∀ ns : List Node, ∀ k ∈ ns, motive k
  | [] => by simp
  | n :: ns => List.forall_mem_cons.2 ⟨Node.partsInduction n, Node.forall_mem ns⟩

theorem Node.forall_mem_toList : ∀ o : Option Node, ∀ k ∈ o.toList, motive k
  | none => by simp
  | some n => by simpa using Node.partsInduction n

end

end Induction

/-- `k` is the node itself, or stands inside one of its parts -/
inductive Node.Inside (k : Node) : Node → Prop where
  | self : Inside k k
  | part {span : Span} {shape : Shape Node} {suffix : Option Comment} {m : Node} (hm : m ∈ shape.parts) :
    Inside k m → Inside k (.mk span shape suffix)

/-- no preprocessor line anywhere in the node -/
inductive Node.DirectiveFree : Node → Prop where
  | mk {span : Span} {shape : Shape Node} {suffix : Option Comment} (own : shape.isDirective = false)
      (parts : ∀ k ∈ shape.parts, DirectiveFree k) : DirectiveFree (.mk span shape suffix)

theorem Node.DirectiveFree.parts {span : Span} {shape : Shape Node} {suffix : Option Comment}
    (h : DirectiveFree (.mk span shape suffix)) : ∀ k ∈ shape.parts, k.DirectiveFree := by
  cases h with
  | mk _ parts => exact parts

theorem Node.DirectiveFree.own {span : Span} {shape : Shape Node} {suffix : Option Comment}
    (h : DirectiveFree (.mk span shape suffix)) : shape.isDirective = false := by
  cases h with
  | mk own _ => exact own

end LpcStyle
