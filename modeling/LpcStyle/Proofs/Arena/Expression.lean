import Mathlib.Tactic
import LpcStyle.Arena.Expression
import LpcStyle.Proofs.Arena.Bracketed

/-!
Expressions are built alike. What follows an operand takes it in hand and gives the node that it becomes a part of.
-/

namespace LpcStyle.Arena

open Text LpcStyle.Parser
open Store (Key)

variable {x : Handle} {rules : LpcStyle.Rules} {rules' : Rules}

theorem Cell.Fits.isCallable {c : Cell} {n : Node} (h : c.Fits n.branch.label) :
    Grammar.isCallable c.shape = Grammar.isCallable n.shape :=
  h.ask Grammar.isCallable (fun _ σ => by cases σ <;> rfl) fun σ => by cases σ <;> rfl

theorem Cell.Fits.joins {c : Cell} {n : Node} (h : c.Fits n.branch.label) (next : Kind) :
    Grammar.joins c.shape next = Grammar.joins n.shape next :=
  h.ask (Grammar.joins · next)
    (fun _ σ => by
      cases σ with
      | literal kind _ => cases kind <;> rfl
      | binary _ _ _ implied => cases implied <;> rfl
      | _ => rfl)
    fun σ => by cases σ <;> rfl

theorem builds_name : Builds 0 Grammar.name name One := by
  unfold Grammar.name name
  refine .reading_bind .atName fun isName => .ite (fun _ => .reading_bind .take fun token => ?_) fun _ => .wanted
  exact .leaf (.identifier token.text) rfl rfl

/-- a token that is an operand by itself -/
theorem builds_whole {token : Token} {σ : Shape Handle} (hσ : σ.opening = none) (hparts : σ.parts = []) :
    Builds 0 (do let _ ← take; return leaf token (σ.map Handle.node)) (whole token (σ.map Handle.key)) One :=
  .reading_bind .take fun _ => .leaf σ hσ (by rw [hparts]; rfl)

theorem builds_primary (h : SameRules rules rules') : Builds 0 (Grammar.primary rules) (primary rules') One := by
  unfold Grammar.primary primary
  refine .reading_bind .peek fun token => ?_
  extract_lets whole
  have hwhole (σ : Shape Handle) (hσ : σ.opening = none) (hparts : σ.parts = []) :
      Builds 0 (whole (σ.map Handle.node)) (Arena.whole token (σ.map Handle.key)) One := builds_whole hσ hparts
  cases token.kind with
  | number => exact hwhole (.literal .number token.text) rfl rfl
  | string => exact hwhole (.literal .string token.text) rfl rfl
  | char => exact hwhole (.literal .char token.text) rfl rfl
  | symbol => exact hwhole (.literal .symbol token.text) rfl rfl
  | name => exact builds_name
  | typeWord => exact .ite (fun _ => builds_name) fun _ => .wanted
  | closureArgument => exact hwhole (.identifier token.text) rfl rfl
  | closureSymbol => exact hwhole (.closureSymbol token.text) rfl rfl
  | closureIndex => exact hwhole (.closureIndex token.text) rfl rfl
  | doubleColon =>
    refine .reading_bind .take fun _ => .one_bind builds_name fun member => .stopOf_bind (x := member) (by simp) ?_
    exact .build (.parentAccess none member) rfl rfl
  | textBlockStart => exact builds_textBlock
  | parenStart => exact builds_paren h
  | arrayStart => exact builds_array h
  | mappingStart => exact builds_mapping h
  | closureStart => exact builds_inlineClosure h
  | lambdaStart => exact builds_lambda h
  | _ => exact .wanted

theorem builds_call (h : SameRules rules rules') : Builds {x} (Grammar.call rules x.node) (call rules' x.key) One := by
  unfold Grammar.call call
  refine .reading_bind (.expect _ _) fun _ => .closed_bind (builds_delimited _ _ h.argument) fun xs close => ?_
  refine .startOf_bind (x := x) (by simp) ?_
  exact .build (.call x xs) rfl rfl

theorem builds_member (h : SameRules rules rules') : Builds {x} (Grammar.member rules x.node) (member rules' x.key) One := by
  unfold Grammar.member member
  refine .reading_bind .take fun token => ?_
  extract_lets dot join join'
  have hjoin (property : Handle) : Builds ({x} + {property}) (join property.node) (join' property.key) One := by
    refine .startOf_bind (x := x) (by simp) (.stopOf_bind (x := property) (by simp) ?_)
    exact .build (.member x property dot) rfl rfl
  refine .reading_bind (.at_ _) fun isParen => .ite (fun _ => .one_bind (builds_paren h) hjoin) fun _ => ?_
  refine .one_bind builds_name fun property => .reading_bind (.at_ _) fun isCall => .ite (fun _ => ?_) fun _ => ?_
  · exact .onward_bind rfl (builds_call h) hjoin
  · simp only [pure_bind]
    exact hjoin property

theorem builds_trailers (h : SameRules rules rules') :
    Builds {x} (Grammar.trailers rules x.node) (trailers rules' x.key) One := by
  refine .oneLoop fun left => .reading_bind .peek fun token => ?_
  have hdone : Builds {left} (pure (.inr left.node)) (pure (.inr left.key)) (Round One One) := .pure rfl
  have hagain {q : Parser Node} {p : Builder Key} (hnext : Builds {left} q p One) :
      Builds {left} (do return .inl (← q)) (do return .inl (← p)) (Round One One) := .one_then hnext fun _ => .pure rfl
  cases token.kind with
  | parenStart =>
    refine .cell_bind (x := left) (by simp) fun c hfits _ => ?_
    rw [hfits.isCallable]
    exact .ite (fun _ => hagain (builds_call h)) fun _ => hdone
  | indexStart => exact hagain (builds_index h)
  | arrow => exact hagain (builds_member h)
  | dot => exact hagain (builds_member h)
  | doubleColon =>
    refine .cell_bind (x := left) (by simp) fun c hfits _ => ?_
    rw [hfits.isIdentifier]
    refine .ite (fun _ => .reading_bind .take fun _ => .one_bind builds_name fun member => ?_) fun _ => hdone
    refine .startOf_bind (x := left) (by simp) (.stopOf_bind (x := member) (by simp) ?_)
    exact .one_then (.build (.parentAccess (some left) member) rfl rfl) fun _ => .pure rfl
  | assignOp =>
    refine .ite (fun _ => .reading_bind .take fun _ => .startOf_bind (x := left) (by simp) ?_) fun _ => hdone
    exact hagain (.build (.assignment left (.ofToken token) none) rfl rfl)
  | ellipsis =>
    refine .reading_bind .take fun _ => .startOf_bind (x := left) (by simp) ?_
    exact hagain (.build (.spread left) rfl rfl)
  | _ => exact hdone

theorem builds_joined (h : SameRules rules rules') :
    Builds {x} (Grammar.joined rules x.node) (joined rules' x.key) One := by
  refine .oneLoop fun left => .reading_bind .peekKind fun kind => .cell_bind (x := left) (by simp) fun c hfits _ => ?_
  rw [hfits.joins]
  refine .ite (fun _ => .one_bind (builds_primary h) fun right => ?_) fun _ => .pure rfl
  refine .onward_bind rfl (builds_trailers h) fun right => ?_
  refine .stopOf_bind (x := left) (by simp) (.startOf_bind (x := left) (by simp) (.stopOf_bind (x := right) (by simp) ?_))
  exact .one_then (.build (.binary left ⟨.empty left.node.stop, []⟩ right true) rfl rfl) fun _ => .pure rfl

theorem builds_operand (h : SameRules rules rules') : Builds 0 (Grammar.operand rules) (operand rules') One := by
  unfold Grammar.operand operand
  refine .reading_bind .peek fun token => .ite (fun _ => ?_) fun _ => .ite (fun _ => ?_) fun _ => ?_
  · refine .reading_bind .take fun _ => .one_bind h.operand fun argument => .stopOf_bind (x := argument) (by simp) ?_
    exact .build (.typeCast (Grammar.castType token) (token.text.contains '*') argument) rfl rfl
  · refine .reading_bind .take fun _ => .one_bind h.operand fun argument => .stopOf_bind (x := argument) (by simp) ?_
    exact .build (.unary (.ofToken token) argument) rfl rfl
  · exact .one_then (builds_primary h) fun _ => builds_trailers h

theorem builds_tighter (h : SameRules rules rules') (rank : Nat) :
    Builds {x} (Grammar.tighter rules rank x.node) (tighter rules' rank x.key) One := by
  refine .oneLoop fun right => .reading_bind .peek fun token => ?_
  cases Grammar.rank? token with
  | none => exact .pure rfl
  | some next => exact .ite (fun _ => .one_then (h.climb right _) fun _ => .pure rfl) fun _ => .pure rfl

theorem builds_climb (h : SameRules rules rules') (min : Nat) :
    Builds {x} (Grammar.climb rules x.node min) (climb rules' x.key min) One := by
  refine .oneLoop fun left => .reading_bind .peek fun token => ?_
  cases Grammar.rank? token with
  | none => exact .pure rfl
  | some rank =>
    refine .ite (fun _ => .reading_bind .take fun op => .one_bind h.operand fun right => ?_) fun _ => .pure rfl
    refine .onward_bind rfl (builds_joined h) fun right => .onward_bind rfl (builds_tighter h rank) fun right => ?_
    refine .startOf_bind (x := left) (by simp) (.stopOf_bind (x := right) (by simp) ?_)
    by_cases hop : op.kind = .logicalOp
    · simp only [if_pos hop]
      exact .one_then (.build (.logical left (.ofToken op) right) rfl rfl) fun _ => .pure rfl
    · simp only [if_neg hop]
      exact .one_then (.build (.binary left (.ofToken op) right false) rfl rfl) fun _ => .pure rfl

theorem builds_ternary (h : SameRules rules rules') :
    Builds {x} (Grammar.ternary rules x.node) (ternary rules' x.key) One := by
  unfold Grammar.ternary ternary
  refine .reading_bind (.eat _) fun question => ?_
  cases question with
  | none => exact .pure rfl
  | some _ =>
    refine .one_bind h.expression fun consequent => .reading_bind (.expect _ _) fun _ => ?_
    refine .one_bind h.expression fun alternate => ?_
    refine .startOf_bind (x := x) (by simp) (.stopOf_bind (x := alternate) (by simp) ?_)
    exact .build (.ternary x consequent alternate) rfl rfl

theorem builds_assignment (h : SameRules rules rules') :
    Builds {x} (Grammar.assignment rules x.node) (assignment rules' x.key) One := by
  unfold Grammar.assignment assignment
  refine .reading_bind .peek fun token => .ite (fun _ => .reading_bind .take fun op => ?_) fun _ => .pure rfl
  refine .one_bind h.expression fun right => .startOf_bind (x := x) (by simp) (.stopOf_bind (x := right) (by simp) ?_)
  exact .build (.assignment x (.ofToken op) (some right)) rfl rfl

theorem builds_afterOperand (h : SameRules rules rules') :
    Builds {x} (Grammar.afterOperand rules x.node) (afterOperand rules' x.key) One := by
  unfold Grammar.afterOperand afterOperand
  refine .one_then (builds_joined h) fun _ => .one_then (builds_climb h 0) fun _ => .one_then (builds_ternary h) fun _ => ?_
  exact builds_assignment h

theorem builds_expression (h : SameRules rules rules') : Builds 0 (Grammar.expression rules) (expression rules') One :=
  .one_then (builds_operand h) fun _ => builds_afterOperand h

/-- an expression that starts with a name read already -/
theorem builds_expressionFrom (h : SameRules rules rules') :
    Builds {x} (Grammar.expressionFrom rules x.node) (expressionFrom rules' x.key) One :=
  .one_then (builds_trailers h) fun _ => builds_afterOperand h

end LpcStyle.Arena
