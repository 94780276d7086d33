import Mathlib.Tactic
import LpcStyle.Grammar.Parse

/-!
How many calls inside each other the rules allow decides whether reading comes to an end, and nothing else.
`Below p p'` says that `p` breaks off for want of calls or does what `p'` does. All combinators keep it, so the rules of a
depth are below those of every greater depth: what is read or refused at one depth is read or refused alike at all greater
ones.
-/

namespace LpcStyle

open Text LpcStyle.Parser

/-- the one breaks off for want of calls, or does what the other one does -/
def Below {α : Type} (p p' : Parser α) : Prop := ∀ r, p.run r = .error .exhausted ∨ p.run r = p'.run r

namespace Below

variable {α β σ : Type} {p p' q q' : Parser α} {f f' : α → Parser β}

theorem refl : Below p p := fun _ => .inr rfl

theorem exhausted : Below (throw .exhausted) p := fun _ => .inl rfl

theorem trans {p'' : Parser α} (h : Below p p') (h' : Below p' p'') : Below p p'' := by
  intro r
  rcases h r with hrun | hrun
  · exact .inl hrun
  · rw [hrun]
    exact h' r

/-- what ends in another way than for want of calls ends that way in both -/
theorem run_eq {r : Reading} (h : Below p p') (hne : p.run r ≠ .error .exhausted) : p'.run r = p.run r :=
  ((h r).resolve_left hne).symm

/-- **One step after the other.** -/
theorem bind (h : Below p p') (hf : ∀ x, Below (f x) (f' x)) : Below (p >>= f) (p' >>= f') := by
  intro r
  rw [StateT.run_bind, StateT.run_bind]
  rcases h r with hrun | hrun
  · rw [hrun]
    exact .inl rfl
  · rw [← hrun]
    cases p.run r with
    | error e => exact .inr rfl
    | ok result => exact hf result.1 result.2

/-- the same step before both -/
theorem andThen (hf : ∀ x, Below (f x) (f' x)) : Below (p >>= f) (p >>= f') := refl.bind hf

theorem map {g : α → β} (h : Below p p') : Below (g <$> p) (g <$> p') := by
  rw [map_eq_pure_bind, map_eq_pure_bind]
  exact h.bind fun _ => refl

theorem ite {c : Prop} [Decidable c] (hp : Below p p') (hq : Below q q') :
    Below (if c then p else q) (if c then p' else q') := by
  split
  · exact hp
  · exact hq

theorem iterate {step step' : σ → Parser (σ ⊕ α)} (h : ∀ s, Below (step s) (step' s)) (fuel : Nat) (s : σ) :
    Below (iterate step fuel s) (iterate step' fuel s) := by
  induction fuel generalizing s with
  | zero => exact refl
  | succ fuel ih =>
    refine (h s).bind fun next => ?_
    cases next with
    | inl s => exact ih s
    | inr result => exact refl

/-- **Loops**: it is enough that each round keeps below. -/
theorem loop {init : σ} {step step' : σ → Parser (σ ⊕ α)} (h : ∀ s, Below (step s) (step' s)) :
    Below (loop init step) (loop init step') := andThen fun _ => iterate h _ _

end Below

/-- each rule is below its counterpart -/
structure Rules.Below (rules rules' : Rules) : Prop where
  expression : LpcStyle.Below rules.expression rules'.expression
  operand : LpcStyle.Below rules.operand rules'.operand
  climb : ∀ left min, LpcStyle.Below (rules.climb left min) (rules'.climb left min)
  argument : LpcStyle.Below rules.argument rules'.argument
  statement : ∀ scope, LpcStyle.Below (rules.statement scope) (rules'.statement scope)

theorem Rules.Below.trans {rules rules' rules'' : Rules} (h : rules.Below rules') (h' : rules'.Below rules'') :
    rules.Below rules'' where
  expression := h.expression.trans h'.expression
  operand := h.operand.trans h'.operand
  climb left min := (h.climb left min).trans (h'.climb left min)
  argument := h.argument.trans h'.argument
  statement scope := (h.statement scope).trans (h'.statement scope)

namespace Grammar

variable {rules rules' : Rules}

/-! ## Lists and brackets -/

theorem below_statementList (ok : rules.Below rules') (scope : Scope) (closers : List Kind) :
    Below (statementList rules scope closers) (statementList rules' scope closers) := by
  refine .bind (.loop fun items => .andThen fun token => ?_) fun _ => .refl
  split
  case h_6 => exact .ite .refl ((ok.statement scope).bind fun _ => .refl)
  all_goals exact .refl

theorem below_delimited (close : Kind) (closeText : String) {item item' : Parser Node} (h : Below item item') :
    Below (delimited close closeText item) (delimited close closeText item') := by
  refine .bind (.loop fun items => .andThen fun token => ?_) fun _ => .refl
  split
  case h_4 => exact .ite .refl (.ite .refl (.ite .refl (h.bind fun _ => .refl)))
  all_goals exact .refl

theorem below_structItem (ok : rules.Below rules') : Below (structItem rules) (structItem rules') := by
  refine ok.expression.bind fun key => .ite .refl (.andThen fun colon => ?_)
  cases colon with
  | none => exact .refl
  | some _ => exact ok.expression.bind fun _ => .refl

theorem below_paren (ok : rules.Below rules') : Below (paren rules) (paren rules') := by
  refine .andThen fun _ => .andThen fun name => ?_
  cases name with
  | none => exact (below_delimited _ _ ok.expression).bind fun _ => .refl
  | some _ => exact (below_delimited _ _ (below_structItem ok)).bind fun _ => .refl

theorem below_array (ok : rules.Below rules') : Below (array rules) (array rules') :=
  .andThen fun _ => (below_delimited _ _ ok.expression).bind fun _ => .refl

theorem below_moreValues (ok : rules.Below rules') (values : List Node) :
    Below (moreValues rules values) (moreValues rules' values) := by
  refine .loop fun values => .andThen fun semicolon => ?_
  cases semicolon with
  | none => exact .refl
  | some _ => exact ok.expression.bind fun _ => .refl

theorem below_mappingPair (ok : rules.Below rules') : Below (mappingPair rules) (mappingPair rules') := by
  refine ok.expression.bind fun key => .andThen fun colon => ?_
  cases colon with
  | none => exact .refl
  | some _ => exact ok.expression.bind fun first => (below_moreValues ok [first]).bind fun _ => .refl

theorem below_mapping (ok : rules.Below rules') : Below (mapping rules) (mapping rules') :=
  .andThen fun _ => (below_delimited _ _ (below_mappingPair ok)).bind fun _ => .refl

theorem below_index (ok : rules.Below rules') (object : Node) : Below (index rules object) (index rules' object) := by
  refine .andThen fun _ => .bind (.loop fun parts => .andThen fun token => .ite .refl ?_) fun _ => .refl
  cases indexMark? token.kind with
  | none => exact ok.expression.bind fun _ => .refl
  | some _ => exact .refl

theorem below_closureItem (ok : rules.Below rules') (kind : Kind) :
    Below (closureItem rules kind) (closureItem rules' kind) :=
  .ite (ok.statement .block) (ok.expression.bind fun _ => .refl)

theorem below_inlineClosure (ok : rules.Below rules') : Below (inlineClosure rules) (inlineClosure rules') := by
  refine .andThen fun _ => .bind (.loop fun items => .andThen fun token => ?_) fun _ => .refl
  split
  case h_6 => exact (below_closureItem ok _).bind fun _ => .refl
  all_goals exact .refl

theorem below_lambda (ok : rules.Below rules') : Below (lambda rules) (lambda rules') :=
  .andThen fun _ => ok.expression.bind fun _ => .andThen fun _ => ok.expression.bind fun _ => .refl

/-! ## Expressions -/

theorem below_primary (ok : rules.Below rules') : Below (primary rules) (primary rules') := by
  refine .andThen fun token => ?_
  split
  case h_12 => exact below_paren ok
  case h_13 => exact below_array ok
  case h_14 => exact below_mapping ok
  case h_15 => exact below_inlineClosure ok
  case h_16 => exact below_lambda ok
  all_goals exact .refl

theorem below_call (ok : rules.Below rules') (callee : Node) : Below (call rules callee) (call rules' callee) :=
  .andThen fun _ => (below_delimited _ _ ok.argument).bind fun _ => .refl

theorem below_member (ok : rules.Below rules') (object : Node) :
    Below (member rules object) (member rules' object) := by
  refine .andThen fun _ => .andThen fun opens => .ite ((below_paren ok).bind fun _ => .refl) ?_
  exact .andThen fun property => .andThen fun opens => .ite ((below_call ok property).bind fun _ => .refl) .refl

theorem below_trailers (ok : rules.Below rules') (left : Node) :
    Below (trailers rules left) (trailers rules' left) := by
  refine .loop fun left => .andThen fun token => ?_
  split
  · exact .ite ((below_call ok left).bind fun _ => .refl) .refl
  · exact (below_index ok left).bind fun _ => .refl
  · exact (below_member ok left).bind fun _ => .refl
  · exact (below_member ok left).bind fun _ => .refl
  all_goals exact .refl

theorem below_joined (ok : rules.Below rules') (left : Node) : Below (joined rules left) (joined rules' left) := by
  refine .loop fun left => .andThen fun _ => .ite ?_ .refl
  exact (below_primary ok).bind fun piece => (below_trailers ok piece).bind fun _ => .refl

theorem below_operand (ok : rules.Below rules') : Below (operand rules) (operand rules') := by
  refine .andThen fun token => .ite (.andThen fun _ => ok.operand.bind fun _ => .refl) ?_
  refine .ite (.andThen fun _ => ok.operand.bind fun _ => .refl) ?_
  exact (below_primary ok).bind fun piece => below_trailers ok piece

theorem below_tighter (ok : rules.Below rules') (rank : Nat) (right : Node) :
    Below (tighter rules rank right) (tighter rules' rank right) := by
  refine .loop fun right => .andThen fun token => ?_
  cases rank? token with
  | none => exact .refl
  | some next => exact .ite ((ok.climb right (rank + 1)).bind fun _ => .refl) .refl

theorem below_climb (ok : rules.Below rules') (left : Node) (min : Nat) :
    Below (climb rules left min) (climb rules' left min) := by
  refine .loop fun left => .andThen fun token => ?_
  cases rank? token with
  | none => exact .refl
  | some rank =>
    refine .ite (.andThen fun op => ok.operand.bind fun right => ?_) .refl
    exact (below_joined ok right).bind fun right => (below_tighter ok rank right).bind fun _ => .refl

theorem below_ternary (ok : rules.Below rules') (test : Node) : Below (ternary rules test) (ternary rules' test) := by
  refine .andThen fun question => ?_
  cases question with
  | none => exact .refl
  | some _ => exact ok.expression.bind fun _ => .andThen fun _ => ok.expression.bind fun _ => .refl

theorem below_assignment (ok : rules.Below rules') (left : Node) :
    Below (assignment rules left) (assignment rules' left) :=
  .andThen fun _ => .ite (.andThen fun _ => ok.expression.bind fun _ => .refl) .refl

theorem below_afterOperand (ok : rules.Below rules') (left : Node) :
    Below (afterOperand rules left) (afterOperand rules' left) :=
  (below_joined ok left).bind fun left => (below_climb ok left 0).bind fun test =>
    (below_ternary ok test).bind fun left => below_assignment ok left

theorem below_expression (ok : rules.Below rules') : Below (expression rules) (expression rules') :=
  (below_operand ok).bind fun left => below_afterOperand ok left

theorem below_expressionFrom (ok : rules.Below rules') (left : Node) :
    Below (expressionFrom rules left) (expressionFrom rules' left) :=
  (below_trailers ok left).bind fun left => below_afterOperand ok left

/-! ## Declarations -/

theorem below_declaratorRest (ok : rules.Below rules') (head : DeclaratorHead) (allowDefault : Bool) :
    Below (declaratorRest rules head allowDefault) (declaratorRest rules' head allowDefault) := by
  refine .andThen fun ellipsis => .andThen fun equals => ?_
  extract_lets join join'
  have hjoin (hasValue : Bool) : Below (join hasValue) (join' hasValue) :=
    .ite (.andThen fun _ => ok.expression.bind fun _ => .refl) .refl
  exact .ite (.andThen hjoin) (.ite (.andThen hjoin) (.andThen hjoin))

theorem below_declarator (ok : rules.Below rules') (allowDefault : Bool) :
    Below (declarator rules allowDefault) (declarator rules' allowDefault) := by
  refine .andThen fun token => .andThen fun star => .andThen fun ampersand => .andThen fun named => .ite ?_ ?_
  · exact .andThen fun name => below_declaratorRest ok _ allowDefault
  · refine .andThen fun spreads => ?_
    exact .ite (.andThen fun _ => below_declaratorRest ok _ allowDefault) (below_declaratorRest ok _ allowDefault)

theorem below_moreDeclarators (ok : rules.Below rules') (comments : Bool) (first : Node) :
    Below (moreDeclarators rules comments first) (moreDeclarators rules' comments first) := by
  refine .loop fun last => .andThen fun comma => ?_
  cases comma with
  | none => exact .refl
  | some _ =>
    extract_lets join join'
    have hjoin (last : Node) : Below (join last) (join' last) := (below_declarator ok false).bind fun _ => .refl
    exact .ite (.andThen hjoin) (.andThen hjoin)

theorem below_localDeclaration (ok : rules.Below rules') :
    Below (localDeclaration rules) (localDeclaration rules') := by
  refine .andThen fun token => .andThen fun modifiers => .andThen fun word => .andThen fun typeName => ?_
  exact (below_declarator ok false).bind fun first => (below_moreDeclarators ok false first).bind fun _ => .refl

theorem below_parameter (ok : rules.Below rules') : Below (parameter rules) (parameter rules') := by
  refine .andThen fun token => .andThen fun modifiers => .andThen fun first => .andThen fun isName => ?_
  refine .ite (below_expressionFrom ok _) (.andThen fun typeName => .andThen fun declares => .ite ?_ .refl)
  exact (below_declarator ok true).bind fun _ => .refl

theorem below_argument (ok : rules.Below rules') : Below (argument rules) (argument rules') := by
  refine .andThen fun kind => ?_
  split
  · exact below_parameter ok
  · exact below_parameter ok
  · exact below_expression ok

theorem below_block (ok : rules.Below rules') (openComment : Option Comment) :
    Below (block rules openComment) (block rules' openComment) := by
  refine .andThen fun start => .andThen fun r => ?_
  extract_lets join join'
  have hjoin (comment : Option Comment) : Below (join comment) (join' comment) :=
    (below_statementList ok .block _).bind fun _ => .refl
  exact .ite (.andThen hjoin) (.andThen hjoin)

theorem below_functionBody (ok : rules.Below rules') : Below (functionBody rules) (functionBody rules') := by
  refine .andThen fun opens => ?_
  extract_lets join join'
  have hjoin : Below (join ()) (join' ()) := .andThen fun pending => .andThen fun _ => below_block ok _
  exact .ite (.andThen fun _ => hjoin) hjoin

theorem below_function (ok : rules.Below rules') (scope : Scope) (head : DeclarationHead) (name : Node) :
    Below (function rules scope head name) (function rules' scope head name) := by
  refine .andThen fun _ => (below_delimited _ _ ok.argument).bind fun params => .andThen fun semicolon => ?_
  cases semicolon with
  | none =>
    extract_lets join join'
    have hjoin : Below (join ()) (join' ()) := (below_functionBody ok).bind fun _ => .refl
    exact .ite (.andThen fun _ => hjoin) hjoin
  | some _ => exact .refl

theorem below_structDefinition (ok : rules.Below rules') (start : Nat) (name : Token) :
    Below (structDefinition rules start name) (structDefinition rules' start name) :=
  .andThen fun _ => (below_statementList ok _ _).bind fun _ => .refl

theorem below_inherit (ok : rules.Below rules') (modifiers : List Lexeme) (start : Nat) :
    Below (inherit rules modifiers start) (inherit rules' modifiers start) :=
  .andThen fun _ => ok.expression.bind fun _ => .refl

theorem below_declared (ok : rules.Below rules') (scope : Scope) (start : Nat) (modifiers : List Lexeme)
    (typeName : Option Lexeme) :
    Below (declared rules scope start modifiers typeName) (declared rules' scope start modifiers typeName) := by
  refine .andThen fun token => .andThen fun star => .andThen fun ampersand => .andThen fun name => ?_
  refine .andThen fun opens => .ite (below_function ok scope _ name) ?_
  exact (below_declaratorRest ok _ false).bind fun first => (below_moreDeclarators ok true first).bind fun _ => .refl

theorem below_declaration (ok : rules.Below rules') (scope : Scope) :
    Below (declaration rules scope) (declaration rules' scope) := by
  refine .andThen fun token => .andThen fun modifiers => .andThen fun kind => ?_
  split
  · exact below_inherit ok modifiers _
  · refine .andThen fun first => .andThen fun isName => .ite ?_ (.ite (.andThen fun name => .andThen fun opens => ?_) ?_)
    · exact (below_expressionFrom ok _).bind fun _ => .refl
    · refine .ite ?_ (.andThen fun _ => below_declared ok _ _ _ _)
      cases modifiers with
      | nil => exact below_structDefinition ok _ name
      | cons => exact .refl
    · exact below_declared ok _ _ _ _
  · exact .ite .refl (below_declared ok _ _ _ _)

/-! ## Statements -/

theorem below_body (ok : rules.Below rules') : Below (body rules) (body rules') := by
  refine .andThen fun comments => .andThen fun _ => .andThen fun opens => .ite (below_block ok _) ?_
  exact .andThen fun _ => .andThen fun ends => .ite .refl (ok.statement .block)

theorem below_condition (ok : rules.Below rules') : Below (condition rules) (condition rules') :=
  .andThen fun _ => ok.expression.bind fun _ => .refl

theorem below_ifElse (ok : rules.Below rules') : Below (ifElse rules) (ifElse rules') := by
  refine .andThen fun keyword => .andThen fun _ => ok.expression.bind fun test => ?_
  refine .andThen fun comma => ?_
  extract_lets join join'
  have hjoin : Below (join ()) (join' ()) := by
    refine .andThen fun _ => (below_body ok).bind fun branch => .andThen fun consequent => .andThen fun _ => ?_
    refine .andThen fun r => .ite (.andThen fun _ => .andThen fun _ => .andThen fun chains => ?_) .refl
    exact .ite ((ok.statement .block).bind fun _ => .refl) ((below_body ok).bind fun _ => .refl)
  exact .ite (.andThen fun _ => .andThen fun _ => hjoin) hjoin

theorem below_whileLoop (ok : rules.Below rules') : Below (whileLoop rules) (whileLoop rules') :=
  .andThen fun _ => (below_condition ok).bind fun _ => (below_body ok).bind fun _ => .refl

theorem below_doWhile (ok : rules.Below rules') : Below (doWhile rules) (doWhile rules') :=
  .andThen fun _ => (below_body ok).bind fun _ => .andThen fun _ => (below_condition ok).bind fun _ => .refl

theorem below_commaList (ok : rules.Below rules') : Below (commaList rules) (commaList rules') := by
  refine ok.expression.bind fun first => .bind (.loop fun items => .andThen fun comma => ?_) fun _ => .refl
  cases comma with
  | none => exact .refl
  | some _ => exact ok.expression.bind fun _ => .refl

theorem below_forLoop (ok : rules.Below rules') : Below (forLoop rules) (forLoop rules') := by
  refine .andThen fun keyword => .andThen fun _ => .andThen fun kind => ?_
  extract_lets join join'
  have hjoin (init : Option Node) : Below (join init) (join' init) := by
    refine .andThen fun _ => .andThen fun ends => ?_
    extract_lets updated updated'
    have hupdated (test : Option Node) : Below (updated test) (updated' test) := by
      refine .andThen fun _ => .andThen fun closes => ?_
      extract_lets closed closed'
      have hclosed (update : Option Node) : Below (closed update) (closed' update) :=
        .andThen fun _ => (below_body ok).bind fun _ => .refl
      exact .ite (.andThen hclosed) ((below_commaList ok).map.bind hclosed)
    exact .ite (.andThen hupdated) (ok.expression.map.bind hupdated)
  split
  · exact .andThen hjoin
  · exact (below_localDeclaration ok).map.bind hjoin
  · exact (below_localDeclaration ok).map.bind hjoin
  · exact (below_commaList ok).map.bind hjoin

theorem below_maybeRange (ok : rules.Below rules') : Below (maybeRange rules) (maybeRange rules') := by
  refine ok.expression.bind fun first => .andThen fun range => ?_
  cases range with
  | none => exact .refl
  | some _ => exact ok.expression.bind fun _ => .refl

theorem below_foreachLoop (ok : rules.Below rules') : Below (foreachLoop rules) (foreachLoop rules') := by
  refine .andThen fun _ => .andThen fun _ => .bind (.loop fun vars => ok.argument.bind fun _ => .refl) fun vars => ?_
  exact .andThen fun _ => (below_maybeRange ok).bind fun _ => .andThen fun _ => (below_body ok).bind fun _ => .refl

theorem below_switchCase (ok : rules.Below rules') : Below (switchCase rules) (switchCase rules') := by
  refine .andThen fun keyword => ?_
  extract_lets join join'
  have hjoin (test : Option Node) : Below (join test) (join' test) :=
    .andThen fun _ => (below_statementList ok .block _).bind fun _ => .refl
  exact .ite ((below_maybeRange ok).map.bind hjoin) (.andThen hjoin)

theorem below_switch (ok : rules.Below rules') : Below (switch rules) (switch rules') := by
  refine .andThen fun keyword => (below_condition ok).bind fun test => .andThen fun _ => ?_
  refine .bind (.loop fun cases => .andThen fun token => ?_) fun _ => .refl
  split
  case h_4 => exact (below_switchCase ok).bind fun _ => .refl
  case h_5 => exact (below_switchCase ok).bind fun _ => .refl
  all_goals exact .refl

theorem below_returnValue (ok : rules.Below rules') : Below (returnValue rules) (returnValue rules') := by
  refine .andThen fun keyword => .andThen fun kind => ?_
  exact .ite .refl (ok.expression.map.bind fun _ => .refl)

theorem below_expressionStatement (ok : rules.Below rules') (scope : Scope) :
    Below (expressionStatement rules scope) (expressionStatement rules' scope) := by
  refine (below_expression ok).bind fun node => ?_
  split
  · refine .ite .refl (.andThen fun opens => .ite ?_ .refl)
    exact (below_functionBody ok).bind fun _ => .refl
  · exact .refl

theorem below_statement (ok : rules.Below rules') (scope : Scope) :
    Below (statement rules scope) (statement rules' scope) := by
  refine .andThen fun kind => ?_
  split
  · exact below_block ok none
  · exact below_ifElse ok
  · exact below_whileLoop ok
  · exact below_doWhile ok
  · exact below_forLoop ok
  · exact below_foreachLoop ok
  · exact below_switch ok
  · exact below_returnValue ok
  · exact .refl
  · exact .refl
  · exact .andThen fun _ => below_inherit ok _ _
  · exact .refl
  · exact below_declaration ok scope
  · exact below_declaration ok scope
  · exact below_expressionStatement ok scope

end Grammar

open Grammar

/-! ## Depths -/

/-- **The rules of a depth are below those of every greater depth.** -/
theorem Rules.below_upTo {depth depth' : Nat} (hle : depth ≤ depth') :
    (Rules.upTo depth).Below (Rules.upTo depth') := by
  induction depth generalizing depth' with
  | zero => exact ⟨.exhausted, .exhausted, fun _ _ => .exhausted, .exhausted, fun _ => .exhausted⟩
  | succ depth ih =>
    obtain ⟨depth', rfl⟩ := Nat.exists_eq_add_one.2 (Nat.zero_lt_of_lt hle)
    have ok := ih (Nat.le_of_succ_le_succ hle)
    exact {
      expression := below_expression ok
      operand := below_operand ok
      climb := below_climb ok
      argument := below_argument ok
      statement := below_statement ok }

end LpcStyle
