import Mathlib.Tactic
import LpcStyle.Proofs.Grammar.Walks.Bracketed

/-!
Walks through expressions. What goes on behind an operand starts with it and ends later, so it takes in all that the
operand takes in.
-/

namespace LpcStyle.Grammar

open Text LpcStyle.Parser

variable {text : List Char} {K : Reading → Prop} {opened later : List Enclosure} {lo m : Nat} {rules : Rules}
  {t : Token} {β : Type} {R : β → Nat → Prop} {left : Node}

theorem walks_atName_bind {f : Bool → Parser β}
    (h : ∀ t, Walks text (Comes t) opened lo (f (t.kind = .name || t.kind = .typeWord && Words.isTypeAllowedAsName t.text))
      later R) : Walks text K opened lo (atName >>= f) later R := by
  rw [atName, bind_assoc]
  simp only [pure_bind]
  exact .peek_bind fun t _ => h t

/-- a name is one token -/
theorem walks_name :
    Walks text K opened lo name opened fun n hi => n.Sits text lo hi ∧ Reached text n.span := by
  unfold name
  refine walks_atName_bind fun t => .ite ?_ fun _ => .wanted
  intro ht
  have hkind : t.kind = .name ∨ t.kind = .typeWord := by
    rcases Bool.or_eq_true_iff.1 ht with h | h
    · exact .inl (of_decide_eq_true h)
    · exact .inr (of_decide_eq_true (Bool.and_eq_true_iff.1 h).1)
  have hplain : t.kind.turn opened = some opened ∧ t.kind.isFirm = true := by
    rcases hkind with hkind | hkind <;> rw [hkind] <;> exact ⟨rfl, rfl⟩
  refine .take_bind hplain.1 hplain.2 ?_
  intro ht
  exact .pure ⟨sits_leaf ht rfl rfl, ht.reached⟩

theorem walks_nameNode : Walks text K opened lo name opened (Node.Sits text lo) := walks_name.imp fun _ _ _ h => h.1

/-- **An operand by itself**: one token, or a form between brackets. -/
theorem walks_primary (ok : rules.Walk text) : Walks text K opened lo (primary rules) opened (Node.Sits text lo) := by
  unfold primary
  refine .peek_bind fun t _ => ?_
  extract_lets whole
  have hwhole {k : Kind} {shape : Shape Node} (ht : t.kind = k) (hturn : k.turn opened = some opened)
      (hfirm : k.isFirm = true) (hbranches : shape.branches = []) (hplain : shape.isShell = false) :
      Walks text (Comes t) opened lo (whole shape) opened (Node.Sits text lo) :=
    .takeKind_bind ht hturn hfirm fun ht => .pure (sits_leaf ht hbranches hplain)
  split
  · next ht => exact hwhole ht rfl rfl rfl rfl
  · next ht => exact hwhole ht rfl rfl rfl rfl
  · next ht => exact hwhole ht rfl rfl rfl rfl
  · next ht => exact hwhole ht rfl rfl rfl rfl
  · exact walks_nameNode
  · exact .ite (fun _ => walks_nameNode) fun _ => .wanted
  · next ht => exact hwhole ht rfl rfl rfl rfl
  · next ht => exact hwhole ht rfl rfl rfl rfl
  · next ht => exact hwhole ht rfl rfl rfl rfl
  · next ht =>
    refine .takeKind_bind ht rfl rfl fun ht => .bind walks_nameNode ?_
    intro member hi _ hmember
    exact .build fun _ => ⟨.opened ht.start ht.pos hmember.stop (hmember.tight le_rfl), rfl⟩
  · exact walks_textBlock
  · exact walks_paren ok
  · exact walks_array ok
  · exact walks_mapping ok
  · exact walks_inlineClosure ok
  · exact walks_lambda ok
  · exact .wanted

/-! ## What follows an operand -/

theorem walks_call (ok : rules.Walk text) {callee : Node} (hcallee : callee.Sits text lo m) :
    Walks text K opened m (call rules callee) opened (Node.Sits text lo) := by
  unfold call
  refine .expect_bind rfl rfl fun start hstart => .bind (walks_delimited rfl rfl ok.argument.rests) ?_
  intro x hi _ hx
  refine .build fun _ => ⟨.grown hcallee.toRests rfl ?_ hx.stop (hx.items.widen hstart.lt.le le_rfl), rfl⟩
  exact hstart.lt.trans_le hx.items.le

theorem walks_member (ok : rules.Walk text) {object : Node} (hobject : object.Sits text lo m)
    (ht : t.kind = .arrow ∨ t.kind = .dot) :
    Walks text (Comes t) opened m (member rules object) opened (Node.Sits text lo) := by
  have hplain : t.kind.turn opened = some opened ∧ t.kind.isFirm = true := by
    rcases ht with ht | ht <;> rw [ht] <;> exact ⟨rfl, rfl⟩
  unfold member
  refine .take_bind hplain.1 hplain.2 ?_
  intro hmark
  extract_lets dot join
  have hjoin {m' : Nat} (property : Node) (hproperty : property.Sits text t.span.stop m') :
      Walks text Anywhere opened m' (join property) opened (Node.Sits text lo) := by
    exact .build fun _ => ⟨.joins hobject.toRests hmark.lt.le hproperty.toRests rfl, rfl⟩
  refine .at_bind fun u => .ite (fun _ => ?_) fun _ => .bind walks_nameNode ?_
  · exact .bind (walks_paren ok) fun property _ _ hproperty => hjoin property hproperty
  · intro property m' _ hproperty
    refine .at_bind fun u => .ite (fun _ => ?_) fun _ => (hjoin property hproperty).anywhere
    exact .bind (walks_call ok hproperty) fun property _ _ hproperty => hjoin property hproperty

theorem walks_trailers (ok : rules.Walk text) {operand : Node} (hoperand : operand.Sits text lo m) :
    Walks text K opened m (trailers rules operand) opened (Node.Sits text lo) := by
  refine .loop (Node.Sits text lo) hoperand ?_
  intro left m' _ hleft
  refine .peek_bind fun t _ => ?_
  split
  · refine .ite (fun _ => ?_) fun _ => .pure hleft
    exact .again (walks_call ok hleft)
  · exact .again (walks_index ok hleft)
  · next ht => exact .again (walks_member ok hleft (.inl ht))
  · next ht => exact .again (walks_member ok hleft (.inr ht))
  · next ht =>
    refine .ite (fun _ => ?_) fun _ => .pure hleft
    refine .takeKind_bind ht rfl rfl fun hmark => .bind walks_nameNode ?_
    intro member hi _ hmember
    refine .again (.build fun _ => ?_)
    exact ⟨.joins hleft.toRests hmark.lt.le hmember.toRests rfl, rfl⟩
  · next ht =>
    refine .ite (fun _ => ?_) fun _ => .pure hleft
    refine .takeKind_bind ht rfl rfl ?_
    intro hmark
    refine .again (.build fun _ => ?_)
    exact ⟨.grown hleft.toRests rfl hmark.lt le_rfl (.nil hmark.lt.le), rfl⟩
  · next ht =>
    refine .takeKind_bind ht rfl rfl ?_
    intro hmark
    refine .again (.build fun _ => ?_)
    exact ⟨.grown hleft.toRests rfl hmark.lt le_rfl (.nil hmark.lt.le), rfl⟩
  · exact .pure hleft

theorem walks_joined (ok : rules.Walk text) {operand : Node} (hoperand : operand.Sits text lo m) :
    Walks text K opened m (joined rules operand) opened (Node.Sits text lo) := by
  refine .loop (Node.Sits text lo) hoperand ?_
  intro left m' _ hleft
  refine .peekKind_bind fun t => .ite (fun _ => ?_) fun _ => .pure hleft
  refine .bind (walks_primary ok) fun operand m₁ hm₁ hoperand => .bind (walks_trailers ok hoperand) ?_
  intro right hi _ hright
  refine .again (.build fun _ => ?_)
  exact ⟨.joins hleft.toRests le_rfl hright.toRests rfl, rfl⟩

theorem walks_operand (ok : rules.Walk text) : Walks text K opened lo (operand rules) opened (Node.Sits text lo) := by
  unfold operand
  refine .peek_bind fun t _ => .ite (fun ht => ?_) fun _ => .ite (fun ht => ?_) fun _ => ?_
  · refine .takeKind_bind ht rfl rfl fun hmark => .bind ok.operand ?_
    intro argument hi _ hargument
    exact .build fun _ => ⟨.opened hmark.start hmark.pos hargument.stop (hargument.tight le_rfl), rfl⟩
  · have hplain : t.kind.turn opened = some opened ∧ t.kind.isFirm = true := by
      cases hkind : t.kind <;> simp only [isPrefixOperator, hkind] at ht <;> first | exact ⟨rfl, rfl⟩ | cases ht
    refine .take_bind hplain.1 hplain.2 fun hmark => .bind ok.operand ?_
    intro argument hi _ hargument
    exact .build fun _ => ⟨.opened hmark.start hmark.pos hargument.stop (hargument.tight le_rfl), rfl⟩
  · exact .bind (walks_primary ok) fun operand _ _ h => walks_trailers ok h

/-! ## Operators -/

theorem walks_tighter (ok : rules.Walk text) (rank : Nat) {right : Node} (hright : right.Sits text lo m) :
    Walks text K opened m (tighter rules rank right) opened (Node.Sits text lo) := by
  refine .loop (Node.Sits text lo) hright ?_
  intro right m' _ hright
  refine .peek_bind fun t _ => ?_
  cases rank? t with
  | none => exact .pure hright
  | some next =>
    refine .ite (fun _ => ?_) fun _ => .pure hright
    exact .again (ok.climb hright _)

/-- **Operators** between operands: the left one comes before the operator, and the right one behind it. -/
theorem walks_climb (ok : rules.Walk text) (hleft : left.Sits text lo m) (min : Nat) :
    Walks text K opened m (climb rules left min) opened (Node.Sits text lo) := by
  refine .loop (Node.Sits text lo) hleft ?_
  intro left m' _ hleft
  refine .peek_bind fun t _ => ?_
  cases hrank : rank? t with
  | none => exact .pure hleft
  | some rank =>
    have hplain : t.kind.turn opened = some opened ∧ t.kind.isFirm = true := by
      rcases kind_of_rank hrank with hkind | hkind | hkind | hkind <;> rw [hkind] <;> exact ⟨rfl, rfl⟩
    refine .ite (fun _ => .take_bind hplain.1 hplain.2 fun hop => .bind ok.operand ?_) fun _ => .pure hleft
    intro operand m₁ _ hoperand
    refine .bind (walks_joined ok hoperand) fun right m₂ _ hright => .bind (walks_tighter ok rank hright) ?_
    intro right hi _ hright
    refine .again (.build fun _ => ?_)
    split
    · exact ⟨.joins hleft.toRests hop.lt.le hright.toRests rfl, rfl⟩
    · exact ⟨.joins hleft.toRests hop.lt.le hright.toRests rfl, rfl⟩

theorem walks_ternary (ok : rules.Walk text) {test : Node} (htest : test.Sits text lo m) :
    Walks text K opened m (ternary rules test) opened (Node.Sits text lo) := by
  refine .eat_bind rfl rfl (fun question hquestion => .bind ok.expression ?_) (.pure htest)
  intro consequent m₁ _ hconsequent
  refine .expect_bind rfl rfl fun colon hcolon => .bind ok.expression ?_
  intro alternate hi _ halternate
  refine .build fun _ => ⟨.grown htest.toRests rfl ?_ halternate.stop ?_, rfl⟩
  · have := hconsequent.toRests.lt
    have := hquestion.lt
    have := hcolon.lt
    have := halternate.starts
    omega
  · exact (hconsequent.toRests.alone.widen hquestion.lt.le hcolon.lt.le).append (halternate.tight le_rfl)

theorem walks_assignment (ok : rules.Walk text) (hleft : left.Sits text lo m) :
    Walks text K opened m (assignment rules left) opened (Node.Sits text lo) := by
  refine .peek_bind fun t _ => .ite (fun ht => ?_) fun _ => .pure hleft
  have hkind : t.kind = .assignOp := of_decide_eq_true (Bool.and_eq_true_iff.1 ht).1
  refine .takeKind_bind hkind rfl rfl fun hop => .bind ok.expression ?_
  intro right hi _ hright
  exact .build fun _ => ⟨.joins hleft.toRests hop.lt.le hright.toRests rfl, rfl⟩

theorem walks_afterOperand (ok : rules.Walk text) (hleft : left.Sits text lo m) :
    Walks text K opened m (afterOperand rules left) opened (Node.Sits text lo) :=
  .bind (walks_joined ok hleft) fun _ _ _ h => .bind (walks_climb ok h 0) fun _ _ _ h =>
    .bind (walks_ternary ok h) fun _ _ _ h => walks_assignment ok h

theorem walks_expression (ok : rules.Walk text) :
    Walks text K opened lo (expression rules) opened (Node.Sits text lo) :=
  .bind (walks_operand ok) fun _ _ _ h => walks_afterOperand ok h

theorem walks_expressionFrom (ok : rules.Walk text) (hleft : left.Sits text lo m) :
    Walks text K opened m (expressionFrom rules left) opened (Node.Sits text lo) :=
  .bind (walks_trailers ok hleft) fun _ _ _ h => walks_afterOperand ok h

end LpcStyle.Grammar
