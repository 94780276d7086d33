import Mathlib.Tactic
import LpcStyle.Grammar.Expression
import LpcStyle.Proofs.Grammar.InStep.Bracketed

/-!
Expressions are read in step. What follows an operand makes it grow: the node goes on from where the operand started.
-/

namespace LpcStyle

open Text LpcStyle.Parser

namespace Twins

variable (τ : Twins) (k : Nat)

/-- which operator a token is does not depend on where it stands -/
@[simp] theorem rank_right : Grammar.rank? (τ.right k) = Grammar.rank? (τ.left k) := by
  simp only [Grammar.rank?, τ.kind_right, τ.text_right]

@[simp] theorem isStep_right : Grammar.isStep (τ.right k) = Grammar.isStep (τ.left k) := by
  simp only [Grammar.isStep, τ.kind_right, τ.text_right]

@[simp] theorem isPrefixOperator_right : Grammar.isPrefixOperator (τ.right k) = Grammar.isPrefixOperator (τ.left k) := by
  simp only [Grammar.isPrefixOperator, τ.kind_right, τ.text_right, isStep_right]

theorem ofToken_right : (Lexeme.ofToken (τ.right k)).unplaced = (Lexeme.ofToken (τ.left k)).unplaced := by
  simp only [Lexeme.unplaced, Lexeme.ofToken, τ.text_right]

end Twins

namespace Grammar

variable {τ : Twins} {i k depth : Nat} {rules rules' : Rules} {left left' : Node}

/-- a node that goes on behind an operand -/
def Grows (τ : Twins) (i k j : Nat) (n n' : Node) : Prop := k ≤ j ∧ τ.Same i j n n'

theorem inStep_atName {β : Type} {f f' : Bool → Parser β} {R : Nat → β → β → Prop}
    (h : ∀ b, (b = true → (τ.left k).kind ≠ .endOfFile) → InStep τ k (f b) (f' b) R) :
    InStep τ k (atName >>= f) (atName >>= f') R := by
  have hname : InStep τ k atName atName fun j b b' => j = k ∧ b' = b ∧ (b = true → (τ.left k).kind ≠ .endOfFile) := by
    refine .peek_bind (.pure ⟨rfl, by rw [τ.kind_right, τ.text_right], ?_⟩)
    intro hname hkind
    simp [hkind] at hname
  refine .bind hname ?_
  rintro j b b' ⟨rfl, rfl, hne⟩
  exact h _ hne

theorem inStep_name : InStep τ k name name (Gives τ k) := by
  unfold name
  refine inStep_atName fun b hne => .ite Iff.rfl (fun hb => .take_bind (hne hb) fun _ => ?_) fun _ => .wanted
  refine .pure ⟨Nat.lt_succ_self k, .ofShape (.place (Twins.lt_size (hne hb))) ?_⟩
  simp only [Shape.unplaced, τ.text_right]

theorem inStep_primary (ok : rules.Along τ depth rules') (hk : τ.size ≤ k + depth) :
    InStep τ k (primary rules) (primary rules') (Gives τ k) := by
  unfold primary
  refine .peek_bind ?_
  extract_lets whole whole'
  have hwhole {shape shape' : Shape Node} (hne : (τ.left k).kind ≠ .endOfFile)
      (hshape : shape.unplaced false = shape'.unplaced false) :
      InStep τ k (whole shape) (whole' shape') (Gives τ k) :=
    .take_bind hne fun _ => .pure ⟨Nat.lt_succ_self k, .ofShape (.place (Twins.lt_size hne)) hshape⟩
  rw [τ.kind_right, τ.text_right]
  split
  · next hkind => exact hwhole (by simp [hkind]) rfl
  · next hkind => exact hwhole (by simp [hkind]) rfl
  · next hkind => exact hwhole (by simp [hkind]) rfl
  · next hkind => exact hwhole (by simp [hkind]) rfl
  · exact inStep_name
  · exact .ite Iff.rfl (fun _ => inStep_name) fun _ => .wanted
  · next hkind => exact hwhole (by simp [hkind]) rfl
  · next hkind => exact hwhole (by simp [hkind]) rfl
  · next hkind => exact hwhole (by simp [hkind]) rfl
  · next hkind =>
    refine .take_bind (by simp [hkind]) fun _ => .bind inStep_name ?_
    rintro j member member' ⟨hkj, hmember⟩
    have hstart := Twins.Lies.place (Twins.lt_size (k := k) (τ := τ) (by simp [hkind]))
    refine .build (hstart.onward hmember.lies le_rfl) ?_ fun n n' h => ⟨by omega, h⟩
    simp only [Shape.unplaced, Node.unplaced?, hmember.unplaced]
  · exact inStep_textBlock
  · exact inStep_paren ok hk
  · exact inStep_array ok hk
  · exact inStep_mapping ok hk
  · exact inStep_inlineClosure ok hk
  · exact inStep_lambda ok hk
  · exact .wanted

theorem inStep_call (ok : rules.Along τ depth rules') (hk : τ.size ≤ k + depth) (h : τ.Same i k left left') :
    InStep τ k (call rules left) (call rules' left') fun j n n' => k < j ∧ τ.Same i j n n' := by
  unfold call
  refine .expect_bind (by simp) fun _ _ => ?_
  refine .bind (inStep_delimited (by simp) fun j hj => ok.argument (by omega)) fun j x x' hx => ?_
  have := hx.lt
  refine .build (h.lies.onward hx.close (Nat.le_succ k)) ?_ fun n n' h => ⟨by omega, h⟩
  simp only [Shape.unplaced, h.unplaced, hx.same.unplaced]

theorem inStep_member (ok : rules.Along τ depth rules') (hk : τ.size ≤ k + depth) (h : τ.Same i k left left')
    (hkind : (τ.left k).kind ≠ .endOfFile) :
    InStep τ k (member rules left) (member rules' left') fun j n n' => k < j ∧ τ.Same i j n n' := by
  unfold member
  refine .take_bind hkind fun _ => ?_
  extract_lets isDot join isDot' join'
  have hjoin {m : Nat} (property property' : Node) (hm : k + 1 < m) (hproperty : τ.Same (k + 1) m property property') :
      InStep τ m (join property) (join' property') fun j n n' => k < j ∧ τ.Same i j n n' := by
    refine .build (h.lies.onward hproperty.lies (Nat.le_succ k)) ?_ fun n n' h => ⟨by omega, h⟩
    simp only [Shape.unplaced, h.unplaced, hproperty.unplaced, isDot, isDot', τ.kind_right]
  refine .at_bind (.ite Iff.rfl (fun _ => .bind (inStep_paren ok (by omega)) ?_) fun _ => .bind inStep_name ?_)
  · rintro m property property' ⟨hm, hproperty⟩
    exact hjoin property property' hm hproperty
  · rintro m property property' ⟨hm, hproperty⟩
    refine .at_bind (.ite Iff.rfl (fun _ => .bind (inStep_call ok (by omega) hproperty) ?_) fun _ => ?_)
    · rintro l property property' ⟨hl, hproperty⟩
      exact hjoin property property' (by omega) hproperty
    · exact hjoin property property' hm hproperty

/-- **What follows an operand** is the same in both texts. -/
theorem inStep_trailers (ok : rules.Along τ depth rules') (hk : τ.size ≤ k + depth) (h : τ.Same i k left left') :
    InStep τ k (trailers rules left) (trailers rules' left') (Grows τ i k) := by
  refine .loop (I := Grows τ i k) ⟨le_rfl, h⟩ ?_
  rintro j left left' - ⟨hkj, hleft⟩
  have hdone : InStep τ j (pure (.inr left)) (pure (.inr left')) (Next (Grows τ i k) (Grows τ i k) j) :=
    .pure (.done ⟨hkj, hleft⟩)
  have hagain (m : Nat) (n n' : Node) (hn : j < m ∧ τ.Same i m n n') :
      InStep τ m (pure (.inl n)) (pure (.inl n')) (Next (Grows τ i k) (Grows τ i k) j) :=
    .pure (.again hn.1 ⟨by omega, hn.2⟩)
  refine .peek_bind ?_
  rw [τ.kind_right]
  split
  · refine .ite (by rw [Node.isCallable_of_unplaced hleft.unplaced]) (fun _ => ?_) fun _ => hdone
    exact .bind (inStep_call ok (by omega) hleft) hagain
  · exact .bind (inStep_index ok (by omega) hleft) hagain
  · next hkind => exact .bind (inStep_member ok (by omega) hleft (by simp [hkind])) hagain
  · next hkind => exact .bind (inStep_member ok (by omega) hleft (by simp [hkind])) hagain
  · next hkind =>
    refine .ite (by rw [Node.isIdentifier_of_unplaced hleft.unplaced]) (fun _ => .take_bind (by simp [hkind]) fun _ => ?_) fun _ => hdone
    refine .bind inStep_name ?_
    rintro m member member' ⟨hm, hmember⟩
    refine .bind (.build (hleft.lies.onward hmember.lies (Nat.le_succ j)) ?_ fun n n' h => ⟨?_, h⟩) hagain
    · simp only [Shape.unplaced, Node.unplaced?, hleft.unplaced, hmember.unplaced]
    · omega
  · next hkind =>
    rw [τ.isStep_right]
    refine .ite Iff.rfl (fun _ => .take_bind (by simp [hkind]) fun _ => ?_) fun _ => hdone
    have hspan := hleft.lies.onward (.place (Twins.lt_size (k := j) (by simp [hkind]))) le_rfl
    refine .bind (.build hspan ?_ fun n n' h => ⟨Nat.lt_succ_self j, h⟩) hagain
    simp only [Shape.unplaced, Node.unplaced?, hleft.unplaced, τ.ofToken_right]
  · next hkind =>
    refine .take_bind (by simp [hkind]) fun _ => ?_
    have hspan := hleft.lies.onward (.place (Twins.lt_size (k := j) (by simp [hkind]))) le_rfl
    refine .bind (.build hspan ?_ fun n n' h => ⟨Nat.lt_succ_self j, h⟩) hagain
    simp only [Shape.unplaced, hleft.unplaced]
  · exact hdone

/-- an operand and what follows it -/
theorem inStep_primary_trailers (ok : rules.Along τ depth rules') (hk : τ.size ≤ k + depth) :
    InStep τ k (do trailers rules (← primary rules)) (do trailers rules' (← primary rules')) (Gives τ k) := by
  refine .bind (inStep_primary ok hk) ?_
  rintro j n n' ⟨hkj, hn⟩
  refine .mono (inStep_trailers ok (by omega) hn) ?_
  rintro m n n' ⟨hjm, hn⟩
  exact ⟨by omega, hn⟩

theorem inStep_joined (ok : rules.Along τ depth rules') (hk : τ.size ≤ k + depth) (h : τ.Same i k left left') :
    InStep τ k (joined rules left) (joined rules' left') (Grows τ i k) := by
  refine .loop (I := Grows τ i k) ⟨le_rfl, h⟩ ?_
  rintro j left left' - ⟨hkj, hleft⟩
  refine .peekKind_bind ?_
  rw [Node.joins_of_unplaced hleft.unplaced]
  refine .ite Iff.rfl (fun _ => ?_) fun _ => .pure (.done ⟨hkj, hleft⟩)
  refine .bind (inStep_primary ok (by omega)) ?_
  rintro m right right' ⟨hjm, hright⟩
  refine .bind (inStep_trailers ok (by omega) hright) ?_
  rintro m' right right' ⟨hmm, hright⟩
  refine .bind (.build (Q := fun l n n' => j < l ∧ τ.Same i l n n') (hleft.lies.onward hright.lies le_rfl) ?_
    fun n n' h => ⟨by omega, h⟩) ?_
  · simp only [Shape.unplaced, Lexeme.unplaced, hleft.unplaced, hright.unplaced]
  · rintro l n n' ⟨hjl, hn⟩
    exact .pure (.again hjl ⟨by omega, hn⟩)

theorem inStep_operand (ok : rules.Along τ depth rules') (hk : τ.size ≤ k + depth) :
    InStep τ k (operand rules) (operand rules') (Gives τ k) := by
  unfold operand
  refine .peek_bind ?_
  rw [τ.kind_right, τ.isPrefixOperator_right]
  refine .ite Iff.rfl (fun hkind => .take_bind (by simp [hkind]) fun _ => .bind (ok.operand (by omega)) ?_) fun _ => ?_
  · rintro j argument argument' ⟨hkj, hargument⟩
    have hstart := Twins.Lies.place (Twins.lt_size (k := k) (τ := τ) (by simp [hkind]))
    refine .build (hstart.onward hargument.lies le_rfl) ?_ fun n n' h => ⟨by omega, h⟩
    simp only [Shape.unplaced, Lexeme.unplaced, castType, hargument.unplaced, τ.text_right]
  refine .ite Iff.rfl (fun hprefix => ?_) fun _ => inStep_primary_trailers ok hk
  have hne := ne_endOfFile_of_isPrefixOperator hprefix
  refine .take_bind hne fun _ => .bind (ok.operand (by omega)) ?_
  rintro j argument argument' ⟨hkj, hargument⟩
  refine .build ((Twins.Lies.place (Twins.lt_size hne)).onward hargument.lies le_rfl) ?_ fun n n' h => ⟨by omega, h⟩
  simp only [Shape.unplaced, hargument.unplaced, τ.ofToken_right]

theorem inStep_tighter (ok : rules.Along τ depth rules') (hk : τ.size < k + depth) (hik : i ≤ k) (rank : Nat)
    (h : τ.Same i k left left') : InStep τ k (tighter rules rank left) (tighter rules' rank left') (Grows τ i k) := by
  refine .loop (I := Grows τ i k) ⟨le_rfl, h⟩ ?_
  rintro j right right' - ⟨hkj, hright⟩
  refine .peek_bind ?_
  rw [τ.rank_right]
  cases hrank : rank? (τ.left j) with
  | none => exact .pure (.done ⟨hkj, hright⟩)
  | some next =>
    refine .ite Iff.rfl (fun hlt => ?_) fun _ => .pure (.done ⟨hkj, hright⟩)
    refine .bind (ok.climb (by omega) (by omega) hright) ?_
    rintro m n n' ⟨hjm, hn, hprogress⟩
    exact .pure (.again (hprogress next hrank hlt) ⟨by omega, hn⟩)

/-- **Climbing** takes an operator if the next one binds tight enough. -/
theorem inStep_climb (ok : rules.Along τ depth rules') (hk : τ.size ≤ k + depth) (min : Nat) (h : τ.Same i k left left') :
    InStep τ k (climb rules left min) (climb rules' left' min) fun j n n' => k ≤ j ∧ τ.Same i j n n' ∧
      ∀ rank, rank? (τ.left k) = some rank → min ≤ rank → k < j := by
  refine .loop (I := Grows τ i k) ⟨le_rfl, h⟩ ?_
  rintro j left left' - ⟨hkj, hleft⟩
  -- the loop ends where it started only if there is no such operator
  have hdone (hstop : ∀ rank, rank? (τ.left j) = some rank → min ≤ rank → False) :
      k ≤ j ∧ τ.Same i j left left' ∧ ∀ rank, rank? (τ.left k) = some rank → min ≤ rank → k < j := by
    refine ⟨hkj, hleft, fun rank hrank hmin => ?_⟩
    rcases Nat.eq_or_lt_of_le hkj with rfl | hlt
    · exact (hstop rank hrank hmin).elim
    · exact hlt
  refine .peek_bind ?_
  rw [τ.rank_right]
  cases hrank : rank? (τ.left j) with
  | none => exact .pure (.done (hdone (by simp [hrank])))
  | some rank =>
    refine .ite Iff.rfl (fun hmin => ?_) fun hmin => .pure (.done (hdone ?_))
    · refine .take_bind (ne_endOfFile_of_rank hrank) fun _ => .bind (ok.operand (by omega)) ?_
      rintro m right right' ⟨hjm, hright⟩
      refine .bind (inStep_joined ok (by omega) hright) ?_
      rintro m' right right' ⟨hmm, hright⟩
      refine .bind (inStep_tighter ok (by omega) (by omega) rank hright) ?_
      rintro l right right' ⟨hml, hright⟩
      extract_lets shape shape'
      have hshape : shape.unplaced false = shape'.unplaced false := by
        simp only [shape, shape', τ.kind_right]
        split <;> simp only [Shape.unplaced, hleft.unplaced, hright.unplaced, τ.ofToken_right]
      refine .bind (.build (Q := fun l n n' => j < l ∧ τ.Same i l n n')
        (hleft.lies.onward hright.lies (Nat.le_succ j)) hshape fun n n' h => ⟨by omega, h⟩) ?_
      rintro l n n' ⟨hjl, hn⟩
      exact .pure (.again hjl ⟨by omega, hn⟩)
    · rintro next hnext hle
      rw [hrank, Option.some.injEq] at hnext
      omega

theorem inStep_ternary (ok : rules.Along τ depth rules') (hk : τ.size ≤ k + depth) (h : τ.Same i k left left') :
    InStep τ k (ternary rules left) (ternary rules' left') (Grows τ i k) := by
  unfold ternary
  refine .eat_bind (by simp) (fun _ _ => .bind (ok.expression (by omega)) ?_) fun _ => .pure ⟨le_rfl, h⟩
  rintro j consequent consequent' ⟨hkj, hconsequent⟩
  refine .expect_bind (by simp) fun _ _ => .bind (ok.expression (by omega)) ?_
  rintro m alternate alternate' ⟨hjm, halternate⟩
  refine .build (h.lies.onward halternate.lies (by omega)) ?_ fun n n' h => ⟨by omega, h⟩
  simp only [Shape.unplaced, h.unplaced, hconsequent.unplaced, halternate.unplaced]

theorem inStep_assignment (ok : rules.Along τ depth rules') (hk : τ.size ≤ k + depth) (h : τ.Same i k left left') :
    InStep τ k (assignment rules left) (assignment rules' left') (Grows τ i k) := by
  unfold assignment
  refine .peek_bind ?_
  rw [τ.kind_right, τ.isStep_right]
  refine .ite Iff.rfl (fun hkind => ?_) fun _ => .pure ⟨le_rfl, h⟩
  have hne : (τ.left k).kind ≠ .endOfFile := by
    intro heof
    simp [heof] at hkind
  refine .take_bind hne fun _ => .bind (ok.expression (by omega)) ?_
  rintro j right right' ⟨hkj, hright⟩
  refine .build (h.lies.onward hright.lies (Nat.le_succ k)) ?_ fun n n' h => ⟨by omega, h⟩
  simp only [Shape.unplaced, Node.unplaced?, h.unplaced, hright.unplaced, τ.ofToken_right]

theorem inStep_afterOperand (ok : rules.Along τ depth rules') (hk : τ.size ≤ k + depth) (h : τ.Same i k left left') :
    InStep τ k (afterOperand rules left) (afterOperand rules' left') (Grows τ i k) := by
  unfold afterOperand
  refine .bind (inStep_joined ok hk h) ?_
  rintro j n n' ⟨hkj, hn⟩
  refine .bind (inStep_climb ok (by omega) 0 hn) ?_
  rintro m n n' ⟨hjm, hn, -⟩
  refine .bind (inStep_ternary ok (by omega) hn) ?_
  rintro l n n' ⟨hml, hn⟩
  refine .mono (inStep_assignment ok (by omega) hn) ?_
  rintro o n n' ⟨hlo, hn⟩
  exact ⟨by omega, hn⟩

theorem inStep_expression (ok : rules.Along τ depth rules') (hk : τ.size ≤ k + depth) :
    InStep τ k (expression rules) (expression rules') (Gives τ k) := by
  unfold expression
  refine .bind (inStep_operand ok hk) ?_
  rintro j n n' ⟨hkj, hn⟩
  refine .mono (inStep_afterOperand ok (by omega) hn) ?_
  rintro m n n' ⟨hjm, hn⟩
  exact ⟨by omega, hn⟩

theorem inStep_expressionFrom (ok : rules.Along τ depth rules') (hk : τ.size ≤ k + depth) (h : τ.Same i k left left') :
    InStep τ k (expressionFrom rules left) (expressionFrom rules' left') (Grows τ i k) := by
  unfold expressionFrom
  refine .bind (inStep_trailers ok hk h) ?_
  rintro j n n' ⟨hkj, hn⟩
  refine .mono (inStep_afterOperand ok (by omega) hn) ?_
  rintro m n n' ⟨hjm, hn⟩
  exact ⟨by omega, hn⟩

end Grammar

end LpcStyle
