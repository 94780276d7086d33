import Mathlib.Tactic
import LpcStyle.Grammar.Statement
import LpcStyle.Proofs.Grammar.InStep.Declaration

/-!
Statements are read in step.
-/

namespace LpcStyle

open Text LpcStyle.Parser

namespace Grammar

variable {τ : Twins} {i k depth : Nat} {rules rules' : Rules}

/-! ## Bodies -/

/-- no comments stand before a body -/
theorem inStep_headComments : InStep τ k headComments headComments fun j cs cs' => j = k ∧ cs = [] ∧ cs' = [] := by
  have hraw : InStep τ k raw raw fun j t t' => j = k ∧ t.kind.isComment = false ∧ t'.kind.isComment = false :=
    fun r r' hat => .ok ⟨k, hat, rfl, hat.left.raw_isComment τ.quiet, hat.right.raw_isComment τ.quiet'⟩
  unfold headComments
  refine .bind (P := fun j cs cs' => j = k ∧ cs = [] ∧ cs' = [])
    (.loop (I := fun j cs cs' => j = k ∧ cs = [] ∧ cs' = []) ⟨rfl, rfl, rfl⟩ ?_) ?_
  · rintro j cs cs' - ⟨rfl, rfl, rfl⟩
    refine .bind hraw ?_
    rintro j t t' ⟨rfl, ht, ht'⟩
    rw [ht, ht']
    exact .pure (.done ⟨rfl, rfl, rfl⟩)
  · rintro j cs cs' ⟨rfl, rfl, rfl⟩
    exact .pure ⟨rfl, rfl, rfl⟩

theorem inStep_placeholder : InStep τ k placeholder placeholder (Gives τ k) := by
  unfold placeholder
  refine .expect_bind (by simp) fun _ hk => .pure ⟨Nat.lt_succ_self k, ?_⟩
  rw [τ.text_right]
  exact same_leaf hk

theorem inStep_body (ok : rules.Along τ depth rules') (hk : τ.size < k + depth) :
    InStep τ k (body rules) (body rules') (Gives τ k) := by
  unfold body
  refine .bind inStep_headComments ?_
  rintro j cs cs' ⟨rfl, rfl, rfl⟩
  have hpark : ([] : List Comment).tail.forM park = pure () := rfl
  have hpark' : ([] : List Comment).head?.forM park = pure () := rfl
  rw [hpark, hpark', pure_bind, pure_bind, pure_bind, pure_bind]
  refine .at_bind (.ite Iff.rfl (fun _ => inStep_block ok hk.le) fun _ => ?_)
  exact .at_bind (.ite Iff.rfl (fun _ => inStep_placeholder) fun _ => ok.statement .block hk)

theorem inStep_condition (ok : rules.Along τ depth rules') (hk : τ.size ≤ k + depth) :
    InStep τ k (condition rules) (condition rules') (Gives τ k) := by
  unfold condition
  refine .expect_bind (by simp) fun _ _ => .bind (ok.expression (by omega)) ?_
  rintro j n n' ⟨hkj, hn⟩
  exact .expect_bind (by simp) fun _ _ => .pure ⟨by omega, hn.widen (Nat.le_succ k) (Nat.le_succ j)⟩

/-! ## Branches and loops -/

theorem inStep_ifElse (ok : rules.Along τ depth rules') (hk : τ.size ≤ k + depth) (hkind : (τ.left k).kind ≠ .endOfFile) :
    InStep τ k (ifElse rules) (ifElse rules') (Gives τ k) := by
  have hlt : k < τ.size := Twins.lt_size hkind
  unfold ifElse
  refine .take_bind hkind fun _ => .expect_bind (by simp) fun _ _ => .bind (ok.expression (by omega)) ?_
  rintro j test test' ⟨hkj, htest⟩
  extract_lets closes closes'
  refine .at_bind (.ite Iff.rfl (fun _ => .peek_bind (.bind (P := fun _ _ _ => False) .refuse fun _ _ _ h => h.elim)) fun _ => ?_)
  refine .expect_bind (by simp) fun _ _ => .bind (inStep_body ok (by omega)) ?_
  rintro m consequent consequent' ⟨hjm, hconsequent⟩
  refine .trailingComment_bind (.holdBlank_bind fun r r' hfront hfront' => ?_)
  rw [hfront, hfront', τ.kind_right]
  refine .ite Iff.rfl (fun helse => .dropHeld_bind (.take_bind (by simp [helse]) fun _ => ?_)) fun _ => ?_
  · extract_lets ends ends'
    have hends {p : Nat} {n n' : Node} (hn : Gives τ (m + 1) p n n') : InStep τ p (ends n) (ends' n') (Gives τ k) := by
      have := hn.1
      refine .build (lies_since hlt (by omega) hn.2.lies) ?_ fun n n' h => ⟨by omega, h⟩
      simp only [Shape.unplaced, Node.unplaced?, htest.unplaced, hconsequent.unplaced, hn.2.unplaced]
    refine .at_bind (.ite Iff.rfl (fun _ => ?_) fun _ => ?_)
    · exact .bind (ok.statement .block (by omega)) fun _ _ _ => hends
    · exact .bind (inStep_body ok (by omega)) fun _ _ _ => hends
  · refine .build (lies_since hlt (by omega) hconsequent.lies) ?_ fun n n' h => ⟨by omega, h⟩
    simp only [Shape.unplaced, htest.unplaced, hconsequent.unplaced]

theorem inStep_whileLoop (ok : rules.Along τ depth rules') (hk : τ.size ≤ k + depth)
    (hkind : (τ.left k).kind ≠ .endOfFile) : InStep τ k (whileLoop rules) (whileLoop rules') (Gives τ k) := by
  unfold whileLoop
  refine .take_bind hkind fun _ => .bind (inStep_condition ok (by omega)) ?_
  rintro j test test' ⟨hkj, htest⟩
  refine .bind (inStep_body ok (by omega)) ?_
  rintro m n n' ⟨hjm, hn⟩
  refine .build (lies_since (Twins.lt_size hkind) (by omega) hn.lies) ?_ fun n n' h => ⟨by omega, h⟩
  simp only [Shape.unplaced, htest.unplaced, hn.unplaced]

theorem inStep_doWhile (ok : rules.Along τ depth rules') (hk : τ.size ≤ k + depth)
    (hkind : (τ.left k).kind ≠ .endOfFile) : InStep τ k (doWhile rules) (doWhile rules') (Gives τ k) := by
  unfold doWhile
  refine .take_bind hkind fun _ => .bind (inStep_body ok (by omega)) ?_
  rintro j n n' ⟨hkj, hn⟩
  refine .expect_bind (by simp) fun _ _ => .bind (inStep_condition ok (by omega)) ?_
  rintro m test test' ⟨hjm, htest⟩
  refine .expect_bind (by simp) fun _ hm => ?_
  refine .build (lies_since (Twins.lt_size hkind) (by omega) (.place hm)) ?_ fun n n' h => ⟨by omega, h⟩
  simp only [Shape.unplaced, htest.unplaced, hn.unplaced]

/-- expressions with commas between them -/
theorem inStep_commaList (ok : rules.Along τ depth rules') (hk : τ.size < k + depth) :
    InStep τ k (commaList rules) (commaList rules') (Gives τ k) := by
  unfold commaList
  refine .bind (ok.expression hk) ?_
  rintro j first first' ⟨hkj, hfirst⟩
  refine .bind (P := fun m ns ns' => j ≤ m ∧ SameEach τ k m ns ns' ∧
    τ.Lies k m ⟨first.start, (ns.headD first).stop⟩ ⟨first'.start, (ns'.headD first').stop⟩)
    (.loop (I := fun m ns ns' => j ≤ m ∧ SameEach τ k m ns ns' ∧
      τ.Lies k m ⟨first.start, (ns.headD first).stop⟩ ⟨first'.start, (ns'.headD first').stop⟩)
      ⟨le_rfl, .cons hfirst .nil, hfirst.lies⟩ ?_) ?_
  · rintro m ns ns' - ⟨hjm, hns, hlies⟩
    refine .eat_bind (by simp) (fun _ _ => .bind (ok.expression (by omega)) ?_) fun _ => .pure (.done ⟨hjm, hns, hlies⟩)
    rintro l n n' ⟨hml, hn⟩
    exact .pure (.again (by omega)
      ⟨by omega, .cons (hn.widen (by omega) le_rfl) (hns.widen (by omega)), hlies.onward hn.lies (by omega)⟩)
  · rintro m ns ns' ⟨hjm, hns, hlies⟩
    have hall := hns.sameAll.reverse.unplaced
    cases hns with
    | nil => exact .pure ⟨by omega, hfirst.widen le_rfl hjm⟩
    | cons hlast hbefore =>
      cases hbefore with
      | nil => exact .pure ⟨by omega, hfirst.widen le_rfl hjm⟩
      | cons =>
        refine .build hlies ?_ fun n n' h => ⟨by omega, h⟩
        simp only [Shape.unplaced, hall]

/-- a part that is missing in both texts -/
theorem inStep_missing : InStep τ k (pure none) (pure none) fun j n n' => k ≤ j ∧ τ.SameOption k j n n' :=
  .pure ⟨le_rfl, .none⟩

/-- a part that is there in both texts -/
theorem inStep_given {p p' : Parser Node} (h : InStep τ k p p' (Gives τ k)) :
    InStep τ k (some <$> p) (some <$> p') fun j n n' => k ≤ j ∧ τ.SameOption k j n n' :=
  .map (.mono h fun _ _ _ h => ⟨h.1.le, .some h.2⟩)

theorem inStep_forLoop (ok : rules.Along τ depth rules') (hk : τ.size ≤ k + depth)
    (hkind : (τ.left k).kind ≠ .endOfFile) : InStep τ k (forLoop rules) (forLoop rules') (Gives τ k) := by
  unfold forLoop
  refine .take_bind hkind fun _ => .expect_bind (by simp) fun _ _ => .peekKind_bind ?_
  -- each of the three parts may be missing
  extract_lets afterInit afterInit'
  have hinit {j : Nat} {init init' : Option Node} (h : k + 2 ≤ j ∧ τ.SameOption (k + 2) j init init') :
      InStep τ j (afterInit init) (afterInit' init') (Gives τ k) := by
    obtain ⟨hkj, hinit⟩ := h
    refine .expect_bind (by simp) fun _ _ => .at_bind ?_
    extract_lets afterTest afterTest'
    have htest {m : Nat} {test test' : Option Node} (h : j + 1 ≤ m ∧ τ.SameOption (j + 1) m test test') :
        InStep τ m (afterTest test) (afterTest' test') (Gives τ k) := by
      obtain ⟨hjm, htest⟩ := h
      refine .expect_bind (by simp) fun _ _ => .at_bind ?_
      extract_lets afterUpdate afterUpdate'
      have hupdate {l : Nat} {update update' : Option Node} (h : m + 1 ≤ l ∧ τ.SameOption (m + 1) l update update') :
          InStep τ l (afterUpdate update) (afterUpdate' update') (Gives τ k) := by
        obtain ⟨hml, hupdate⟩ := h
        refine .expect_bind (by simp) fun _ _ => .bind (inStep_body ok (by omega)) ?_
        rintro o n n' ⟨hlo, hn⟩
        refine .build (lies_since (Twins.lt_size hkind) (by omega) hn.lies) ?_ fun n n' h => ⟨by omega, h⟩
        simp only [Shape.unplaced, hinit.unplaced, htest.unplaced, hupdate.unplaced, hn.unplaced]
      refine .ite Iff.rfl (fun _ => ?_) fun _ => ?_
      · exact .bind inStep_missing fun _ _ _ => hupdate
      · exact .bind (inStep_given (inStep_commaList ok (by omega))) fun _ _ _ => hupdate
    refine .ite Iff.rfl (fun _ => ?_) fun _ => ?_
    · exact .bind inStep_missing fun _ _ _ => htest
    · exact .bind (inStep_given (ok.expression (by omega))) fun _ _ _ => htest
  split
  · exact .bind inStep_missing fun _ _ _ => hinit
  · exact .bind (inStep_given (inStep_localDeclaration ok (by omega))) fun _ _ _ => hinit
  · exact .bind (inStep_given (inStep_localDeclaration ok (by omega))) fun _ _ _ => hinit
  · exact .bind (inStep_given (inStep_commaList ok (by omega))) fun _ _ _ => hinit

theorem inStep_maybeRange (ok : rules.Along τ depth rules') (hk : τ.size < k + depth) :
    InStep τ k (maybeRange rules) (maybeRange rules') (Gives τ k) := by
  unfold maybeRange
  refine .bind (ok.expression hk) ?_
  rintro j first first' ⟨hkj, hfirst⟩
  refine .eat_bind (by simp) (fun _ _ => .bind (ok.expression (by omega)) ?_) fun _ => .pure ⟨hkj, hfirst⟩
  rintro m last last' ⟨hjm, hlast⟩
  refine .build (hfirst.lies.onward hlast.lies (by omega)) ?_ fun n n' h => ⟨by omega, h⟩
  simp only [Shape.unplaced, hfirst.unplaced, hlast.unplaced]

theorem inStep_foreachLoop (ok : rules.Along τ depth rules') (hk : τ.size ≤ k + depth)
    (hkind : (τ.left k).kind ≠ .endOfFile) : InStep τ k (foreachLoop rules) (foreachLoop rules') (Gives τ k) := by
  unfold foreachLoop
  refine .take_bind hkind fun _ => .expect_bind (by simp) fun _ _ => ?_
  refine .bind (P := fun j ns ns' => k + 2 ≤ j ∧ SameEach τ k j ns ns')
    (.loop (I := fun j ns ns' => k + 2 ≤ j ∧ SameEach τ k j ns ns') ⟨le_rfl, .nil⟩ ?_) ?_
  · rintro j ns ns' - ⟨hkj, hns⟩
    refine .bind (ok.argument (by omega)) ?_
    rintro m n n' ⟨hjm, hn⟩
    have hcons : SameEach τ k m (n :: ns) (n' :: ns') := .cons (hn.widen (by omega) le_rfl) (hns.widen hjm.le)
    exact .eat_bind (by simp) (fun _ _ => .pure (.again (by omega) ⟨by omega, hcons.widen (Nat.le_succ m)⟩))
      fun _ => .pure (.done ⟨by omega, hcons⟩)
  rintro j vars vars' ⟨hkj, hvars⟩
  refine .expect_bind (by simp) fun _ _ => .bind (inStep_maybeRange ok (by omega)) ?_
  rintro m iterable iterable' ⟨hjm, hiterable⟩
  refine .expect_bind (by simp) fun _ _ => .bind (inStep_body ok (by omega)) ?_
  rintro l n n' ⟨hml, hn⟩
  refine .build (lies_since (Twins.lt_size hkind) (by omega) hn.lies) ?_ fun n n' h => ⟨by omega, h⟩
  simp only [Shape.unplaced, hvars.sameAll.reverse.unplaced, hiterable.unplaced, hn.unplaced]

/-! ## Cases -/

/-- a case ends with its last statement, which is no blank line -/
theorem inStep_switchCase (ok : rules.Along τ depth rules') (hk : τ.size ≤ k + depth)
    (hkind : (τ.left k).kind ≠ .endOfFile) : InStep τ k (switchCase rules) (switchCase rules') (Gives τ k) := by
  have hlt : k < τ.size := Twins.lt_size hkind
  unfold switchCase
  refine .take_bind hkind fun _ => ?_
  rw [τ.kind_right]
  extract_lets afterTest afterTest'
  have htest {j : Nat} {test test' : Option Node} (hkj : k < j) (htest : τ.SameOption (k + 1) j test test') :
      InStep τ j (afterTest test) (afterTest' test') (Gives τ k) := by
    refine .expect_bind (by simp) fun _ hj => .bind (inStep_statementList ok (by omega) _ _) fun m ns ns' h => ?_
    have hle := h.le
    have hlies : τ.Lies k m ⟨(τ.left k).span.start, (ns.getLast?.map Node.stop).getD (τ.left j).span.stop⟩
        ⟨(τ.right k).span.start, (ns'.getLast?.map Node.stop).getD (τ.right j).span.stop⟩ := by
      have hlast := sameOption_getLast h.same h.ends h.ends'
      generalize ns.getLast? = last at hlast
      generalize ns'.getLast? = last' at hlast
      cases hlast with
      | none => exact (lies_since hlt hkj.le (.place hj)).widen le_rfl hle
      | some hn => exact lies_since hlt (by omega) hn.lies
    refine .build hlies ?_ fun n n' h => ⟨by omega, h⟩
    simp only [Shape.unplaced, htest.unplaced, h.same.unplaced]
  refine .ite Iff.rfl (fun _ => ?_) fun _ => ?_
  · exact .bind (inStep_given (inStep_maybeRange ok (by omega))) fun _ _ _ h => htest h.1 h.2
  · exact htest (Nat.lt_succ_self k) .none

theorem inStep_switch (ok : rules.Along τ depth rules') (hk : τ.size ≤ k + depth)
    (hkind : (τ.left k).kind ≠ .endOfFile) : InStep τ k (switch rules) (switch rules') (Gives τ k) := by
  unfold switch
  refine .take_bind hkind fun _ => .bind (inStep_condition ok (by omega)) ?_
  rintro j test test' ⟨hkj, htest⟩
  refine .expect_bind (by simp) fun _ _ => .bind (P := fun m ns ns' => j < m ∧ τ.SameAll k m ns ns')
    (.rawLoop (I := fun m ns ns' => j < m ∧ τ.SameAll k m ns ns') (fun _ items => items)
      ⟨Nat.lt_succ_self j, .nil⟩ ?_ ?_ ?_) ?_
  · intro items r hraw
    constructor <;> simp only [run_raw_bind, hraw] <;> rfl
  · exact fun _ _ _ _ h => ⟨h, h⟩
  · rintro m ns ns' - ⟨hjm, hns⟩
    refine .raw_bind (.ofInStep ?_)
    rw [τ.kind_right]
    have hcase (hne : (τ.left m).kind ≠ .endOfFile) :
        InStep τ m (do return .inl ((← switchCase rules) :: ns)) (do return .inl ((← switchCase rules') :: ns'))
          (Next (fun m ns ns' => j < m ∧ τ.SameAll k m ns ns') (fun m ns ns' => j < m ∧ τ.SameAll k m ns ns') m) := by
      refine .bind (inStep_switchCase ok (by omega) hne) ?_
      rintro l n n' ⟨hml, hn⟩
      exact .pure (.again hml ⟨by omega, .cons (hn.widen (by omega) le_rfl) (hns.widen le_rfl hml.le)⟩)
    split
    · next hkind => exact absurd (τ.left_isComment m) (by simp [hkind, Kind.isComment])
    · next hkind => exact absurd (τ.left_isComment m) (by simp [hkind, Kind.isComment])
    · next hkind => exact absurd hkind (place_ne_blankLines m)
    · next hkind => exact hcase (by simp [hkind])
    · next hkind => exact hcase (by simp [hkind])
    · exact .pure (.done ⟨hjm, hns⟩)
  · rintro m ns ns' ⟨hjm, hns⟩
    refine .expect_bind (by simp) fun _ hclose => ?_
    refine .build (lies_since (Twins.lt_size hkind) (by omega) (.place hclose)) ?_ fun n n' h => ⟨by omega, h⟩
    simp only [Shape.unplaced, htest.unplaced, hns.reverse.unplaced]

/-! ## Simple statements -/

theorem inStep_returnValue (ok : rules.Along τ depth rules') (hk : τ.size ≤ k + depth)
    (hkind : (τ.left k).kind ≠ .endOfFile) : InStep τ k (returnValue rules) (returnValue rules') (Gives τ k) := by
  have hlt : k < τ.size := Twins.lt_size hkind
  unfold returnValue
  refine .take_bind hkind fun _ => .peekKind_bind ?_
  extract_lets last last'
  have hlast {j : Nat} {n n' : Option Node} (hkj : k < j) (hn : τ.SameOption (k + 1) j n n') :
      InStep τ j (last n) (last' n') (Gives τ k) := by
    refine .eat_bind (by simp) (fun _ hj => ?_) fun _ => .at_bind (.ite Iff.rfl (fun _ => ?_) fun _ => .wanted)
    · refine .build (lies_since hlt hkj.le (.place hj)) ?_ fun n n' h => ⟨by omega, h⟩
      simp only [Shape.unplaced, hn.unplaced]
    · have hlies : τ.Lies k j ⟨(τ.left k).span.start, (n.map Node.stop).getD (τ.left k).span.stop⟩
          ⟨(τ.right k).span.start, (n'.map Node.stop).getD (τ.right k).span.stop⟩ := by
        cases hn with
        | none => exact (Twins.Lies.place hlt).widen le_rfl hkj
        | some hn => exact lies_since hlt (by omega) hn.lies
      refine .build hlies ?_ fun n n' h => ⟨by omega, h⟩
      simp only [Shape.unplaced, hn.unplaced]
  refine .ite Iff.rfl (fun _ => ?_) fun _ => ?_
  · exact hlast (Nat.lt_succ_self k) .none
  · exact .bind (inStep_given (ok.expression (by omega))) fun _ _ _ h => hlast h.1 h.2

theorem inStep_jump (hkind : (τ.left k).kind ≠ .endOfFile) : InStep τ k jump jump (Gives τ k) := by
  unfold jump
  refine .take_bind hkind fun _ => .expect_bind (by simp) fun _ hlast => ?_
  refine .build (lies_since (Twins.lt_size hkind) (by omega) (.place hlast)) ?_ fun n n' h => ⟨by omega, h⟩
  rw [τ.kind_right]

/-- **An expression with a semicolon**, which a call makes the head of a function at times. -/
theorem inStep_expressionStatement (ok : rules.Along τ depth rules') (hk : τ.size ≤ k + depth) (scope : Scope) :
    InStep τ k (expressionStatement rules scope) (expressionStatement rules' scope) (Gives τ k) := by
  unfold expressionStatement
  refine .bind (inStep_expression ok hk) ?_
  rintro j n n' ⟨hkj, hn⟩
  have hend : InStep τ j (do statementEnd; return n) (do statementEnd; return n') (Gives τ k) :=
    .bind inStep_statementEnd fun m _ _ hjm => .pure ⟨by omega, hn.widen le_rfl hjm⟩
  -- a function takes the place of the call
  have hfunction {m : Nat} {span span' : Span} {shape shape' : Shape Node} (hkm : k < m) (hlies : τ.Lies k m span span')
      (hshape : shape.unplaced false = shape'.unplaced false) :
      Gives τ k m (.mk span shape n.suffix) (.mk span' shape' n'.suffix) := by
    refine ⟨hkm, ?_, hlies⟩
    rw [Node.unplaced, Node.unplaced, hshape, Node.suffix_eq_of_unplaced hn.unplaced]
  by_cases hcall : ∃ callee args, n.shape = .call callee args
  · obtain ⟨callee, args, hshape⟩ := hcall
    obtain ⟨callee', args', hshape', hcallee, hargs⟩ := Node.call_of_unplaced hn.unplaced hshape
    simp only [hshape, hshape', Node.isIdentifier_of_unplaced hcallee, Node.any_isVarDecl_of_unplaced hargs]
    refine .ite Iff.rfl (fun _ => hend) fun _ => .at_bind (.ite Iff.rfl (fun _ => ?_) fun _ => ?_)
    · refine .bind (inStep_functionBody ok (by omega)) ?_
      rintro m body body' ⟨hjm, hbody⟩
      have hlies := hn.lies.onward hbody.lies le_rfl
      refine .spanning_bind hlies (.pure (hfunction (by omega) hlies ?_))
      simp only [Shape.unplaced, Node.unplaced?, hcallee, hargs, hbody.unplaced]
    · refine .bind inStep_statementEnd fun m _ _ hjm => .ite Iff.rfl (fun _ => .pure ?_) fun _ => ?_
      · refine hfunction (by omega) (hn.lies.widen le_rfl hjm) ?_
        simp only [Shape.unplaced, hcallee, hargs]
      · exact .pure ⟨by omega, hn.widen le_rfl hjm⟩
  · split
    · next callee args hshape => exact absurd ⟨callee, args, hshape⟩ hcall
    · split
      · next callee args hshape =>
        obtain ⟨callee', args', hshape', -⟩ := Node.call_of_unplaced hn.unplaced.symm hshape
        exact absurd ⟨callee', args', hshape'⟩ hcall
      · exact hend

/-- **A statement** is the same in both texts. -/
theorem inStep_statement (ok : rules.Along τ depth rules') (hk : τ.size ≤ k + depth) (scope : Scope) :
    InStep τ k (statement rules scope) (statement rules' scope) (Gives τ k) := by
  unfold statement
  refine .peekKind_bind ?_
  split
  · exact inStep_block ok hk
  · next hkind => exact inStep_ifElse ok hk (by simp [hkind])
  · next hkind => exact inStep_whileLoop ok hk (by simp [hkind])
  · next hkind => exact inStep_doWhile ok hk (by simp [hkind])
  · next hkind => exact inStep_forLoop ok hk (by simp [hkind])
  · next hkind => exact inStep_foreachLoop ok hk (by simp [hkind])
  · next hkind => exact inStep_switch ok hk (by simp [hkind])
  · next hkind => exact inStep_returnValue ok hk (by simp [hkind])
  · next hkind => exact inStep_jump (by simp [hkind])
  · next hkind => exact inStep_jump (by simp [hkind])
  · exact .peek_bind (inStep_inherit ok hk le_rfl rfl)
  · next hkind => exact inStep_directive hkind
  · next hkind => exact inStep_declaration ok hk scope (by simp [hkind])
  · next hkind => exact inStep_declaration ok hk scope (by simp [hkind])
  · exact inStep_expressionStatement ok hk scope

end Grammar

end LpcStyle
