import Mathlib.Tactic
import LpcStyle.Grammar.Parse
import LpcStyle.Proofs.Grammar.Echo

/-!
Expressions of the operator language are read again where their tokens stand again: to a node that writes the same term.
Main statement: `Rules.echoed_upTo`.
-/

namespace LpcStyle

open Text LpcStyle.Parser

namespace Echo

variable {τ : Echo} {i j k m : Nat} {left left' n n' : Node}

/-- the nodes write the same term, between two places of the row -/
def Same (τ : Echo) (i j : Nat) (n n' : Node) : Prop := ∃ e, Writes τ.left i j n e ∧ Writes τ.right i j n' e

/-- no token of the row is of a kind that expressions have none of, and none behind it either -/
theorem kind_ne {c : Kind} (hk : k ≤ τ.size) (hterm : c.isTerm = false) (hstop : c.isStop = false) :
    (τ.left k).kind ≠ c ∧ (τ.right k).kind ≠ c := by
  have hleft : (τ.left k).kind ≠ c := by
    rintro rfl
    rcases cases_left hk with ⟨-, h⟩ | ⟨h, -⟩
    · rw [hterm] at h
      cases h
    · rw [hstop] at h
      cases h
  exact ⟨hleft, mt (kind_right_iff hk hstop).1 hleft⟩

theorem says_right (hk : k < τ.size) {c : Kind} (hkind : (τ.left k).kind = c) :
    (τ.left k).spelling = (c, (τ.left k).text) ∧ (τ.right k).spelling = (c, (τ.left k).text) := by
  have hspells : (τ.right k).spelling = (τ.left k).spelling := τ.said k hk
  rw [hspells]
  simp [Token.spelling, hkind]

theorem joining_right (hk : k < τ.size) (h : Joining (τ.left k)) : Joining (τ.right k) := by
  rw [Joining, rank_right hk.le, isStep_right hk.le, kind_right hk]
  exact h

namespace Same

theorem isCallable (h : τ.Same i j n n') : Grammar.isCallable n'.shape = Grammar.isCallable n.shape := by
  obtain ⟨e, hn, hn'⟩ := h
  exact Node.isCallable_of_unplaced (hn.unplaced hn')

/-- a node that two operands make with the operator between them -/
theorem binary {l l' r r' : Node} (hl : τ.Same i j l l') (hop : Joining (τ.left j)) (hj : j < τ.size)
    (hr : τ.Same (j + 1) k r r') : τ.Same i k (.mk ⟨l.start, r.stop⟩ (joint (τ.left j) l r) none)
      (.mk ⟨l'.start, r'.stop⟩ (joint (τ.right j) l' r') none) := by
  obtain ⟨e, hl, hl'⟩ := hl
  obtain ⟨e', hr, hr'⟩ := hr
  exact ⟨.binary e (τ.left j).spelling e', .binary hl hop rfl hr, .binary hl' (joining_right hj hop) (τ.said j hj) hr'⟩

end Same

end Echo

/-- the rules that the others refer back to read expressions again -/
structure Rules.Echoed (τ : Echo) (rules rules' : Rules) : Prop where
  expression : ∀ {k : Nat}, Follows τ k rules.expression rules'.expression (τ.Same k)
  operand : ∀ {k : Nat}, Follows τ k rules.operand rules'.operand (τ.Same k)
  climb : ∀ {i k : Nat} {left left' : Node} {min : Nat}, τ.Same i k left left' →
    Follows τ k (rules.climb left min) (rules'.climb left' min) (τ.Same i)
  argument : ∀ {k : Nat}, Follows τ k rules.argument rules'.argument (τ.Same k)

namespace Grammar

variable {τ : Echo} {i k : Nat} {rules rules' : Rules} {left left' : Node}

/-! ## Operands -/

theorem follows_name (hkind : (τ.left k).kind = .name) : Follows τ k name name (τ.Same k) := by
  refine .known fun hk => ?_
  have hlt := τ.lt_size hk hkind rfl
  have hkind' : (τ.right k).kind = .name := by rw [τ.kind_right hlt, hkind]
  obtain ⟨hspells, hspells'⟩ := τ.says_right hlt hkind
  unfold name atName
  simp only [bind_assoc, pure_bind]
  refine .peek_bind ?_
  simp only [hkind, hkind', decide_true, Bool.true_or, if_true]
  exact .take_bind hlt (.pure ⟨.name (τ.left k).text, .name hspells, .name hspells'⟩)

/-- nothing or one item before the closing parenthesis, which is taken -/
inductive Enclosed (τ : Echo) (i : Nat) : Nat → List Node × Token → List Node × Token → Prop
  | nothing (hclose : (τ.left i).kind = .parenEnd) (hlt : i < τ.size) :
      Enclosed τ i (i + 1) ([], τ.left i) ([], τ.right i)
  | one {j : Nat} {n n' : Node} (h : τ.Same i j n n') (hclose : (τ.left j).kind = .parenEnd) (hlt : j < τ.size) :
      Enclosed τ i (j + 1) ([n], τ.left j) ([n'], τ.right j)

/-- without commas there is at most one item between parentheses -/
theorem follows_delimited {item item' : Parser Node} {text : String} (hitem : Follows τ k item item' (τ.Same k)) :
    Follows τ k (delimited .parenEnd text item) (delimited .parenEnd text item') (Enclosed τ k) := by
  unfold delimited
  refine .bind (P := fun j items items' => (j = k ∧ items = [] ∧ items' = []) ∨
      ∃ n n', items = [n] ∧ items' = [n'] ∧ τ.Same k j n n')
    (.rawLoop (I := fun j items items' => j = k ∧ items = [] ∧ items' = []) ⟨rfl, rfl, rfl⟩ ?_ ?_) ?_
  · intro items r hraw
    constructor <;> simp only [run_raw_bind, hraw] <;> rfl
  · rintro j items items' r r' ⟨rfl, rfl, rfl⟩ hready
    rw [run_raw_bind, run_raw_bind, hready.raw, hready.raw']
    refine (?_ : Follows τ j _ _ _) r r' hready.toAt
    have hk := hready.le
    -- comments and blank lines come next in neither text
    refine (fun (hall : ∀ q', q' = _ → Follows τ j _ q' _) => hall _ rfl) fun q' hq' => ?_
    split at hq'
    · next hkind => exact absurd hkind (τ.kind_ne hk rfl rfl).2
    · next hkind => exact absurd hkind (τ.kind_ne hk rfl rfl).2
    · next hkind => exact absurd hkind (τ.kind_ne hk rfl rfl).2
    subst hq'
    split
    · next hkind => exact absurd hkind (τ.kind_ne hk rfl rfl).1
    · next hkind => exact absurd hkind (τ.kind_ne hk rfl rfl).1
    · next hkind => exact absurd hkind (τ.kind_ne hk rfl rfl).1
    refine .ite (τ.kind_right_iff hk rfl) (fun _ => .pure (.done (.inl ⟨rfl, rfl, rfl⟩))) fun _ => ?_
    refine .ite (τ.kind_right_iff hk rfl) (fun hkind => absurd hkind (τ.kind_ne hk rfl rfl).1) fun _ => ?_
    refine .ite (τ.kind_right_iff hk rfl) (fun hkind => absurd hkind (τ.kind_ne hk rfl rfl).1) fun _ => ?_
    refine .bind hitem ?_
    intro m n n' hn
    refine .peekKind_bind (.addItem_bind (.known fun hm => ?_))
    refine .ite (τ.kind_right_iff hm rfl) (fun hkind => absurd hkind (τ.kind_ne hm rfl rfl).1) fun _ => ?_
    refine .ite (τ.kind_right_iff hm rfl) (fun _ => .pure (.done (.inr ⟨n, n', rfl, rfl, hn⟩))) fun _ => ?_
    exact .ite (τ.kind_right_iff hm rfl) (fun hkind => absurd hkind (τ.kind_ne hm rfl rfl).1) fun _ => .wanted
  · rintro j items items' (⟨rfl, rfl, rfl⟩ | ⟨n, n', rfl, rfl, hn⟩)
    · exact .expect_bind rfl fun hclose hlt => .pure (.nothing hclose hlt)
    · exact .expect_bind rfl fun hclose hlt => .pure (.one hn hclose hlt)

theorem follows_paren (ok : rules.Echoed τ rules') : Follows τ k (paren rules) (paren rules') (τ.Same k) := by
  unfold paren
  refine .expect_bind rfl fun hopen hlt => .known fun hk => ?_
  refine .eat_bind rfl (fun hkind => absurd hkind (τ.kind_ne hk rfl rfl).1) fun _ => .bind (follows_delimited ok.expression) ?_
  have hopen' : (τ.right k).kind = .parenStart := by rw [τ.kind_right hlt, hopen]
  rintro j x x' henclosed
  cases henclosed with
  | nothing hclose hlt =>
    have hclose' := (τ.kind_right hlt).trans hclose
    exact .build ⟨.unit, .unit hopen hclose, .unit hopen' hclose'⟩
  | one hn hclose hlt =>
    obtain ⟨e, hn, hn'⟩ := hn
    have hclose' := (τ.kind_right hlt).trans hclose
    exact .build ⟨.paren e, .paren hopen hn hclose, .paren hopen' hn' hclose'⟩

theorem follows_primary (ok : rules.Echoed τ rules') : Follows τ k (primary rules) (primary rules') (τ.Same k) := by
  unfold primary
  refine .known fun hk => .peek_bind ?_
  extract_lets whole whole'
  have hnone {c : Kind} {P : Prop} (hkind : (τ.left k).kind = c) (hterm : c.isTerm = false) (hstop : c.isStop = false) : P :=
    absurd hkind (τ.kind_ne hk hterm hstop).1
  split
  · next hkind =>
    have hlt := τ.lt_size hk hkind rfl
    obtain ⟨hspells, hspells'⟩ := τ.says_right hlt hkind
    rw [τ.kind_right hlt, hkind]
    exact .take_bind hlt (.pure ⟨.number (τ.left k).text, .number hspells, .number hspells'⟩)
  · next hkind => exact hnone hkind rfl rfl
  · next hkind => exact hnone hkind rfl rfl
  · next hkind => exact hnone hkind rfl rfl
  · next hkind =>
    rw [τ.kind_right (τ.lt_size hk hkind rfl), hkind]
    exact follows_name hkind
  · next hkind => exact hnone hkind rfl rfl
  · next hkind => exact hnone hkind rfl rfl
  · next hkind => exact hnone hkind rfl rfl
  · next hkind => exact hnone hkind rfl rfl
  · next hkind => exact hnone hkind rfl rfl
  · next hkind => exact hnone hkind rfl rfl
  · next hkind =>
    rw [τ.kind_right (τ.lt_size hk hkind rfl), hkind]
    exact follows_paren ok
  · next hkind => exact hnone hkind rfl rfl
  · next hkind => exact hnone hkind rfl rfl
  · next hkind => exact hnone hkind rfl rfl
  · next hkind => exact hnone hkind rfl rfl
  · exact .wanted

theorem follows_call (ok : rules.Echoed τ rules') (h : τ.Same i k left left') :
    Follows τ k (call rules left) (call rules' left') (τ.Same i) := by
  unfold call
  refine .expect_bind rfl fun hopen hlt => .bind (follows_delimited ok.argument) ?_
  have hopen' := (τ.kind_right hlt).trans hopen
  obtain ⟨e, hn, hn'⟩ := h
  rintro j x x' henclosed
  cases henclosed with
  | nothing hclose hlt =>
    have hclose' := (τ.kind_right hlt).trans hclose
    exact .build ⟨.call e, .call hn hopen hclose, .call hn' hopen' hclose'⟩
  | one ha hclose hlt =>
    obtain ⟨a, ha, ha'⟩ := ha
    have hclose' := (τ.kind_right hlt).trans hclose
    exact .build ⟨.apply e a, .apply hn hopen ha hclose, .apply hn' hopen' ha' hclose'⟩

/-- **What follows an operand**: calls, `++` and `--`. -/
theorem follows_trailers (ok : rules.Echoed τ rules') (h : τ.Same i k left left') :
    Follows τ k (trailers rules left) (trailers rules' left') (τ.Same i) := by
  refine .loop (I := τ.Same i) h ?_
  intro j left left' hleft
  refine .known fun hj => .peek_bind ?_
  have hnone {c : Kind} {P : Prop} (hkind : (τ.left j).kind = c) (hterm : c.isTerm = false) (hstop : c.isStop = false) : P :=
    absurd hkind (τ.kind_ne hj hterm hstop).1
  split
  · next hkind =>
    rw [τ.kind_right (τ.lt_size hj hkind rfl), hkind]
    refine .ite (by rw [hleft.isCallable]) (fun _ => ?_) fun _ => .pure (.done hleft)
    exact .bind (follows_call ok hleft) fun m n n' hn => .pure (.again hn)
  · next hkind => exact hnone hkind rfl rfl
  · next hkind => exact hnone hkind rfl rfl
  · next hkind => exact hnone hkind rfl rfl
  · next hkind => exact hnone hkind rfl rfl
  · next hkind =>
    have hlt := τ.lt_size hj hkind rfl
    rw [τ.kind_right hlt, hkind]
    refine .ite (by rw [τ.isStep_right hj]) (fun hstep => .take_bind hlt ?_) fun _ => .pure (.done hleft)
    obtain ⟨e, hn, hn'⟩ := hleft
    have hstep' : isStep (τ.right j) = true := by rwa [τ.isStep_right hj]
    exact .bind (.build (Q := τ.Same i) ⟨.step e (τ.left j).spelling, .step hn hstep rfl, .step hn' hstep' (τ.said j hlt)⟩)
      fun m n n' hn => .pure (.again hn)
  · next hkind => exact hnone hkind rfl rfl
  · -- the other kinds go on in neither text
    split
    · next hkind => exact absurd ((τ.kind_right_iff hj rfl).1 hkind) ‹_›
    · next hkind => exact absurd ((τ.kind_right_iff hj rfl).1 hkind) ‹_›
    · next hkind => exact absurd ((τ.kind_right_iff hj rfl).1 hkind) ‹_›
    · next hkind => exact absurd ((τ.kind_right_iff hj rfl).1 hkind) ‹_›
    · next hkind => exact absurd ((τ.kind_right_iff hj rfl).1 hkind) ‹_›
    · next hkind => exact absurd ((τ.kind_right_iff hj rfl).1 hkind) ‹_›
    · next hkind => exact absurd ((τ.kind_right_iff hj rfl).1 hkind) ‹_›
    · exact .pure (.done hleft)

/-- no term goes on without an operator -/
theorem joins_of_writes {tok : Nat → Token} {i j : Nat} {n : Node} {e : Term} (h : Writes tok i j n e) {next : Kind}
    (hnext : next ≠ .string ∧ next ≠ .textBlockStart) : joins n.shape next = false := by
  have hjoint (op : Token) (l r : Node) : joins (joint op l r) next = false := by
    unfold joint
    split_ifs <;> rfl
  cases h with
  | binary => exact hjoint _ _ _
  | name => simp [leaf, Node.shape, joins, hnext]
  | _ => rfl

theorem follows_joined (h : τ.Same i k left left') :
    Follows τ k (joined rules left) (joined rules' left') (τ.Same i) := by
  refine .loop (I := τ.Same i) h ?_
  intro j left left' hleft
  refine .known fun hj => .peekKind_bind ?_
  obtain ⟨e, hn, hn'⟩ := hleft
  have hstring := τ.kind_ne (c := .string) hj rfl rfl
  have hblock := τ.kind_ne (c := .textBlockStart) hj rfl rfl
  rw [joins_of_writes hn ⟨hstring.1, hblock.1⟩, joins_of_writes hn' ⟨hstring.2, hblock.2⟩]
  exact .pure (.done ⟨e, hn, hn'⟩)

theorem follows_operand (ok : rules.Echoed τ rules') : Follows τ k (operand rules) (operand rules') (τ.Same k) := by
  unfold operand
  refine .known fun hk => .peek_bind ?_
  refine .ite (τ.kind_right_iff hk rfl) (fun hkind => absurd hkind (τ.kind_ne hk rfl rfl).1) fun _ => ?_
  refine .ite (by rw [τ.isPrefixOperator_right hk]) (fun hsign => ?_) fun _ =>
    .bind (follows_primary ok) fun j n n' hn => follows_trailers ok hn
  have hlt : k < τ.size := by
    rcases τ.cases_left hk with ⟨hlt, -⟩ | ⟨hstop, -⟩
    · exact hlt
    · rcases Kind.isStop_iff.1 hstop with h | h <;> simp [isPrefixOperator, h] at hsign
  refine .take_bind hlt (.bind ok.operand ?_)
  rintro j n n' ⟨e, hn, hn'⟩
  have hsign' : isPrefixOperator (τ.right k) = true := by rwa [τ.isPrefixOperator_right hk]
  exact .build ⟨.sign (τ.left k).spelling e, .sign hsign rfl hn, .sign hsign' (τ.said k hlt) hn'⟩

/-! ## Operators -/

theorem follows_tighter (ok : rules.Echoed τ rules') (rank : Nat) (h : τ.Same i k left left') :
    Follows τ k (tighter rules rank left) (tighter rules' rank left') (τ.Same i) := by
  refine .loop (I := τ.Same i) h ?_
  intro j right right' hright
  refine .known fun hj => .peek_bind ?_
  rw [τ.rank_right hj]
  cases rank? (τ.left j) with
  | none => exact .pure (.done hright)
  | some next =>
    refine .ite Iff.rfl (fun _ => .bind (ok.climb hright) ?_) fun _ => .pure (.done hright)
    exact fun m n n' hn => .pure (.again hn)

/-- **Climbing** takes the same operators, and so it groups the same way. -/
theorem follows_climb (ok : rules.Echoed τ rules') (min : Nat) (h : τ.Same i k left left') :
    Follows τ k (climb rules left min) (climb rules' left' min) (τ.Same i) := by
  refine .loop (I := τ.Same i) h ?_
  intro j left left' hleft
  refine .known fun hj => .peek_bind ?_
  rw [τ.rank_right hj]
  cases hrank : rank? (τ.left j) with
  | none => exact .pure (.done hleft)
  | some rank =>
    refine .ite Iff.rfl (fun _ => ?_) fun _ => .pure (.done hleft)
    have hlt : j < τ.size := by
      rcases τ.cases_left hj with ⟨hlt, -⟩ | ⟨hstop, -⟩
      · exact hlt
      · rcases Kind.isStop_iff.1 hstop with h | h <;> rcases kind_of_rank hrank with h' | h' | h' | h' <;> simp [h] at h'
    refine .take_bind hlt (.bind ok.operand fun m right right' hright => ?_)
    refine .bind (follows_joined hright) fun m right right' hright => ?_
    refine .bind (follows_tighter ok rank hright) fun m right right' hright => ?_
    -- an operator with a rank is no assignment
    have hshape {op : Token} {rank : Nat} (hrank : rank? op = some rank) (l r : Node) :
        (if op.kind = .logicalOp then .logical l (.ofToken op) r else .binary l (.ofToken op) r false) = joint op l r := by
      have hassign : op.kind ≠ .assignOp := by
        rcases kind_of_rank hrank with h | h | h | h <;> simp [h]
      rw [joint, if_neg hassign]
    dsimp only
    rw [hshape hrank, hshape ((τ.rank_right hj).trans hrank)]
    have hop : Joining (τ.left j) := .inl (by simp [hrank])
    exact .bind (.build (Q := τ.Same i) (hleft.binary hop hlt hright)) fun m n n' hn => .pure (.again hn)

theorem follows_ternary (ok : rules.Echoed τ rules') (h : τ.Same i k left left') :
    Follows τ k (ternary rules left) (ternary rules' left') (τ.Same i) := by
  unfold ternary
  refine .eat_bind rfl (fun hquestion hlt => .bind ok.expression ?_) fun _ => .pure h
  intro j consequent consequent' hconsequent
  refine .expect_bind rfl fun hcolon hlt' => .bind ok.expression ?_
  intro m alternate alternate' halternate
  obtain ⟨et, ht, ht'⟩ := h
  obtain ⟨ec, hc, hc'⟩ := hconsequent
  obtain ⟨ea, ha, ha'⟩ := halternate
  have hquestion' := (τ.kind_right hlt).trans hquestion
  have hcolon' := (τ.kind_right hlt').trans hcolon
  exact .build ⟨.ternary et ec ea, .ternary ht hquestion hc hcolon ha, .ternary ht' hquestion' hc' hcolon' ha'⟩

theorem follows_assignment (ok : rules.Echoed τ rules') (h : τ.Same i k left left') :
    Follows τ k (assignment rules left) (assignment rules' left') (τ.Same i) := by
  unfold assignment
  refine .known fun hk => .peek_bind ?_
  refine .ite ?_ (fun hassign => ?_) fun _ => .pure h
  · rw [τ.isStep_right hk]
    simp only [τ.kind_right_iff hk (c := .assignOp) rfl]
  · obtain ⟨hkind, hstep⟩ : (τ.left k).kind = .assignOp ∧ isStep (τ.left k) = false := by simpa using hassign
    have hlt := τ.lt_size hk hkind rfl
    refine .take_bind hlt (.bind ok.expression ?_)
    intro j right right' hright
    have hshape {op : Token} (hop : op.kind = .assignOp) (l r : Node) :
        Shape.assignment l (.ofToken op) (some r) = joint op l r := by
      rw [joint, if_neg (by simp [hop]), if_pos hop]
    rw [hshape hkind, hshape ((τ.kind_right hlt).trans hkind)]
    exact .build (h.binary (.inr ⟨hkind, hstep⟩) hlt hright)

theorem follows_afterOperand (ok : rules.Echoed τ rules') (h : τ.Same i k left left') :
    Follows τ k (afterOperand rules left) (afterOperand rules' left') (τ.Same i) := by
  unfold afterOperand
  refine .bind (follows_joined h) fun j n n' hn => .bind (follows_climb ok 0 hn) fun j n n' hn => ?_
  exact .bind (follows_ternary ok hn) fun j n n' hn => follows_assignment ok hn

theorem follows_expression (ok : rules.Echoed τ rules') :
    Follows τ k (expression rules) (expression rules') (τ.Same k) := by
  unfold expression
  exact .bind (follows_operand ok) fun j n n' hn => follows_afterOperand ok hn

theorem follows_argument (ok : rules.Echoed τ rules') : Follows τ k (argument rules) (argument rules') (τ.Same k) := by
  unfold argument
  refine .known fun hk => .peekKind_bind ?_
  split
  · next hkind => exact absurd hkind (τ.kind_ne hk rfl rfl).1
  · next hkind => exact absurd hkind (τ.kind_ne hk rfl rfl).1
  split
  · next hkind => exact absurd hkind (τ.kind_ne hk rfl rfl).2
  · next hkind => exact absurd hkind (τ.kind_ne hk rfl rfl).2
  exact follows_expression ok

end Grammar

/-! ## The rules of all depths -/

/-- **Expressions are read again**, by the rules of any depth that do not break off. -/
theorem Rules.echoed_upTo (τ : Echo) (depth depth' : Nat) : (Rules.upTo depth).Echoed τ (Rules.upTo depth') := by
  induction depth generalizing depth' with
  | zero =>
    have hnone {k : Nat} {α : Type} {p' : Parser α} {Q : Nat → α → α → Prop} : Follows τ k (throw .exhausted) p' Q :=
      fun _ _ _ => .failed
    exact ⟨hnone, hnone, fun _ => hnone, hnone⟩
  | succ depth ih =>
    cases depth' with
    | zero =>
      have hbroken {k : Nat} {α : Type} {p : Parser α} {Q : Nat → α → α → Prop} : Follows τ k p (throw .exhausted) Q :=
        fun _ _ _ => .broken (.inl rfl)
      exact ⟨hbroken, hbroken, fun _ => hbroken, hbroken⟩
    | succ depth' =>
      have ok := ih depth'
      exact {
        expression := Grammar.follows_expression ok
        operand := Grammar.follows_operand ok
        climb := Grammar.follows_climb ok _
        argument := Grammar.follows_argument ok }

end LpcStyle
