import Mathlib.Tactic
import LpcStyle.Proofs.Grammar.Depth
import LpcStyle.Proofs.Grammar.Spends.Statement

/-!
Reading ends on every text. The rules that refer back to themselves are written once more, by recursion on the number of
tokens ahead: a rule is given the rules for fewer tokens than it was called with, and those refuse to be called with as
many. No run ever meets such a refusal, since each cycle of calls and each round of a loop takes a token; so these rules
read what the rules of a depth read. Main statement: `parse_terminates`.
-/

namespace LpcStyle

open Text Grammar LpcStyle.Parser

/-! ## The tokens ahead as a measure -/

/-- a step that may be taken with fewer than `n` tokens ahead only, and knows how many there are -/
def Parser.descend {α : Type} (n : Nat) (p : (m : Nat) → m < n → Parser α) : Parser α := fun r =>
  if h : r.remaining < n then (p r.remaining h).run r else .error .exhausted

/-- the rules that may be called with fewer than `n` tokens ahead. What a rule calls in its turn may be called only with
fewer tokens ahead than it was called with itself -/
def Rules.within (n : Nat) : Rules :=
  { expression := descend n fun m _ => Grammar.expression (within m)
    operand := descend n fun m _ => Grammar.operand (within m)
    climb := fun left min => descend n fun m _ => Grammar.climb (within m) left min
    argument := descend n fun m _ => Grammar.argument (within m)
    statement := fun scope => descend n fun m _ => Grammar.statement (within m) scope }
termination_by n

variable {n m c : Nat} {K : Reading → Prop} {rules : Rules}

theorem Spends.descend {α : Type} {p : (m : Nat) → m < n → Parser α} (hm : m < n)
    (h : ∀ k hk, Spends K k (p k hk) (Fewer k)) : Spends K m (Parser.descend n p) (Fewer m) := by
  intro r hr hK hle
  have hlt : r.remaining < n := Nat.lt_of_le_of_lt hle hm
  have hrun : (Parser.descend n p).run r = (p r.remaining hlt).run r := dif_pos hlt
  rw [hrun]
  exact (h r.remaining hlt r hr hK le_rfl).imp fun _ _ hk => Nat.lt_of_lt_of_le hk hle

/-- **The measure suffices**: a rule that is called with fewer tokens ahead than its bound never meets the bounds of the
rules that it calls, and takes a token. -/
theorem Rules.spend_within (n : Nat) : (Rules.within n).Spend n := by
  induction n using Nat.strong_induction_on with
  | _ n ih =>
    rw [Rules.within]
    refine ⟨fun hm => ?_, fun hm => ?_, fun hm hrank hmin => ?_, fun hm => ?_, fun scope hm => ?_⟩
    · exact .descend hm fun k hk => spends_expression (ih k hk) le_rfl
    · exact .descend hm fun k hk => spends_operand (ih k hk) le_rfl
    · exact .descend hm fun k hk => spends_climb_of_rank (ih k hk) le_rfl hrank hmin _
    · exact .descend hm fun k hk => spends_argument (ih k hk) le_rfl
    · exact .descend hm fun k hk => spends_statement (ih k hk) le_rfl scope

theorem Below.descend {α : Type} {p : (m : Nat) → m < n → Parser α} {q : Parser α} (h : ∀ k hk, Below (p k hk) q) :
    Below (Parser.descend n p) q := by
  intro r
  by_cases hlt : r.remaining < n
  · have hrun : (Parser.descend n p).run r = (p r.remaining hlt).run r := dif_pos hlt
    rw [hrun]
    exact h r.remaining hlt r
  · exact .inl (dif_neg hlt)

/-- what the measure allows, the depth allows as well -/
theorem Rules.below_within (n : Nat) : (Rules.within n).Below (Rules.upTo n) := by
  induction n using Nat.strong_induction_on with
  | _ n ih =>
    have ok {k : Nat} (hk : k < n) : (Rules.within k).Below (Rules.upTo (n - 1)) :=
      (ih k hk).trans (Rules.below_upTo (Nat.le_sub_one_of_lt hk))
    rw [Rules.within]
    cases n with
    | zero =>
      -- no rule may be called
      exact ⟨fun _ => .inl rfl, fun _ => .inl rfl, fun _ _ _ => .inl rfl, fun _ => .inl rfl, fun _ _ => .inl rfl⟩
    | succ n =>
      refine ⟨?_, ?_, fun left min => ?_, ?_, fun scope => ?_⟩
      · exact .descend fun k hk => below_expression (ok hk)
      · exact .descend fun k hk => below_operand (ok hk)
      · exact .descend fun k hk => below_climb (ok hk) left min
      · exact .descend fun k hk => below_argument (ok hk)
      · exact .descend fun k hk => below_statement (ok hk) scope

/-! ## Rounds -/

/-- every round of a loop, started with fewer than `n` tokens ahead, is the last one, or goes on with fewer tokens ahead,
or refuses the text -/
def RoundsSpend {σ α : Type} (n : Nat) (round : σ → Parser (σ ⊕ α)) : Prop :=
  ∀ u m, m < n → Spends Anywhere m (round u) (Goes m (m + 1))

/-- the loops of the grammar -/
structure Rules.LoopsSpend (n : Nat) (rules : Rules) : Prop where
  statementList : ∀ scope closers, RoundsSpend n (statementRound rules scope closers)
  directiveLines : RoundsSpend n directiveRound
  delimited : ∀ close closeText item, (∀ m < n, Spends Anywhere m item (Fewer m)) →
    RoundsSpend n (delimitedRound close closeText item)
  moreValues : RoundsSpend n (valueRound rules)
  index : RoundsSpend n (indexRound rules)
  inlineClosure : RoundsSpend n (closureRound rules)
  trailers : RoundsSpend n (trailerRound rules)
  joined : RoundsSpend n (joinRound rules)
  tighter : ∀ rank, RoundsSpend n (tighterRound rules rank)
  climb : ∀ min, RoundsSpend n (climbRound rules min)
  modifiers : RoundsSpend n modifierRound
  moreDeclarators : ∀ comments, RoundsSpend n (declaratorRound rules comments)
  headComments : RoundsSpend n commentRound
  commaList : RoundsSpend n (commaRound rules)
  foreachLoop : RoundsSpend n (variableRound rules)
  switch : RoundsSpend n (caseRound rules)

theorem Rules.Spend.loops (ok : rules.Spend n) : rules.LoopsSpend n where
  statementList scope closers items _ hm := spends_statementRound ok hm (Nat.lt_succ_self _) scope closers items
  directiveLines d _ _ := spends_directiveRound (Nat.lt_succ_self _) d
  delimited close closeText _ hitem items _ hm :=
    spends_delimitedRound close closeText (hitem _ hm) (Nat.lt_succ_self _) items
  moreValues values _ hm := spends_valueRound ok hm.le (Nat.lt_succ_self _) values
  index parts _ hm := spends_indexRound ok hm (Nat.lt_succ_self _) parts
  inlineClosure items _ hm := spends_closureRound ok hm (Nat.lt_succ_self _) items
  trailers left _ hm := spends_trailerRound ok hm.le (Nat.lt_succ_self _) left
  joined left _ hm := spends_joinRound ok hm.le (Nat.lt_succ_self _) left
  tighter rank right _ hm := spends_tighterRound ok hm (Nat.lt_succ_self _) rank right
  climb min left _ hm := spends_climbRound ok hm.le (Nat.lt_succ_self _) min left
  modifiers found _ _ := spends_modifierRound (Nat.lt_succ_self _) found
  moreDeclarators comments found _ hm := spends_declaratorRound ok hm.le (Nat.lt_succ_self _) comments found
  headComments found _ _ := spends_commentRound (Nat.lt_succ_self _) found
  commaList items _ hm := spends_commaRound ok hm.le (Nat.lt_succ_self _) items
  foreachLoop vars _ hm := spends_variableRound ok hm (Nat.lt_succ_self _) vars
  switch cases _ hm := spends_caseRound ok hm.le (Nat.lt_succ_self _) cases

/-! ## Whole texts -/

theorem spends_sourceFile (ok : rules.Spend n) (hm : m < n) : Spends K m (sourceFile rules) (Fewer (m + 1)) := by
  unfold sourceFile
  refine .bind (spends_statementList ok hm .file []) fun roots k hk => .raw_bind fun t => ?_
  cases t.fault with
  | some fault => exact .never_bind .refuse
  | none => exact .ite (fun _ => .never_bind .unexpected) fun _ => .done hk

theorem below_sourceFile {rules' : Rules} (ok : rules.Below rules') : Below (sourceFile rules) (sourceFile rules') :=
  (below_statementList ok .file []).bind fun _ => .refl

/-- the rules that a text is read with, defined by recursion on the number of tokens ahead -/
def Rules.measured (text : List Char) : Rules := within ((Stream.ofText text).ahead.length + 1)

theorem run_measured (text : List Char) : Spent (Fewer ((Stream.ofText text).ahead.length + 1))
    ((sourceFile (.measured text)).run (.ofText text)) :=
  spends_sourceFile (K := Anywhere) (Rules.spend_within _) (Nat.lt_succ_self _) _ (Reading.sane_ofText text) trivial le_rfl

theorem run_measured_ne_exhausted (text : List Char) :
    (sourceFile (.measured text)).run (.ofText text) ≠ .error .exhausted := by
  intro hrun
  have hspent := run_measured text
  rw [hrun] at hspent
  exact hspent rfl

theorem run_eq_measured (text : List Char) :
    (sourceFile (.ofText text)).run (.ofText text) = (sourceFile (.measured text)).run (.ofText text) :=
  (below_sourceFile (Rules.below_within _)).run_eq (run_measured_ne_exhausted text)

/-- **Reading ends on every text**, with the number of tokens ahead as its measure: it never breaks off for want of calls
or rounds, and the rules that are defined by recursion on that number read the same. Whenever such a rule is called with
fewer tokens ahead than its bound, it takes a token or refuses the text, and so does every round of a loop that goes on;
so at the end of the file, where no token is ahead, no rule gives a result and no loop goes on. -/
theorem parse_terminates (text : List Char) :
    parse text ≠ .error .exhausted ∧ parse text = parseWith (.measured text) text ∧
      ∀ n, (Rules.within n).Spend n ∧ (Rules.within n).LoopsSpend n := by
  refine ⟨fun hparse => ?_, ?_, fun n => ⟨Rules.spend_within n, (Rules.spend_within n).loops⟩⟩
  · obtain ⟨failure, hrun, hreport⟩ := parseWith_eq_error_iff.1 hparse
    rw [run_eq_measured] at hrun
    unfold Failure.report at hreport
    split at hreport
    · cases hreport
    · exact run_measured_ne_exhausted text (hreport ▸ hrun)
  · unfold parse parseWith
    rw [run_eq_measured]

end LpcStyle
