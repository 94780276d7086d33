import Mathlib.Tactic
import LpcStyle.Proofs.Grammar.Term
import LpcStyle.Proofs.Text.Gaps
import LpcStyle.Proofs.Token.Whole

/-!
Terms as text. `Typeset e x` says that the text `x` is the term `e` with room where the layout leaves some: a gap inside
parentheses may be empty, one next to an operator between operands is not, and a sign stands apart from an operand that
starts with the same sign. The last pass keeps such a text one of the term (`Typeset.finish`), and read again it has the
tokens of the term (`Typeset.written`).
-/

namespace LpcStyle

open Text Pattern

/-! ## Texts of terms -/

/-- operators before their operand, `&` aside -/
def signs : List (Kind × List Char) :=
  [(.unaryOp, ['!']), (.unaryOp, ['~']), (.assignOp, ['+', '+']), (.assignOp, ['-', '-']), (.arithOp, ['-']), (.arithOp, ['+'])]

/-- operators after their operand -/
def steps : List (Kind × List Char) := [(.assignOp, ['+', '+']), (.assignOp, ['-', '-'])]

/-- a gap that is not empty -/
structure WideGap (gap : List Char) : Prop extends Gap gap where
  nonempty : gap ≠ []

/-- the text is the term -/
inductive Typeset : Term → List Char → Prop
  | name {w : List Char} (h : NameText w) (hlambda : w ≠ "lambda".toList) : Typeset (.name w) w
  | number {w : List Char} (h : NumberText w) : Typeset (.number w) w
  | unit : Typeset .unit ['(', ')']
  | paren {e : Term} {g x g' : List Char} (hg : Gap g) (h : Typeset e x) (hg' : Gap g') :
      Typeset (.paren e) (['('] ++ g ++ (x ++ g' ++ [')']))
  | call {e : Term} {x : List Char} (h : Typeset e x) : Typeset (.call e) (x ++ ['(', ')'])
  | apply {e a : Term} {x g y g' : List Char} (h : Typeset e x) (hg : Gap g) (harg : Typeset a y) (hg' : Gap g') :
      Typeset (.apply e a) (x ++ (['('] ++ g ++ (y ++ g' ++ [')'])))
  | step {e : Term} {op : Kind × List Char} {x : List Char} (h : Typeset e x) (hop : op ∈ steps) :
      Typeset (.step e op) (x ++ op.2)
  | sign {e : Term} {op : Kind × List Char} {g x : List Char} (hop : op ∈ signs) (hg : Gap g) (h : Typeset e x)
      (hapart : ∀ c ∈ ['-', '+'], op.2 = [c] → x.head? = some c → g ≠ []) : Typeset (.sign op e) (op.2 ++ g ++ x)
  | binary {l r : Term} {op : Kind × List Char} {x g g' y : List Char} (h : Typeset l x) (hg : WideGap g) (hop : op ∈ operators)
      (hg' : WideGap g') (h' : Typeset r y) : Typeset (.binary l op r) (x ++ g ++ (op.2 ++ g' ++ y))
  | ternary {t c a : Term} {x g₁ g₂ y g₃ g₄ z : List Char} (ht : Typeset t x) (h₁ : WideGap g₁) (h₂ : WideGap g₂)
      (hc : Typeset c y) (h₃ : WideGap g₃) (h₄ : WideGap g₄) (ha : Typeset a z) :
      Typeset (.ternary t c a) (x ++ g₁ ++ (['?'] ++ g₂ ++ (y ++ g₃ ++ ([':'] ++ g₄ ++ z))))

/-! ## The last pass -/

/-- a text that is not empty and has no blank at either end -/
structure Solid (text : List Char) : Prop where
  nonempty : text ≠ []
  trimmed : Trimmed text

namespace Solid

variable {x y : List Char}

theorem append (hx : Solid x) (hy : Solid y) (g : List Char) : Solid (x ++ g ++ y) := by
  obtain ⟨c, xs, rfl⟩ := List.exists_cons_of_ne_nil hx.nonempty
  refine ⟨by simp, ?_, ?_⟩
  · simpa using hx.trimmed.1
  · intro d hd
    rw [List.getLast?_append_of_ne_nil _ hy.nonempty] at hd
    exact hy.trimmed.2 d hd

theorem beside (hx : Solid x) (hy : Solid y) : Solid (x ++ y) := by
  simpa using hx.append hy []

theorem of_plain (hne : x ≠ []) (h : ∀ c ∈ x, isBlank c = false) : Solid x :=
  ⟨hne, fun c hc => h c (List.mem_of_mem_head? hc), fun c hc => h c (List.mem_of_mem_getLast? hc)⟩

end Solid

theorem Recast.gap {g g' : List Char} (h : Recast g g') (hg : Gap g) : Gap g' := ⟨h.blank, h.count ▸ hg.oneLineFeed⟩

theorem Recast.blankGap {g g' : List Char} (h : Recast g g') (hg : BlankGap g) : BlankGap g' :=
  ⟨h.blank, h.count ▸ hg.lineFeeds⟩

theorem Recast.wideGap {g g' : List Char} (h : Recast g g') (hg : WideGap g) : WideGap g' :=
  ⟨h.gap hg.toGap, mt h.nil_iff.1 hg.nonempty⟩

namespace Layout

variable (useTabs : Bool) (tabWidth : Nat) {x g y : List Char}

/-- a text without blanks stays as it is -/
theorem finishLines_plain (h : ∀ c ∈ x, isBlank c = false) : finishLines useTabs tabWidth x = x := by
  have hline : '\n' ∉ x := fun hmem => absurd (h _ hmem) (by decide)
  have hend : trimEnd x = x := trimEnd_solid fun c hc => h c (List.mem_of_mem_getLast? hc)
  have hstart : x.head? ≠ some ' ' := fun hhead => absurd (h _ (List.mem_of_mem_head? hhead)) (by decide)
  rw [finishLines_line _ _ hline, finishLine_eq, hend, indented_solid _ _ hstart]

theorem finishLines_solid (hx : Solid x) (hg : ∀ c ∈ g, isGapOrLineFeed c = true) (hy : Solid y) :
    ∃ g', Recast g g' ∧ finishLines useTabs tabWidth (x ++ g ++ y) =
      finishLines useTabs tabWidth x ++ g' ++ finishLines useTabs tabWidth y := by
  obtain ⟨c, rest, rfl⟩ := List.exists_cons_of_ne_nil hy.nonempty
  exact finishLines_gap useTabs tabWidth hx.nonempty hx.trimmed.2 hg (hy.trimmed.1 c rfl) rest

theorem finishLines_beside (hx : Solid x) (hy : Solid y) :
    finishLines useTabs tabWidth (x ++ y) = finishLines useTabs tabWidth x ++ finishLines useTabs tabWidth y := by
  obtain ⟨g, hg, hfinish⟩ := finishLines_solid useTabs tabWidth (g := []) hx (by simp) hy
  obtain rfl := hg.nil_iff.2 rfl
  simpa using hfinish

/-- the first character stays -/
theorem head?_finishLines (hx : Solid x) : (finishLines useTabs tabWidth x).head? = x.head? := by
  obtain ⟨c, rest, rfl⟩ := List.exists_cons_of_ne_nil hx.nonempty
  have hc : isBlank c = false := hx.trimmed.1 c rfl
  obtain ⟨rest', hfinish⟩ := finishLines_back useTabs tabWidth (show [c] ≠ [] by simp) (by simpa using hc) rest
  rw [← List.singleton_append, hfinish, finishLines_plain _ _ (by simpa using hc)]
  rfl

end Layout

/-- a text without blanks -/
structure Plain (text : List Char) : Prop where
  nonempty : text ≠ []
  unblank : ∀ c ∈ text, isBlank c = false

theorem Plain.solid {x : List Char} (h : Plain x) : Solid x := .of_plain h.nonempty h.unblank

theorem Plain.finish {x : List Char} (h : Plain x) (useTabs : Bool) (tabWidth : Nat) :
    Layout.finishLines useTabs tabWidth x = x := Layout.finishLines_plain useTabs tabWidth h.unblank

theorem plain_of_check {x : List Char} (h : (!x.isEmpty && x.all (!isBlank ·)) = true) : Plain x := by
  simp only [Bool.and_eq_true, Bool.not_eq_true', List.isEmpty_eq_false_iff, List.all_eq_true] at h
  exact ⟨h.1, h.2⟩

/-- operators have no blanks in them -/
theorem plain_mark {op : Kind × List Char} (h : op ∈ operators) : Plain op.2 := by
  have hall : operators.all (!·.2.isEmpty) = true := by decide
  exact ⟨by simpa using List.all_eq_true.1 hall op h, fun c hc => not_of_mark (by decide) (mem_operatorMarks h hc)⟩

theorem mem_operators_of_steps {op : Kind × List Char} (h : op ∈ steps) : op ∈ operators := by
  have hall : steps.all (operators.contains ·) = true := by decide
  simpa using List.all_eq_true.1 hall op h

theorem mem_operators_of_signs {op : Kind × List Char} (h : op ∈ signs) : op ∈ operators := by
  have hall : signs.all (operators.contains ·) = true := by decide
  simpa using List.all_eq_true.1 hall op h

theorem Plain.ofName {w : List Char} (h : NameText w) : Plain w := by
  obtain ⟨c, after, rfl, -⟩ := h.starts
  exact ⟨by simp, fun d hd => not_isBlank_of_isLetterOrDigit (h.goesOn d hd)⟩

theorem Plain.ofNumber {w : List Char} (h : NumberText w) : Plain w := by
  obtain ⟨c, after, rfl, -⟩ := h.starts
  exact ⟨by simp, h.solid⟩

namespace Typeset

variable {e : Term} {x y : List Char}

theorem solid (h : Typeset e x) : Solid x := by
  induction h with
  | name h => exact (Plain.ofName h).solid
  | number h => exact (Plain.ofNumber h).solid
  | unit => exact (plain_of_check (by decide)).solid
  | paren _ _ _ ih => exact (plain_of_check (by decide)).solid.append (ih.append (plain_of_check (by decide)).solid _) _
  | call _ ih => exact ih.beside (plain_of_check (by decide)).solid
  | apply _ _ _ _ ih iharg =>
    exact ih.beside ((plain_of_check (by decide)).solid.append (iharg.append (plain_of_check (by decide)).solid _) _)
  | step _ hop ih => exact ih.beside (plain_mark (mem_operators_of_steps hop)).solid
  | sign hop _ _ _ ih => exact (plain_mark (mem_operators_of_signs hop)).solid.append ih _
  | binary _ _ hop _ _ ih ih' => exact ih.append ((plain_mark hop).solid.append ih' _) _
  | ternary _ _ _ _ _ _ _ iht ihc iha =>
    have hquestion : Plain ['?'] := plain_of_check (by decide)
    have hcolon : Plain [':'] := plain_of_check (by decide)
    exact iht.append (hquestion.solid.append (ihc.append (hcolon.solid.append iha _) _) _) _

/-- **What the last pass makes of a term** is the term again. -/
theorem finish (useTabs : Bool) (tabWidth : Nat) (h : Typeset e x) :
    Typeset e (Layout.finishLines useTabs tabWidth x) := by
  have hopen : Plain ['('] := plain_of_check (by decide)
  have hclose : Plain [')'] := plain_of_check (by decide)
  induction h with
  | name h hlambda =>
    rw [(Plain.ofName h).finish]
    exact .name h hlambda
  | number h =>
    rw [(Plain.ofNumber h).finish]
    exact .number h
  | unit =>
    rw [(plain_of_check (by decide)).finish]
    exact .unit
  | @paren e g x g' hg h hg' ih =>
    obtain ⟨k', hk', hback⟩ := Layout.finishLines_solid useTabs tabWidth h.solid hg'.blank hclose.solid
    obtain ⟨k, hk, hfront⟩ :=
      Layout.finishLines_solid useTabs tabWidth hopen.solid hg.blank (h.solid.append hclose.solid g')
    rw [hfront, hback, hopen.finish, hclose.finish]
    exact .paren (hk.gap hg) ih (hk'.gap hg')
  | @call e x h ih =>
    have hunit : Plain ['(', ')'] := plain_of_check (by decide)
    rw [Layout.finishLines_beside _ _ h.solid hunit.solid, hunit.finish]
    exact .call ih
  | @apply e a x g y g' h hg harg hg' ih iharg =>
    obtain ⟨k', hk', hback⟩ := Layout.finishLines_solid useTabs tabWidth harg.solid hg'.blank hclose.solid
    obtain ⟨k, hk, hfront⟩ :=
      Layout.finishLines_solid useTabs tabWidth hopen.solid hg.blank (harg.solid.append hclose.solid g')
    rw [Layout.finishLines_beside _ _ h.solid (hopen.solid.append (harg.solid.append hclose.solid g') g), hfront, hback,
      hopen.finish, hclose.finish]
    exact .apply ih (hk.gap hg) iharg (hk'.gap hg')
  | @step e op x h hop ih =>
    have hmark := plain_mark (mem_operators_of_steps hop)
    rw [Layout.finishLines_beside _ _ h.solid hmark.solid, hmark.finish]
    exact .step ih hop
  | @sign e op g x hop hg h hapart ih =>
    have hmark := plain_mark (mem_operators_of_signs hop)
    obtain ⟨k, hk, hfinish⟩ := Layout.finishLines_solid useTabs tabWidth hmark.solid hg.blank h.solid
    rw [hfinish, hmark.finish]
    refine .sign hop (hk.gap hg) ih fun c hc heq hhead => mt hk.nil_iff.1 (hapart c hc heq ?_)
    rwa [Layout.head?_finishLines useTabs tabWidth h.solid] at hhead
  | @binary l r op x g g' y h hg hop hg' h' ih ih' =>
    have hmark := plain_mark hop
    obtain ⟨k', hk', hback⟩ := Layout.finishLines_solid useTabs tabWidth hmark.solid hg'.blank h'.solid
    obtain ⟨k, hk, hfront⟩ := Layout.finishLines_solid useTabs tabWidth h.solid hg.blank (hmark.solid.append h'.solid g')
    rw [hfront, hback, hmark.finish]
    exact .binary ih (hk.wideGap hg) hop (hk'.wideGap hg') ih'
  | @ternary t c a x g₁ g₂ y g₃ g₄ z ht h₁ h₂ hc h₃ h₄ ha iht ihc iha =>
    have hquestion : Plain ['?'] := plain_of_check (by decide)
    have hcolon : Plain [':'] := plain_of_check (by decide)
    have hlast := hcolon.solid.append ha.solid g₄
    have hmiddle := hquestion.solid.append (hc.solid.append hlast g₃) g₂
    obtain ⟨k₄, hk₄, hback⟩ := Layout.finishLines_solid useTabs tabWidth hcolon.solid h₄.blank ha.solid
    obtain ⟨k₃, hk₃, hcolon'⟩ := Layout.finishLines_solid useTabs tabWidth hc.solid h₃.blank hlast
    obtain ⟨k₂, hk₂, hquestion'⟩ :=
      Layout.finishLines_solid useTabs tabWidth hquestion.solid h₂.blank (hc.solid.append hlast g₃)
    obtain ⟨k₁, hk₁, hfront⟩ := Layout.finishLines_solid useTabs tabWidth ht.solid h₁.blank hmiddle
    rw [hfront, hquestion', hcolon', hback, hquestion.finish, hcolon.finish]
    exact .ternary iht (hk₁.wideGap h₁) (hk₂.wideGap h₂) ihc (hk₃.wideGap h₃) (hk₄.wideGap h₄) iha

end Typeset

/-! ## Tokens -/

theorem Gap.closed {g y : List Char} (hg : Gap g) (hy : Closed y) : Closed (g ++ y) := by
  cases g with
  | nil => exact hy
  | cons c g =>
    intro d hd
    obtain rfl : c = d := by simpa using hd
    exact mem_closers_of_gap (hg.blank c List.mem_cons_self)

/-- a wide gap starts with a blank -/
theorem WideGap.head {g : List Char} (hg : WideGap g) (y : List Char) : ∀ c ∈ (g ++ y).head?, isGapOrLineFeed c = true := by
  obtain ⟨c, g, rfl⟩ := List.exists_cons_of_ne_nil hg.nonempty
  simpa using hg.blank c List.mem_cons_self

theorem WideGap.closed {g : List Char} (hg : WideGap g) (y : List Char) : Closed (g ++ y) :=
  fun c hc => mem_closers_of_gap (hg.head y c hc)

/-- a gap may stand before a token that none stands before -/
theorem Written.behindGap {n : Nat} {ts : List (Kind × List Char)} {g z : List Char} (h : Written n ts z) (hts : ts ≠ [])
    (hg : Gap g) (hz : ∀ c ∈ z.head?, isGapOrLineFeed c = false) : Written n ts (g ++ z) := by
  cases h with
  | done => exact absurd rfl hts
  | @token depth later gap text rest kind ts hgap htext hrest =>
    cases gap with
    | nil => simpa using Written.token hg htext hrest
    | cons c gap =>
      have hc := hgap.blank c List.mem_cons_self
      rw [hz c rfl] at hc
      cases hc
  | @blank gap rest ts hgap hstart hrest =>
    cases gap with
    | nil => exact absurd hgap.lineFeeds (by simp)
    | cons c gap =>
      have hc := hgap.blank c List.mem_cons_self
      rw [hz c rfl] at hc
      cases hc

/-- a token that no gap stands before -/
theorem Written.next {n later : Nat} {kind : Kind} {text rest : List Char} {ts : List (Kind × List Char)}
    (hrest : Written later ts rest) (htext : CutsOff n later kind text rest) : Written n ((kind, text) :: ts) (text ++ rest) :=
  .token gap_nil htext hrest

theorem Starts.not_gap {z : List Char} (h : Starts z) : ∀ c ∈ z.head?, isGapOrLineFeed c = false := by
  intro c hc
  by_contra hgap
  have hblank := isBlank_of_isGapOrLineFeed (by simpa using hgap)
  rw [h.blank c hc] at hblank
  cases hblank

/-! ## What follows an operator -/

/-- no operator has a letter or digit in it -/
theorem goesOn_word {c : Char} (h : isLetterOrDigit c = true) (op : List Char) : goesOn op c = false :=
  goesOn_of_unmarked (by decide) h op

/-- nor a blank -/
theorem goesOn_gap {c : Char} (h : isGapOrLineFeed c = true) (op : List Char) : goesOn op c = false :=
  goesOn_of_unmarked (by decide) h op

theorem not_isLetter_of_gap {c : Char} (h : isGapOrLineFeed c = true) : isLetter c = false := by
  by_contra hletter
  have hword := isLetterOrDigit_of_isLetter (by simpa using hletter)
  rw [Lexer.not_gap_of_word hword] at h
  cases h

/-- an operator between operands stands before a gap -/
theorem cutsOff_spaced {op : Kind × List Char} (hop : op ∈ operators) {g : List Char} (hg : WideGap g) (y : List Char)
    (n : Nat) : CutsOff n n op.1 op.2 (g ++ y) :=
  cutsOff_operator hop (fun c hc => goesOn_gap (hg.head y c hc) _) (fun _ c hc => not_isLetter_of_gap (hg.head y c hc)) n

/-- a step closes its operand -/
theorem closed_step {op : Kind × List Char} (hop : op ∈ steps) (y : List Char) : Closed (op.2 ++ y) := by
  have hall : steps.all (fun op => op.2.head?.any closers.contains) = true := by decide
  obtain ⟨c, hhead, hc⟩ := (Option.any_eq_true _ _).1 (List.all_eq_true.1 hall op hop)
  intro d hd
  rw [List.head?_append, hhead] at hd
  obtain rfl : c = d := by simpa using hd
  simpa using hc

/-- and stands before what closes it -/
theorem cutsOff_step {op : Kind × List Char} (hop : op ∈ steps) {y : List Char} (hy : Closed y) (n : Nat) :
    CutsOff n n op.1 op.2 y := by
  have hall : steps.all (fun op => closers.all (!goesOn op.2 ·)) = true := by decide
  have hless : steps.all (fun op => op.2.head? != some '<') = true := by decide
  refine cutsOff_operator (mem_operators_of_steps hop) (hy.not (List.all_eq_true.1 hall op hop)) (fun hhead => ?_) n
  have hnot := List.all_eq_true.1 hless op hop
  simp [hhead] at hnot

/-- marks that a term may start with -/
def fronts : List Char := ['(', '!', '~', '+', '-']

/-- a sign stands before the start of its operand, or a gap -/
theorem cutsOff_sign {op : Kind × List Char} (hop : op ∈ signs) {g x : List Char} (hg : Gap g) {c : Char}
    (hx : x.head? = some c) (hc : isLetterOrDigit c = true ∨ c ∈ fronts)
    (hapart : ∀ c ∈ ['-', '+'], op.2 = [c] → x.head? = some c → g ≠ []) (n : Nat) : CutsOff n n op.1 op.2 (g ++ x) := by
  have hall : signs.all (fun op => fronts.all fun c => !goesOn op.2 c || (op.2 == [c] && ['-', '+'].contains c)) = true := by
    decide
  have hless : signs.all (fun op => op.2.head? != some '<') = true := by decide
  refine cutsOff_operator (mem_operators_of_signs hop) ?_ (fun hhead => ?_) n
  · cases g with
    | cons d g => simpa using goesOn_gap (hg.blank d List.mem_cons_self) op.2
    | nil =>
      rw [List.nil_append, hx]
      rintro _ ⟨⟩
      rcases hc with hword | hfront
      · exact goesOn_word hword op.2
      · have hcase := List.all_eq_true.1 (List.all_eq_true.1 hall op hop) c hfront
        simp only [Bool.or_eq_true, Bool.not_eq_true', Bool.and_eq_true, beq_iff_eq, List.contains_iff_mem] at hcase
        exact hcase.resolve_right fun hsame => hapart c hsame.2 hsame.1 hx rfl
  · have hnot := List.all_eq_true.1 hless op hop
    simp [hhead] at hnot

namespace Typeset

variable {e : Term} {x y : List Char}

/-- a term starts with what its first token says, and that with a word or one of a few marks -/
theorem front (h : Typeset e x) : ∃ t ts rest, e.spelled = t :: ts ∧ x = t.2 ++ rest ∧
    ∃ c, t.2.head? = some c ∧ (isLetterOrDigit c = true ∨ c ∈ fronts) := by
  -- the front part of a longer text starts with the same token
  have hfront {e : Term} {x : List Char} (h : ∃ t ts rest, e.spelled = t :: ts ∧ x = t.2 ++ rest ∧
        ∃ c, t.2.head? = some c ∧ (isLetterOrDigit c = true ∨ c ∈ fronts)) (us : List (Kind × List Char)) (y : List Char) :
      ∃ t ts rest, e.spelled ++ us = t :: ts ∧ x ++ y = t.2 ++ rest ∧
        ∃ c, t.2.head? = some c ∧ (isLetterOrDigit c = true ∨ c ∈ fronts) := by
    obtain ⟨t, ts, rest, hspelled, rfl, hhead⟩ := h
    exact ⟨t, ts ++ us, rest ++ y, by rw [hspelled]; rfl, List.append_assoc _ _ _, hhead⟩
  induction h with
  | name h =>
    obtain ⟨c, after, rfl, hletter⟩ := h.starts
    exact ⟨_, _, [], rfl, by simp, c, rfl, .inl (isLetterOrDigit_of_isLetter hletter)⟩
  | number h =>
    obtain ⟨c, after, rfl, hdigit⟩ := h.starts
    exact ⟨_, _, [], rfl, by simp, c, rfl, .inl (Lexer.isLetterOrDigit_of_isDigit hdigit)⟩
  | unit => exact ⟨_, _, [')'], rfl, rfl, '(', rfl, .inr (by decide)⟩
  | paren => exact ⟨_, _, _, rfl, by rw [List.append_assoc], '(', rfl, .inr (by decide)⟩
  | call _ ih => exact hfront ih _ _
  | apply _ _ _ _ ih => exact hfront ih _ _
  | step _ _ ih => exact hfront ih _ _
  | @sign e op g x hop =>
    have hall : signs.all (fun op => op.2.head?.any fronts.contains) = true := by decide
    obtain ⟨c, hhead, hc⟩ := (Option.any_eq_true _ _).1 (List.all_eq_true.1 hall op hop)
    exact ⟨_, _, _, rfl, by rw [List.append_assoc], c, hhead, .inr (by simpa using hc)⟩
  | binary _ _ _ _ _ ih =>
    rw [List.append_assoc]
    exact hfront ih _ _
  | ternary _ _ _ _ _ _ _ ih =>
    rw [List.append_assoc]
    exact hfront ih _ _

theorem head (h : Typeset e x) : ∃ c, x.head? = some c ∧ (isLetterOrDigit c = true ∨ c ∈ fronts) := by
  obtain ⟨t, ts, rest, -, rfl, c, hhead, hc⟩ := h.front
  exact ⟨c, by rw [List.head?_append, hhead]; rfl, hc⟩

/-- before what closes it, a term starts none of the special brackets -/
theorem starts (h : Typeset e x) (hy : Closed y) : Starts (x ++ y) := by
  have hopen {z : List Char} : Starts ('(' :: z) := .ofMark (by decide) (by decide) (by decide)
  induction h generalizing y with
  | name h => exact .ofName h hy
  | number h =>
    obtain ⟨c, after, rfl, hdigit⟩ := h.starts
    have hblank := not_isBlank_of_isLetterOrDigit (Lexer.isLetterOrDigit_of_isDigit hdigit)
    refine .ofMark hblank ⟨?_, ?_, ?_⟩ ?_
    · rintro rfl
      cases hdigit
    · rintro rfl
      cases hdigit
    · rintro rfl
      cases hdigit
    · by_contra hletter
      rw [Lexer.not_isDigit_of_isLetter (by simpa using hletter)] at hdigit
      cases hdigit
  | unit => exact hopen
  | paren => exact hopen
  | call _ ih =>
    rw [List.append_assoc]
    exact ih (by simp [Closed, closers])
  | apply _ _ _ _ ih =>
    rw [List.append_assoc]
    exact ih (by simp [Closed, closers])
  | step _ hop ih =>
    rw [List.append_assoc]
    exact ih (closed_step hop _)
  | @sign e op g x hop =>
    have hall : signs.all (fun op => !op.2.isEmpty && op.2.head?.all fun c =>
        !isBlank c && c != '\x7b' && c != '[' && c != ':' && !isLetter c) = true := by decide
    have hsign := List.all_eq_true.1 hall op hop
    cases htext : op.2 with
    | nil => simp [htext] at hsign
    | cons c more =>
      simp only [htext, List.head?_cons, Option.all_some, Bool.and_eq_true, Bool.not_eq_true', bne_iff_ne] at hsign
      obtain ⟨-, ⟨⟨⟨hblank, hbrace⟩, hbracket⟩, hcolon⟩, hletter⟩ := hsign
      exact .ofMark hblank ⟨hbrace, hbracket, hcolon⟩ hletter
  | binary _ hg _ _ _ ih =>
    rw [List.append_assoc, List.append_assoc]
    exact ih (hg.closed _)
  | ternary _ h₁ _ _ _ _ _ ih =>
    rw [List.append_assoc, List.append_assoc]
    exact ih (h₁.closed _)

/-- what is read before what closes it, is read in parentheses -/
theorem written_enclosed (h : Typeset e x) {g g' : List Char} (hg : Gap g) (hg' : Gap g') {n : Nat}
    {ts : List (Kind × List Char)} (hrest : Written n ts y)
    (hinner : ∀ {n ts y}, Closed y → Written n ts y → Written n (e.spelled ++ ts) (x ++ y)) :
    Written n ((.parenStart, ['(']) :: (e.spelled ++ (.parenEnd, [')']) :: ts)) ('(' :: (g ++ (x ++ (g' ++ ')' :: y)))) := by
  have hclosed : Closed (g' ++ ')' :: y) := hg'.closed (by simp [Closed, closers])
  have hclose : Written (n + 1) ((.parenEnd, [')']) :: ts) (g' ++ ')' :: y) :=
    (hrest.next (cutsOff_parenEnd y n)).behindGap (by simp) hg' (by simp [isGapOrLineFeed, isGap])
  have hstarts := h.starts hclosed
  have hbody := (hinner hclosed hclose).behindGap (by simp) hg hstarts.not_gap
  exact hbody.next (cutsOff_parenStart hg.blank hstarts n)

theorem written_unit {n : Nat} {ts : List (Kind × List Char)} (hrest : Written n ts y) :
    Written n ((.parenStart, ['(']) :: (.parenEnd, [')']) :: ts) ('(' :: ')' :: y) := by
  have hstarts : Starts (')' :: y) := .ofMark (by decide) (by decide) (by decide)
  exact (hrest.next (cutsOff_parenEnd y n)).next (cutsOff_parenStart gap_nil.blank hstarts n)

theorem spelled_ne_nil (h : Typeset e x) : e.spelled ≠ [] := by
  cases h <;> simp [Term.spelled]

/-- **The tokens of a term**, before what closes it, are those that the term says. -/
theorem written (h : Typeset e x) {n : Nat} {ts : List (Kind × List Char)} (hy : Closed y) (hrest : Written n ts y) :
    Written n (e.spelled ++ ts) (x ++ y) := by
  -- a token with a wide gap before it and another one behind it
  have hspaced {n : Nat} {t : Kind × List Char} {ts : List (Kind × List Char)} {g g' z : List Char} (hg : WideGap g)
      (hg' : WideGap g') (ht : CutsOff n n t.1 t.2 (g' ++ z)) (hts : ts ≠ []) (hz : Starts z) (hrest : Written n ts z) :
      Written n (t :: ts) (g ++ (t.2 ++ (g' ++ z))) := by
    refine ((hrest.behindGap hts hg'.toGap hz.not_gap).next ht).behindGap (by simp) hg.toGap ?_
    obtain ⟨c, after, htext, hc, -⟩ := ht.starts
    simpa [htext] using hc
  induction h generalizing n ts y with
  | name h hlambda => exact hrest.next (cutsOff_name h hlambda hy n)
  | number h => exact hrest.next (cutsOff_number h hy n)
  | unit => exact written_unit hrest
  | paren hg h hg' ih => simpa [Term.spelled] using h.written_enclosed hg hg' hrest ih
  | @call e x h ih => simpa [Term.spelled] using ih (by simp [Closed, closers]) (written_unit hrest)
  | @apply e a x g z g' h hg harg hg' ih iharg =>
    simpa [Term.spelled] using ih (by simp [Closed, closers]) (harg.written_enclosed hg hg' hrest iharg)
  | @step e op x h hop ih =>
    have hstep : Closed (op.2 ++ y) := closed_step hop y
    simpa [Term.spelled] using ih hstep (hrest.next (cutsOff_step hop hy n))
  | @sign e op g x hop hg h hapart ih =>
    have hstarts := h.starts hy
    obtain ⟨c, hhead, hc⟩ := h.head
    have hx : (x ++ y).head? = some c := by simp [List.head?_append, hhead]
    have hsign := cutsOff_sign (x := x ++ y) hop hg hx hc
      (fun d hd htext hfirst => hapart d hd htext (by rw [hhead, ← hx, hfirst])) n
    simpa [Term.spelled] using ((ih hy hrest).behindGap (by simp [h.spelled_ne_nil]) hg hstarts.not_gap).next hsign
  | @binary l r op x g g' z h hg hop hg' h' ih ih' =>
    have hright := hspaced hg hg' (cutsOff_spaced hop hg' _ n) (by simp [h'.spelled_ne_nil]) (h'.starts hy) (ih' hy hrest)
    simpa [Term.spelled] using ih (hg.closed _) hright
  | @ternary t c a x g₁ g₂ z g₃ g₄ u ht h₁ h₂ hc h₃ h₄ ha iht ihc iha =>
    have hlast := hspaced (t := (.colon, [':'])) h₃ h₄ (cutsOff_colon (h₄.closed _) n) (by simp [ha.spelled_ne_nil])
      (ha.starts hy) (iha hy hrest)
    have hmiddle := hspaced (t := (.question, ['?'])) h₁ h₂ (cutsOff_question _ n) (by simp) (hc.starts (h₃.closed _))
      (ihc (h₃.closed _) hlast)
    simpa [Term.spelled] using iht (h₁.closed _) hmiddle

end Typeset

end LpcStyle
