import Mathlib.Tactic
import LpcStyle.Grammar.Parse
import LpcStyle.Proofs.Grammar.InStep.Statement
import LpcStyle.Proofs.Grammar.Walks.Parse

/-!
The layout of a text does not matter to the grammar: two texts without comments whose tokens are the same but for blank
lines are read to the same tree, or refused for the same cause; and the lexer breaks off in both or in neither. Read in step with itself, such a text is always read to
a tree or refused.
-/

namespace LpcStyle

open Text Grammar LpcStyle.Parser

/-! ## The rules of all depths -/

/-- **The rules go on in step** where they allow as many calls as there are tokens left. -/
theorem Rules.along_upTo (τ : Twins) {depth fuel fuel' : Nat} (h : depth ≤ fuel) (h' : depth ≤ fuel') :
    (Rules.upTo fuel).Along τ depth (Rules.upTo fuel') := by
  induction depth generalizing fuel fuel' with
  | zero =>
    -- no place leaves less than no token
    have hnone {k : Nat} {α : Type} {p p' : Parser α} {Q : Nat → α → α → Prop} (hk : τ.size < k + 0) : InStep τ k p p' Q :=
      .known fun hle => by omega
    exact ⟨hnone, hnone, fun hk _ _ => hnone hk, hnone, fun _ hk => hnone hk⟩
  | succ depth ih =>
    obtain ⟨fuel, rfl⟩ := Nat.exists_eq_add_one.2 (Nat.zero_lt_of_lt h)
    obtain ⟨fuel', rfl⟩ := Nat.exists_eq_add_one.2 (Nat.zero_lt_of_lt h')
    have ok := ih (Nat.le_of_succ_le_succ h) (Nat.le_of_succ_le_succ h')
    exact {
      expression := fun hk => inStep_expression ok (by omega)
      operand := fun hk => inStep_operand ok (by omega)
      climb := fun hk hik hn => inStep_climb ok (by omega) _ hn
      argument := fun hk => inStep_argument ok (by omega)
      statement := fun scope hk => inStep_statement ok (by omega) scope }

/-! ## Whole texts -/

variable {τ : Twins}

theorem Agree.known {α : Type} {Q : α → Reading → α → Reading → Prop} {e e' : Except Failure (α × Reading)}
    (h : Agree Q e e') : Agree (fun x s x' s' => Q x s x' s' ∧ e = .ok (x, s) ∧ e' = .ok (x', s')) e e' := by
  cases h with
  | ok h => exact .ok ⟨h, rfl, rfl⟩
  | refused => exact .refused

theorem inStep_sourceFile {rules rules' : Rules} (ok : rules.Along τ (τ.size + 1) rules') :
    InStep τ 0 (sourceFile rules) (sourceFile rules') fun j roots roots' => τ.SameAll 0 j roots roots' := by
  intro r r' hat
  unfold sourceFile
  refine (inStep_statementList ok (by omega) .file [] r r' hat).known.bind ?_
  rintro roots s roots' s' ⟨⟨j, hat, hroots⟩, hrun, hrun'⟩
  -- the end of the file is what comes next in both texts
  have hend {text : List Char} (hquiet : Quiet text) {s : Reading} (hat : s.At text j) (hraw : s.raw.kind = .endOfFile) :
      s.raw = place text j := by
    rcases hat.raw hquiet with hblank | ⟨-, hplace⟩
    · rw [hraw] at hblank
      cases hblank
    · exact hplace
  have hraw := raw_of_statementList hrun
  have hraw' := raw_of_statementList hrun'
  have hleft : s.raw = τ.left j := hend τ.quiet hat.left hraw
  have hright : s'.raw = τ.right j := hend τ.quiet' hat.right hraw'
  rw [run_raw_bind, run_raw_bind]
  simp only [hraw, hraw', ne_eq, not_true_eq_false, if_false]
  rw [hleft, hright, τ.fault_right]
  cases (τ.left j).fault with
  | some fault => exact .refused
  | none => exact .ok ⟨j, hat, hroots.same⟩

/-- **Twins are read alike**: both to the same tree but for blank lines, or refused for the same cause. -/
theorem Twins.run_agree (τ : Twins) : Agree (fun roots _ roots' _ => τ.SameAll 0 τ.size roots roots')
    ((sourceFile (.ofText τ.text)).run (.ofText τ.text)) ((sourceFile (.ofText τ.text')).run (.ofText τ.text')) := by
  have hlength {text : List Char} : (LpcStyle.row text).length ≤ (Stream.ofText text).ahead.length :=
    List.length_filter_le _ _
  have hdepth : τ.size + 1 ≤ (Stream.ofText τ.text).ahead.length + 1 := Nat.succ_le_succ hlength
  have hdepth' : τ.size + 1 ≤ (Stream.ofText τ.text').ahead.length + 1 := by
    rw [← τ.size_eq]
    exact Nat.succ_le_succ hlength
  have hstart (text : List Char) : (Reading.ofText text).At text 0 :=
    ⟨rfl, rfl, rfl, by simp [Reading.ofText], by simp [Reading.ofText], rfl, Nat.zero_le _⟩
  refine (inStep_sourceFile (Rules.along_upTo τ hdepth hdepth') _ _ ⟨hstart τ.text, hstart τ.text'⟩).mono ?_
  rintro roots s roots' s' ⟨j, hat, hroots⟩
  exact hroots.widen le_rfl hat.left.le

/-- a text without comments beside itself -/
def Twins.alone {text : List Char} (hquiet : Quiet text) : Twins := ⟨text, text, hquiet, hquiet, rfl, rfl⟩

/-- **A text without comments is read to a tree or refused**: no node of it would end before it starts, and the calls
that are allowed suffice. -/
theorem run_of_quiet {text : List Char} (hquiet : Quiet text) :
    (∃ e, (sourceFile (.ofText text)).run (.ofText text) = .error (.refused e)) ∨
      ∃ roots s, (sourceFile (.ofText text)).run (.ofText text) = .ok (roots, s) := by
  obtain ⟨Q, e', hagree⟩ : ∃ Q e', Agree Q ((sourceFile (.ofText text)).run (.ofText text)) e' :=
    ⟨_, _, (Twins.alone hquiet).run_agree⟩
  generalize (sourceFile (.ofText text)).run (.ofText text) = e at hagree ⊢
  cases hagree with
  | ok => exact .inr ⟨_, _, rfl⟩
  | refused => exact .inl ⟨_, rfl⟩

/-- two comments that are parked before the first case: the second one becomes its last statement, and the case would end
before it starts -/
theorem parse_switch_inverted :
    (parse "switch (x) /*a*/ /*b*/ \x7b case 1: y; \x7d".toList).map (fun _ => ()) = .error (.inverted 25 22) := by
  decide +kernel

/-- what the tokens of a text without comments say, blank lines aside -/
theorem map_said_toList {text : List Char} (hquiet : Quiet text) :
    ((Stream.ofText text).toList.filter (·.kind ≠ .blankLines)).map Token.said =
      (row text).map Token.said ++ if (Stream.ofText text).Stalled then [] else [(Stream.ofText text).eof.said] := by
  have hfilter : (Stream.ofText text).ahead.filter (·.kind ≠ .blankLines) = row text := by
    refine List.filter_congr fun t ht => ?_
    rw [Kind.isTrivia, hquiet t ht, Bool.false_or, beq_eq_decide, decide_not]
  unfold Stream.toList
  split
  · rw [hfilter, List.append_nil]
  · rw [Stream.closed, List.filter_append, hfilter, List.filter_singleton, Stream.eof_ofText]
    simp

/-- only what closes the tokens says that it is the end of the file -/
theorem said_eof_not_mem (text text' : List Char) : (Stream.ofText text).eof.said ∉ (row text').map Token.said := by
  intro hmem
  obtain ⟨t, ht, hsaid⟩ := List.mem_map.1 hmem
  refine Stream.ne_endOfFile_ofText text' t (List.mem_of_mem_filter ht) ?_
  have hkind : t.kind = (Stream.ofText text).eof.kind := congrArg Prod.fst hsaid
  rw [hkind, Stream.eof_ofText]

/-- where a call breaks off the mark says nothing else -/
theorem said_of_stalled {text : List Char} (h : (Stream.ofText text).Stalled) :
    (Stream.ofText text).eof.said = (.endOfFile, [], some .stalled) := by
  obtain ⟨part, rest, -, htext, -⟩ := Stream.eof_span_ofText text
  rw [Token.said, Stream.eof_ofText, htext, h]

/-- **The same tokens but for blank lines**: the same rows of significant tokens, closed in the same way. -/
theorem said_row_eof {text text' : List Char} (hquiet : Quiet text) (hquiet' : Quiet text')
    (h : ((Stream.ofText text).toList.filter (·.kind ≠ .blankLines)).map Token.said =
      ((Stream.ofText text').toList.filter (·.kind ≠ .blankLines)).map Token.said) :
    (row text).map Token.said = (row text').map Token.said ∧
      (Stream.ofText text).eof.said = (Stream.ofText text').eof.said := by
  rw [map_said_toList hquiet, map_said_toList hquiet'] at h
  by_cases hstalled : (Stream.ofText text).Stalled <;> by_cases hstalled' : (Stream.ofText text').Stalled
  · rw [if_pos hstalled, if_pos hstalled', List.append_nil, List.append_nil] at h
    exact ⟨h, (said_of_stalled hstalled).trans (said_of_stalled hstalled').symm⟩
  · rw [if_pos hstalled, if_neg hstalled', List.append_nil] at h
    exact absurd (h ▸ List.mem_append_right _ (List.mem_singleton_self _)) (said_eof_not_mem text' text)
  · rw [if_neg hstalled, if_pos hstalled', List.append_nil] at h
    exact absurd (h ▸ List.mem_append_right _ (List.mem_singleton_self _)) (said_eof_not_mem text text')
  · rw [if_neg hstalled, if_neg hstalled'] at h
    obtain ⟨hrow, heof⟩ := List.append_inj' h rfl
    exact ⟨hrow, by simpa using heof⟩

/-- **The layout of a text does not matter to the grammar.** Let two texts without comments have the same tokens but for
blank lines and for where they stand. Either both are refused for the same cause, and so with the same message, or
both are read to the same tree but for blank lines and for where its nodes stand, or the lexer breaks off in both. -/
theorem parse_layout {text text' : List Char} (hquiet : ∀ t ∈ (Stream.ofText text).toList, t.kind.isComment = false)
    (hquiet' : ∀ t ∈ (Stream.ofText text').toList, t.kind.isComment = false)
    (hsaid : ((Stream.ofText text).toList.filter (·.kind ≠ .blankLines)).map Token.said =
      ((Stream.ofText text').toList.filter (·.kind ≠ .blankLines)).map Token.said) :
    (∃ e e', parse text = .error (.refused e) ∧ parse text' = .error (.refused e') ∧ e.cause = e'.cause) ∨
      (∃ d d', parse text = .ok d ∧ parse text' = .ok d' ∧
        Node.unplacedAll false d.roots = Node.unplacedAll false d'.roots) ∨
      (Stream.ofText text).Stalled ∧ (Stream.ofText text').Stalled ∧
        parse text = .error .stalled ∧ parse text' = .error .stalled := by
  have hahead : Quiet text := fun t ht => hquiet t (Stream.ahead_subset_toList _ ht)
  have hahead' : Quiet text' := fun t ht => hquiet' t (Stream.ahead_subset_toList _ ht)
  obtain ⟨hrow, heof⟩ := said_row_eof hahead hahead' hsaid
  let τ : Twins := ⟨text, text', hahead, hahead', hrow, heof⟩
  have hagree := τ.run_agree
  change Agree _ ((sourceFile (.ofText text)).run (.ofText text)) ((sourceFile (.ofText text')).run (.ofText text')) at hagree
  generalize hrun : (sourceFile (.ofText text)).run (.ofText text) = e at hagree
  generalize hrun' : (sourceFile (.ofText text')).run (.ofText text') = e' at hagree
  cases hagree with
  | @ok roots roots' s s' h =>
    exact .inr (.inl ⟨⟨text, roots⟩, ⟨text', roots'⟩, parseWith_eq_ok_iff.2 ⟨rfl, s, hrun⟩, parseWith_eq_ok_iff.2 ⟨rfl, s', hrun'⟩, h.unplaced⟩)
  | @refused cause span span' =>
    have hparse := parseWith_eq_error_iff.2 ⟨_, hrun, rfl⟩
    have hparse' := parseWith_eq_error_iff.2 ⟨_, hrun', rfl⟩
    by_cases hstalled : cause = .lexical .stalled
    · subst hstalled
      exact .inr (.inr ⟨stalled_of_run hrun rfl, stalled_of_run hrun' rfl, hparse, hparse'⟩)
    · rw [Failure.report_refused hstalled] at hparse hparse'
      exact .inl ⟨_, _, hparse, hparse', rfl⟩

/-- a declaration and a branch, closely written -/
def cramped : List Char := "struct s x;if(a)b;else c;\n".toList

/-- the same with more room -/
def roomy : List Char := "struct\ts\n  x;\n\n\nif (a)\n  b;\n\nelse\n\n  c;\n\n\n".toList

/-- an `else` behind a blank line, and a type on two lines -/
theorem parse_cramped_roomy : ∃ d d', parse cramped = .ok d ∧ parse roomy = .ok d' ∧
    Node.unplacedAll false d.roots = Node.unplacedAll false d'.roots := by
  have hcramped : ∀ t ∈ (Stream.ofText cramped).toList, t.kind.isComment = false := by decide +kernel
  have hroomy : ∀ t ∈ (Stream.ofText roomy).toList, t.kind.isComment = false := by decide +kernel
  have hsaid : ((Stream.ofText cramped).toList.filter (·.kind ≠ .blankLines)).map Token.said =
      ((Stream.ofText roomy).toList.filter (·.kind ≠ .blankLines)).map Token.said := by decide +kernel
  have hparse : (parse cramped).toOption.isSome = true := by decide +kernel
  rcases parse_layout hcramped hroomy hsaid with ⟨e, e', h, -⟩ | h | ⟨-, -, h, -⟩
  · rw [h] at hparse
    cases hparse
  · exact h
  · rw [h] at hparse
    cases hparse

end LpcStyle
