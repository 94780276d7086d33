import Mathlib.Tactic
import LpcStyle.Proofs.Token.Literal

/-!
What may follow a token. A run of blank lines is one token, so no two of them stand next to each other; inside a
preprocessor line there are none at all, and an argument goes on up to the end of its line. Main statements:
- `linked_ofText`: what may follow each token of a text;
- `wordy_ofText`: how its names and blank lines are spelled.
-/

namespace LpcStyle

open Text Pattern

/-- after these tokens a preprocessor line goes on -/
def Kind.opensLine : Kind → Bool
  | .directive | .directiveKey | .directiveArgument | .directiveLineBreak => true
  | _ => false

/-- what may follow a token -/
structure Linked (t u : Token) : Prop where
  blank : t.kind = .blankLines ∨ t.kind.opensLine = true → u.kind ≠ .blankLines
  argument : t.kind = .directiveArgument → u.kind ≠ .directiveArgument

/-- how names and blank lines are spelled -/
structure Token.Wordy (t : Token) : Prop where
  name : t.kind = .name → ∃ c rest, t.text = c :: rest ∧ isLetter c = true
  blank : t.kind = .blankLines → ∀ c ∈ t.text, isBlank c = true

/-! ## Cuts -/

/-- kinds that say nothing about what follows, and need not be names -/
def Kind.isFree : Kind → Bool
  | .blankLines | .name | .directive | .directiveKey | .directiveArgument | .directiveLineBreak => false
  | _ => true

theorem Kind.ne_of_isFree {k : Kind} (h : k.isFree = true) : k ≠ .blankLines ∧ k ≠ .name ∧ k ≠ .directive ∧
    k ≠ .directiveKey ∧ k ≠ .directiveArgument ∧ k ≠ .directiveLineBreak := by
  cases k <;> simp [isFree] at h ⊢

theorem Kind.isFree_of_isPlain {k : Kind} (h : k.isPlain = true) : k.isFree = true := by
  cases k <;> simp [isPlain, isFree] at h ⊢

/-- what a cut outside preprocessor lines takes: no blank lines, and a name starts with a letter -/
structure Cut.Ordinary (cut : Cut) (ahead : List Char) : Prop where
  kind : cut.kind ≠ .blankLines ∧ cut.kind ≠ .directiveKey ∧ cut.kind ≠ .directiveArgument ∧
    cut.kind ≠ .directiveLineBreak
  directive : cut.kind = .directive → cut.mode = .directiveStart
  name : cut.kind = .name → ∃ c rest, ahead.take cut.size = c :: rest ∧ isLetter c = true

namespace Cut.Ordinary

variable {cut : Cut} {ahead : List Char}

theorem free (h : cut.kind.isFree = true) : cut.Ordinary ahead := by
  obtain ⟨hblank, hname, hdirective, hkey, hargument, hbreak⟩ := Kind.ne_of_isFree h
  exact ⟨⟨hblank, hkey, hargument, hbreak⟩, fun h => absurd h hdirective, fun h => absurd h hname⟩

end Cut.Ordinary

namespace Lexer

theorem TokenCase.ordinary {brackets : List Bracket} {ahead : List Char} {cut : Cut} (h : TokenCase brackets ahead cut) :
    cut.Ordinary ahead := by
  cases h with
  | fault => exact .free rfl
  | plain hkind hsize hspelt => exact .free (Kind.isFree_of_isPlain hkind)
  | @letters c after hahead hletter =>
    subst hahead
    rcases Words.classify_cases ((c :: after).take (Pattern.word (c :: after))) with hname | htype | hplain
    · exact ⟨by simp [hname], by simp [hname], fun _ => ⟨c, _, take_word_cons hletter after, hletter⟩⟩
    · exact .free (by simp [htype, Kind.isFree])
    · exact .free (Kind.isFree_of_isPlain hplain)
  | quoted hkind hsize htrimmed => exact .free (by rcases hkind with rfl | rfl <;> rfl)
  | brace hkind hspelt => exact .free (by rcases hkind with rfl | rfl <;> rfl)
  | opening b hsize hspelt => exact .free (by cases b <;> rfl)
  | closing b hopen hsize hspelt => exact .free (by cases b <;> rfl)
  | directive hsize hwithin => exact ⟨by simp, fun _ => rfl, by simp⟩
  | textBlock hmarker => exact .free rfl

theorem argumentEnd_drop (skip : Nat) (text : List Char) : AtArgumentEnd (text.drop (directiveArgument skip text)) := by
  fun_induction directiveArgument skip text with
  | case1 => exact .inl rfl
  | case2 c rest skip ih => rwa [Nat.add_comm, List.drop_succ_cons]
  | case3 c rest h =>
    simp only [Bool.or_eq_true, beq_iff_eq] at h
    rcases h with (rfl | h) | h
    · exact .inr (.inl rfl)
    · exact .inr (.inr (.inl h))
    · exact .inr (.inr (.inr h))
  | case4 c rest _ _ ih => rwa [Nat.add_comm, List.drop_succ_cons]
  | case5 c rest _ _ ih => rwa [Nat.add_comm, List.drop_succ_cons]

/-- nothing that may be skipped stands where an argument ends -/
theorem AtArgumentEnd.run_isGap {rest : List Char} (h : AtArgumentEnd rest) : run isGap rest = 0 := by
  have hslash : isGap '/' = false := by decide
  have hback : isGap '\\' = false := by decide
  have hfeed : isGap '\n' = false := by decide
  obtain rfl | h | h | h := h
  · rfl
  · obtain ⟨tail, rfl⟩ := startsWith_iff.1 h
    simp [run, hfeed]
  · unfold atLineContinuation at h
    split at h
    · simp [run, hback]
    · cases h
  · obtain ⟨tail, rfl⟩ := startsWith_iff.1 h
    simp [run, hslash]

/-- inside a preprocessor line, what is taken and what may come after it -/
structure LineCut (s : Lexer) (cut : Cut) : Prop where
  kind : cut.kind ≠ .blankLines ∧ cut.kind ≠ .name
  mode : cut.kind.opensLine = true → cut.mode = .directive
  argument : cut.kind = .directiveArgument →
    AtArgumentEnd (((s.rest.drop cut.gap).drop cut.size).drop cut.slack) ∧ ¬AtArgumentEnd (s.rest.drop cut.gap)

theorem LineCase.lineCut {s : Lexer} {cut : Cut} (h : LineCase s cut) : LineCut s cut := by
  cases h with
  | bare | lineFeed => exact ⟨by simp, by simp [Kind.opensLine], by simp⟩
  | lineBreak => exact ⟨by simp, by simp, by simp⟩
  | comment hmark =>
    rcases blockCommentCut_kind s.brackets (s.rest.drop (run isGap s.rest)) with h | h <;>
      exact ⟨by simp [h], by simp, by simp [h]⟩
  | @argument n size hn hsize hahead =>
    refine ⟨by simp, by simp, fun _ => ⟨?_, hahead⟩⟩
    -- the blanks trimmed off the end are skipped together with the argument
    have hle : size ≤ n := by
      have htrim : size ≤ ((s.rest.drop (run isGap s.rest)).take n).length := by
        rw [← hsize, trimEnd, dropEndWhile, List.length_reverse]
        exact (List.dropWhile_sublist _).length_le.trans_eq List.length_reverse
      exact htrim.trans (List.length_take_le _ _)
    rw [List.drop_drop, Nat.add_sub_cancel' hle, ← hn]
    exact argumentEnd_drop 0 _

/-- a cut of the rest of a preprocessor line is no blank line and no name -/
theorem cut_line {s : Lexer} (h : s.mode = .directive ∨ s.mode = .directiveStart) :
    s.cut.kind ≠ .blankLines ∧ s.cut.kind ≠ .name := by
  have hcase := s.cut_cases
  generalize s.cut = cut at hcase ⊢
  cases hcase with
  | blankLines hmode | token hmode => simp [hmode] at h
  | line hmode hline => exact hline.lineCut.kind
  | _ => simp [faulty]

/-- after blank lines there is no gap that could hold more of them -/
theorem kind_of_gap {s : Lexer} (hgap : run isGapOrLineFeed s.rest = 0) (hcredit : s.credit = 0) : s.cut.kind ≠ .blankLines := by
  have hcase := s.cut_cases
  generalize s.cut = cut at hcase ⊢
  cases hcase with
  | blankLines hmode hshut hfeeds => simp [hgap, hcredit] at hfeeds
  | token hmode hahead htoken => exact htoken.ordinary.kind.1
  | line hmode hline => exact hline.lineCut.kind.1
  | _ => simp [faulty]

/-- **Where a cut of some kinds leads**: behind blank lines no gap is left, in a preprocessor line the mode says so, and
behind an argument comes what ended it. -/
theorem cut_leads (s : Lexer) :
    (s.cut.kind = .blankLines → s.cut.mode = .file ∧ s.cut.credit = 0 ∧ run isGapOrLineFeed s.step.2.rest = 0) ∧
    (s.cut.kind.opensLine = true → s.cut.mode = .directive ∨ s.cut.mode = .directiveStart) ∧
    (s.cut.kind = .directiveArgument → s.cut.mode = .directive ∧ AtArgumentEnd s.step.2.rest) := by
  simp only [step]
  have hcase := s.cut_cases
  generalize s.cut = cut at hcase ⊢
  cases hcase with
  | blankLines =>
    refine ⟨fun _ => ⟨rfl, rfl, ?_⟩, by simp [Kind.opensLine], by simp⟩
    simp only [List.drop_zero]
    rw [drop_run, run, List.length_eq_zero_iff, List.takeWhile_eq_nil_iff]
    intro hpos
    exact fun h => absurd h (by simpa using List.dropWhile_get_zero_not _ _ hpos)
  | @token _ _ _ _ cut htoken =>
    have hordinary := htoken.ordinary
    refine ⟨fun h => absurd h hordinary.kind.1, fun h => ?_, fun h => absurd h hordinary.kind.2.2.1⟩
    simp only at h
    cases hkind : cut.kind <;> simp [hkind, Kind.opensLine] at h
    · exact .inr (hordinary.directive hkind)
    · exact absurd hkind hordinary.kind.2.1
    · exact absurd hkind hordinary.kind.2.2.1
    · exact absurd hkind hordinary.kind.2.2.2
  | line hmode hline =>
    have hspec := hline.lineCut
    refine ⟨fun h => absurd h hspec.kind.1, fun h => .inl (hspec.mode h), fun h => ⟨hspec.mode (by rw [h]; rfl), ?_⟩⟩
    exact (hspec.argument h).1
  | _ => simp [faulty, Kind.opensLine]

/-- the token after another one -/
theorem linked_step (s : Lexer) : Linked s.step.1 s.step.2.step.1 := by
  obtain ⟨hblank, hopens, hargument⟩ := cut_leads s
  constructor
  · rintro (h | h)
    · obtain ⟨-, hcredit, hgap⟩ := hblank h
      exact kind_of_gap (s := s.step.2) hgap hcredit
    · exact (cut_line (s := s.step.2) (hopens h)).1
  · intro h
    obtain ⟨hmode, hend⟩ := hargument h
    have hline := directiveCut_cases s.step.2
    rw [← cut_of_directive (s := s.step.2) hmode] at hline
    intro hnext
    have hgoes := (hline.lineCut.argument hnext).2
    rw [hline.spec.gap, hend.run_isGap] at hgoes
    exact hgoes hend

/-- the token that comes next is spelled so -/
theorem wordy_step (s : Lexer) : s.step.1.Wordy := by
  suffices h : (s.cut.kind = .name → ∃ c rest, (s.rest.drop s.cut.gap).take s.cut.size = c :: rest ∧ isLetter c = true) ∧
      (s.cut.kind = .blankLines → ∀ c ∈ (s.rest.drop s.cut.gap).take s.cut.size, isBlank c = true) from ⟨h.1, h.2⟩
  have hcase := s.cut_cases
  generalize s.cut = cut at hcase ⊢
  cases hcase with
  | blankLines => exact ⟨by simp, fun _ c hc => isBlank_of_isGapOrLineFeed (of_mem_take_run (by simpa using hc))⟩
  | token hmode hahead htoken =>
    simp only [hahead]
    exact ⟨htoken.ordinary.name, fun h => absurd h htoken.ordinary.kind.1⟩
  | line hmode hline => exact ⟨fun h => absurd h hline.lineCut.kind.2, fun h => absurd h hline.lineCut.kind.1⟩
  | _ => simp [faulty]

end Lexer

namespace Stream

/-- **Blank lines and arguments of preprocessor lines do not follow each other.** -/
theorem linked_ofText (text : List Char) : (ofText text).ahead.IsChain Linked := isChain_ofText Lexer.linked_step text

/-- **Names start with a letter, and blank lines are blank.** -/
theorem wordy_ofText (text : List Char) : ∀ t ∈ (ofText text).ahead, t.Wordy :=
  forall_ofText_of_step (fun s => s.wordy_step) text

end Stream

end LpcStyle
