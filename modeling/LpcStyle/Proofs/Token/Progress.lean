import Mathlib.Tactic
import LpcStyle.Proofs.Token.Outcome

/-!
Reading tokens comes to the end of the text. Every token takes a character or leaves a mode for good, so the measure of
the lexer gets smaller with each. Main statements:
- `measure_step_lt`: a token that is not the end of the file makes the measure smaller;
- `eof_ofText`: the last token of every text is the end of the file.
-/

namespace LpcStyle

open Text Pattern

/-- how many tokens without a character may still come in a mode -/
def Mode.weight : Mode → Nat
  | .file => 0
  | .directiveStart => 2
  | .directive | .textBlock _ | .textBlockEnd _ => 1

/-- an upper bound for the number of tokens to come -/
def Lexer.measure (s : Lexer) : Nat := 2 * s.rest.length + s.mode.weight

/-- a cut that takes enough of the characters ahead to pay for the mode it leads to. A type word goes on as long as it
can -/
structure Cut.Advances (cut : Cut) (ahead : List Char) : Prop where
  kind : cut.kind ≠ .endOfFile
  credit : cut.credit = 0
  slack : cut.slack = 0
  size : 0 < cut.size
  paid : cut.mode.weight + 1 < 2 * cut.size
  within : cut.mode.weight ≠ 0 → cut.size ≤ ahead.length
  apart : cut.kind = .typeWord → ∀ c ∈ (ahead.drop cut.size).head?, isLetterOrDigit c = false

namespace Cut.Advances

/-- back in the file any character will do -/
theorem ofSize {cut : Cut} {ahead : List Char} (kind : cut.kind ≠ .endOfFile ∧ cut.kind ≠ .typeWord)
    (size : 0 < cut.size) (plain : cut.credit = 0 ∧ cut.slack = 0 ∧ cut.mode = .file) : cut.Advances ahead where
  kind := kind.1
  credit := plain.1
  slack := plain.2.1
  size := size
  paid := by
    rw [plain.2.2, Mode.weight]
    omega
  within h := absurd (by rw [plain.2.2, Mode.weight]) h
  apart h := absurd h kind.2

end Cut.Advances

namespace Pattern

theorem word_le (ahead : List Char) : word ahead ≤ ahead.length := by
  unfold word
  split
  · simp
  · split
    · exact (List.takeWhile_sublist _).length_le
    · simp

/-- a marker has an `@` and a name, both within the text -/
theorem textBlockMarker_bounds {ahead : List Char} {ats n : Nat} (h : textBlockMarker ahead = some (ats, n)) :
    0 < ats ∧ 0 < n ∧ ats + n ≤ ahead.length := by
  unfold textBlockMarker at h
  split at h
  · next rest =>
    simp only [Option.ite_none_right_eq_some, Option.some.injEq, Prod.mk.injEq] at h
    have := word_le rest
    simp only [List.length_cons]
    omega
  · next rest _ =>
    simp only [Option.ite_none_right_eq_some, Option.some.injEq, Prod.mk.injEq] at h
    have := word_le rest
    simp only [List.length_cons]
    omega
  · cases h

end Pattern

namespace Lexer

/-- **A token takes a character**, and more if it leads to another mode. -/
theorem TokenCase.advances {brackets : List Bracket} {ahead : List Char} {cut : Cut} (h : TokenCase brackets ahead cut) :
    cut.Advances ahead := by
  cases h with
  | fault fault hsize => exact .ofSize (by simp [faulty]) hsize ⟨rfl, rfl, rfl⟩
  | plain hkind hsize hspelt =>
    exact .ofSize ⟨Kind.ne_of_isPlain hkind rfl, Kind.ne_of_isPlain hkind rfl⟩ hsize ⟨rfl, rfl, rfl⟩
  | @letters c after hahead hletter =>
    subst hahead
    have hpos := word_pos hletter after
    refine ⟨?_, rfl, rfl, hpos, by simp only [Mode.weight]; omega, by simp [Mode.weight], fun _ d hd => ?_⟩
    · rcases Words.classify_cases ((c :: after).take (word (c :: after))) with hname | htype | hplain
      · simp [hname]
      · simp [htype]
      · exact Kind.ne_of_isPlain hplain rfl
    · rw [show word (c :: after) = run isLetterOrDigit (c :: after) from word_cons hletter after] at hd
      exact run_maximal hd
  | quoted hkind hsize htrimmed => exact .ofSize (by rcases hkind with rfl | rfl <;> simp) hsize ⟨rfl, rfl, rfl⟩
  | brace hkind hspelt => exact .ofSize (by rcases hkind with rfl | rfl <;> simp) Nat.one_pos ⟨rfl, rfl, rfl⟩
  | opening b hsize hspelt => exact .ofSize (by cases b <;> simp [Bracket.opener]) hsize ⟨rfl, rfl, rfl⟩
  | closing b hopen hsize hspelt => exact .ofSize (by cases b <;> simp [Bracket.closer]) hsize ⟨rfl, rfl, rfl⟩
  | directive hsize hwithin =>
    exact ⟨by simp, rfl, rfl, by simp only; omega, by simp only [Mode.weight]; omega, fun _ => hwithin, by simp⟩
  -- the marker of a text block pays for its body
  | textBlock hmarker =>
    obtain ⟨hats, hn, hlength⟩ := textBlockMarker_bounds hmarker
    exact ⟨by simp, rfl, rfl, by simp only; omega, by simp only [Mode.weight]; omega, fun _ => hlength, by simp⟩

/-! ## Steps -/

theorem measure_step (s : Lexer) : s.step.2.measure =
    2 * (s.rest.length - s.cut.gap - s.cut.size - s.cut.slack) + s.cut.mode.weight := by
  simp [measure, step, Nat.sub_sub]

/-- the directive before accounts for one line feed only, so blank lines take another -/
theorem gap_pos_of_lines {s : Lexer} (hcredit : s.credit ≤ 1)
    (hlines : 1 < (s.rest.take (run isGapOrLineFeed s.rest)).count '\n' + s.credit) :
    0 < run isGapOrLineFeed s.rest ∧ 0 < s.rest.length := by
  have hcount : 0 < (s.rest.take (run isGapOrLineFeed s.rest)).count '\n' := by omega
  have hlength := Nat.lt_of_lt_of_le hcount List.count_le_length
  simpa only [List.length_take, Nat.lt_min] using hlength

/-- what a cut does inside a directive: it ends the line, or takes a character of it -/
structure DirectiveCut (s : Lexer) (cut : Cut) : Prop where
  kind : cut.kind ≠ .endOfFile ∧ cut.kind ≠ .typeWord
  spells : cut.Spells (s.rest.drop cut.gap)
  gap : cut.gap = run isGap s.rest
  credit : cut.credit ≤ 1
  slack : ∀ c ∈ ((s.rest.drop cut.gap).drop cut.size).take cut.slack, isBlank c = true
  mode : cut.mode = .file ∨ cut.mode = .directive ∧ cut.gap < s.rest.length ∧ 0 < cut.size + cut.slack
  takes : s.rest ≠ [] → 0 < cut.gap + cut.size + cut.slack

/-- what trimming takes off the end of a text is blank -/
theorem drop_trimEnd_blank (text : List Char) : ∀ c ∈ text.drop (trimEnd text).length, isBlank c = true := by
  have hsplit : text = trimEnd text ++ (text.reverse.takeWhile isBlank).reverse := by
    rw [trimEnd, dropEndWhile, ← List.reverse_append, List.takeWhile_append_dropWhile, List.reverse_reverse]
  intro c hc
  rw [hsplit, List.drop_left' (by rw [← hsplit]), List.mem_reverse] at hc
  exact List.all_eq_true.1 List.all_takeWhile c hc

theorem directiveArgument_pos {ahead : List Char} (h : ¬AtArgumentEnd ahead) : 0 < directiveArgument 0 ahead := by
  obtain _ | ⟨c, after⟩ := ahead
  · exact absurd (.inl rfl) h
  have hfeed : ¬(c == '\n') = true := fun hfeed => h (.inr (.inl (startsWith_iff.2 ⟨after, by rw [beq_iff_eq.1 hfeed]; rfl⟩)))
  have hbreak : ¬atLineContinuation (c :: after) = true := fun hbreak => h (.inr (.inr (.inl hbreak)))
  have hmark : ¬startsWith "/*".toList (c :: after) = true := fun hmark => h (.inr (.inr (.inr hmark)))
  simp only [directiveArgument, hfeed, hbreak, hmark, Bool.or_false, if_false, Bool.false_eq_true]
  split <;> omega

theorem LineCase.spec {s : Lexer} {cut : Cut} (h : LineCase s cut) : DirectiveCut s cut := by
  have hwithin (hne : s.rest.drop (run isGap s.rest) ≠ []) : run isGap s.rest < s.rest.length :=
    Nat.lt_of_not_le fun hle => hne (List.drop_eq_nil_iff.2 hle)
  cases h with
  | bare hahead =>
    refine ⟨by simp, by simp [Cut.Spells], rfl, by simp, by simp, .inl rfl, fun hrest => ?_⟩
    -- nothing is left behind the gap, so all the rest is in it
    have hlength := List.length_pos_iff.2 hrest
    have hgap := List.drop_eq_nil_iff.1 hahead
    simp only
    omega
  | lineFeed hahead => exact ⟨by simp, by simp [Cut.Spells], rfl, by simp, by simp, .inl rfl, by simp⟩
  | lineBreak hsize hahead =>
    refine ⟨by simp, by simp [Cut.Spells], rfl, by simp, by simp, .inr ⟨rfl, hwithin hahead, ?_⟩, fun _ => ?_⟩ <;>
      simp only <;> omega
  | comment hmark =>
    have hcomment := (blockCommentCut_cases s.brackets _ hmark).advances
    have htype : (blockCommentCut s.brackets (s.rest.drop (run isGap s.rest))).kind ≠ .typeWord := by
      rcases blockCommentCut_kind s.brackets (s.rest.drop (run isGap s.rest)) with h | h <;> simp [h]
    obtain ⟨rest, hahead⟩ := startsWith_iff.1 hmark
    have hgap := hwithin (by simp [hahead])
    have hsize := hcomment.size
    refine ⟨⟨hcomment.kind, htype⟩, blockCommentCut_spells _ _ hmark, rfl, by simp [hcomment.credit], by simp [hcomment.slack],
      .inr ⟨rfl, hgap, ?_⟩, fun _ => ?_⟩ <;> simp only <;> omega
  | argument hn hsize hahead =>
    have hpos := directiveArgument_pos hahead
    have hgap := hwithin fun hnil => hahead (.inl hnil)
    refine ⟨by simp, by simp [Cut.Spells], rfl, by simp, fun d hd => ?_, .inr ⟨rfl, hgap, ?_⟩, fun _ => ?_⟩
    · subst hn hsize
      simp only [← List.drop_take] at hd
      exact drop_trimEnd_blank _ d hd
    all_goals
      simp only
      omega

theorem directiveCut_spec (s : Lexer) : DirectiveCut s s.directiveCut := (directiveCut_cases s).spec

/-- a text block has no body in an empty text -/
theorem textBlockBody_nil (marker : List Char) : textBlockBody marker [] = none := by
  simp [textBlockBody, find, dropFront?, startsWith]

/-- **A token makes the measure smaller**, unless it is the end of the file. -/
theorem measure_step_lt {s : Lexer} (hcredit : s.credit ≤ 1) (h : s.step.1.kind ≠ .endOfFile) :
    s.step.2.measure < s.measure := by
  rw [measure_step, measure]
  change s.cut.kind ≠ .endOfFile at h
  have hcase := s.cut_cases
  generalize s.cut = cut at h hcase ⊢
  cases hcase with
  | blankLines hmode hshut hfeeds =>
    obtain ⟨hgap, hlength⟩ := gap_pos_of_lines hcredit hfeeds
    simp only [hmode, Mode.weight]
    omega
  | endOfFile => exact absurd rfl h
  | token hmode hahead htoken =>
    have hlength := congrArg List.length hahead
    have := htoken.advances.size
    have := htoken.advances.paid
    have := htoken.advances.within
    simp only [List.length_drop, hmode, Mode.weight, List.length_cons] at *
    omega
  | key hmode size =>
    simp only [hmode, Mode.weight]
    omega
  | line hmode hline =>
    have hweight : 0 < s.mode.weight := by rcases hmode with hmode | hmode <;> simp [hmode, Mode.weight]
    rcases hline.spec.mode with hfile | ⟨hdirective, hgap, htaken⟩
    · have hafter : cut.mode.weight = 0 := by rw [hfile, Mode.weight]
      omega
    · have hafter : cut.mode.weight = 1 := by rw [hdirective, Mode.weight]
      omega
  | body hmode hbody =>
    have hrest : s.rest ≠ [] := by
      intro hnil
      rw [hnil, textBlockBody_nil] at hbody
      cases hbody
    have hlength := List.length_pos_iff.2 hrest
    obtain ⟨n, -, rfl⟩ := Option.map_eq_some_iff.1 hbody
    simp only [hmode, Mode.weight]
    omega
  | unclosed hmode =>
    simp only [faulty, hmode, Mode.weight]
    omega
  | marker hmode =>
    simp only [hmode, Mode.weight]
    omega

theorem credit_step_le (s : Lexer) : s.step.2.credit ≤ 1 := by
  change s.cut.credit ≤ 1
  have hcase := s.cut_cases
  generalize s.cut = cut at hcase ⊢
  cases hcase with
  | token hmode hahead htoken => simp [htoken.advances.credit]
  | line hmode hline => exact hline.spec.credit
  | unclosed => simp [faulty]
  | _ => simp

end Lexer

namespace Stream

theorem eof_read {fuel : Nat} {s : Lexer} (hcredit : s.credit ≤ 1) (hfuel : s.measure ≤ fuel) :
    (read fuel s).eof.kind = .endOfFile := by
  induction fuel generalizing s with
  | zero =>
    by_contra h
    have hissue := Lexer.issue_of_ne h
    have := Lexer.measure_step_lt hcredit (hissue ▸ h)
    omega
  | succ fuel ih =>
    simp only [read]
    split
    · next h => exact h
    · next h =>
      have hissue := Lexer.issue_of_ne h
      have := Lexer.measure_step_lt hcredit (hissue ▸ h)
      rw [hissue]
      exact ih (Lexer.credit_step_le s) (by omega)

/-- **Reading a text comes to its end**: behind the last token stands the end of the file, or the mark of a call that breaks
off. -/
theorem eof_ofText (text : List Char) : (ofText text).eof.kind = .endOfFile := by
  unfold ofText
  exact eof_read (Nat.zero_le 1) (Nat.le_succ _)

/-- what a call says of its token and of the lexer behind it holds of all tokens that are read -/
theorem forall_read {P : Lexer → Prop} {Q : Token → Prop} (hstep : ∀ s : Lexer, P s → Q s.step.1 ∧ P s.step.2) {fuel : Nat}
    {s : Lexer} (h : P s) : ∀ t ∈ (read fuel s).ahead, Q t := by
  induction fuel generalizing s with
  | zero => simp [read]
  | succ fuel ih =>
    simp only [read]
    split
    · simp
    · next hkind =>
      rw [Lexer.issue_of_ne hkind]
      exact List.forall_mem_cons.2 ⟨(hstep s h).1, ih (hstep s h).2⟩

/-- what holds of the tokens of two calls in a row holds of every token that is read and the next one -/
theorem isChain_read {R : Token → Token → Prop} (hstep : ∀ s : Lexer, R s.step.1 s.step.2.step.1) (fuel : Nat) (s : Lexer) :
    (read fuel s).ahead.IsChain R := by
  have hall : (∀ t ∈ (read fuel s).ahead.head?, t = s.step.1) ∧ (read fuel s).ahead.IsChain R := by
    induction fuel generalizing s with
    | zero => simp [read]
    | succ fuel ih =>
      simp only [read]
      split
      · simp
      · next hkind =>
        rw [Lexer.issue_of_ne hkind]
        obtain ⟨hhead, hchain⟩ := ih s.step.2
        exact ⟨by simp, List.isChain_cons.2 ⟨fun t ht => hhead t ht ▸ hstep s, hchain⟩⟩
  exact hall.2

/-- **What a call says of its token and of the lexer behind it** holds of all tokens of a text. -/
theorem forall_ofText {P : Lexer → Prop} {Q : Token → Prop} (hstep : ∀ s : Lexer, P s → Q s.step.1 ∧ P s.step.2)
    {text : List Char} (h : P { rest := text }) : ∀ t ∈ (ofText text).ahead, Q t := by
  unfold ofText
  exact forall_read hstep h

/-- what every call says of its token holds of all tokens of a text -/
theorem forall_ofText_of_step {Q : Token → Prop} (hstep : ∀ s : Lexer, Q s.step.1) (text : List Char) :
    ∀ t ∈ (ofText text).ahead, Q t :=
  forall_ofText (P := fun _ => True) (fun s _ => ⟨hstep s, trivial⟩) trivial

/-- **What holds of the tokens of two calls in a row** holds of every token of a text and the next one. -/
theorem isChain_ofText {R : Token → Token → Prop} (hstep : ∀ s : Lexer, R s.step.1 s.step.2.step.1) (text : List Char) :
    (ofText text).ahead.IsChain R := by
  unfold ofText
  exact isChain_read hstep _ _

theorem ne_endOfFile_read (fuel : Nat) (s : Lexer) : ∀ t ∈ (read fuel s).ahead, t.kind ≠ .endOfFile := by
  induction fuel generalizing s with
  | zero => simp [read]
  | succ fuel ih =>
    simp only [read]
    split
    · simp
    · next hkind => exact List.forall_mem_cons.2 ⟨hkind, ih _⟩

/-- the end of the file comes last only -/
theorem ne_endOfFile_ofText (text : List Char) : ∀ t ∈ (ofText text).ahead, t.kind ≠ .endOfFile := by
  unfold ofText
  exact ne_endOfFile_read _ _

end Stream

end LpcStyle
