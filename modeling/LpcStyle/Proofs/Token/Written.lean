import Mathlib.Tactic
import LpcStyle.Proofs.Token.Spelling
import LpcStyle.Token.Stream

/-!
Texts that are written token by token. A token that what follows cannot extend is cut off whole, so a text that is put
together of such tokens is taken apart into them again. Parentheses may be open on the way, and where none is, blank lines
are tokens as well. Main statement: `ofText_written`.
-/

namespace LpcStyle

open Text Pattern

/-- what a token says without its place -/
def Token.spelling (t : Token) : Kind × List Char := (t.kind, t.text)

/-- blanks between two tokens, without a blank line among them -/
structure Gap (gap : List Char) : Prop where
  blank : ∀ c ∈ gap, isGapOrLineFeed c = true
  oneLineFeed : gap.count '\n' ≤ 1

theorem gap_nil : Gap [] := ⟨by simp, by simp⟩

/-- blanks between two tokens, with a blank line among them -/
structure BlankGap (gap : List Char) : Prop where
  blank : ∀ c ∈ gap, isGapOrLineFeed c = true
  lineFeeds : 1 < gap.count '\n'

namespace Lexer

/-- in a file, where so many parentheses are open and nothing else is -/
structure Idle (s : Lexer) (depth : Nat) : Prop where
  mode : s.mode = .file
  brackets : s.brackets = List.replicate depth .paren
  credit : s.credit = 0
  last : s.last ≠ .foreachWord

variable {s : Lexer} {depth : Nat} {gap rest : List Char}

theorem run_gap (hgap : ∀ c ∈ gap, isGapOrLineFeed c = true)
    (hrest : ∀ c ∈ rest.head?, isGapOrLineFeed c = false) : run isGapOrLineFeed (gap ++ rest) = gap.length := by
  rw [run, List.takeWhile_append_of_pos hgap]
  cases rest with
  | nil => simp
  | cons c rest => simp [hrest c rfl]

/-- behind a gap comes the end of the file or a token -/
theorem cut_gap (hs : s.Idle depth) (hgap : Gap gap) (hsplit : s.rest = gap ++ rest)
    (hrest : ∀ c ∈ rest.head?, isGapOrLineFeed c = false) :
    (rest = [] → depth = 0 → s.cut = { kind := .endOfFile, gap := gap.length, size := 0, brackets := [] }) ∧
      ∀ c after, rest = c :: after → s.cut =
        { tokenCut { s with fresh := lineStartAfter s.fresh gap } c after with gap := gap.length } := by
  have hfew : ¬(1 < gap.count '\n' + 0) := by simpa using hgap.oneLineFeed
  rw [cut, hs.mode]
  simp only [fileCut, hsplit, run_gap hgap.blank hrest, List.take_left', List.drop_left', hs.credit, hfew, decide_false,
    Bool.false_and, Bool.false_eq_true, if_false]
  constructor
  · rintro rfl rfl
    simp [hs.brackets]
  · rintro c after rfl
    rw [hs.mode]

/-- blank lines where no parenthesis is open, and not at the start of the text -/
theorem cut_blankGap (hs : s.Idle 0) (hgap : BlankGap gap) (hsplit : s.rest = gap ++ rest)
    (hrest : ∀ c ∈ rest.head?, isGapOrLineFeed c = false) (hoffset : s.offset ≠ 0) :
    s.cut = { kind := .blankLines, size := gap.length, brackets := [] } := by
  rw [cut, hs.mode]
  simp [fileCut, hsplit, run_gap hgap.blank hrest, hs.credit, hs.brackets, hgap.lineFeeds, hoffset]

end Lexer

/-- before the rest, the text is cut off as one token, whatever was read before it. So many parentheses are open before it
and after it -/
structure CutsOff (depth later : Nat) (kind : Kind) (text rest : List Char) : Prop where
  notEnd : kind ≠ .endOfFile
  notLoop : kind ≠ .foreachWord
  starts : ∃ c after, text = c :: after ∧ isGapOrLineFeed c = false ∧ ∀ s : Lexer, s.Idle depth →
    s.tokenCut c (after ++ rest) = { kind, size := text.length, brackets := List.replicate later .paren }

/-- the tokens make up the text, with gaps before them and after the last -/
inductive Written : Nat → List (Kind × List Char) → List Char → Prop where
  | done {gap : List Char} (hgap : Gap gap) : Written 0 [] gap
  | token {depth later : Nat} {gap text rest : List Char} {kind : Kind} {ts : List (Kind × List Char)} (hgap : Gap gap)
      (htext : CutsOff depth later kind text rest) (hrest : Written later ts rest) :
      Written depth ((kind, text) :: ts) (gap ++ text ++ rest)
  | blank {gap rest : List Char} {ts : List (Kind × List Char)} (hgap : BlankGap gap)
      (hstart : ∀ c ∈ rest.head?, isGapOrLineFeed c = false) (hrest : Written 0 ts rest) :
      Written 0 ((.blankLines, gap) :: ts) (gap ++ rest)

namespace Lexer

variable {s : Lexer} {depth later : Nat} {gap text rest : List Char} {kind : Kind}

/-- a token that is cut off leaves the rest -/
theorem step_token (hs : s.Idle depth) (hgap : Gap gap) (htext : CutsOff depth later kind text rest)
    (hsplit : s.rest = gap ++ text ++ rest) : s.step.1.spelling = (kind, text) ∧ s.step.1.fault = none ∧
      s.step.2.Idle later ∧ s.step.2.rest = rest := by
  obtain ⟨c, after, rfl, hc, hcut⟩ := htext.starts
  have hwhole : s.cut =
      { kind, gap := gap.length, size := (c :: after).length, brackets := List.replicate later .paren } := by
    have hnext := (cut_gap hs hgap (hsplit.trans (List.append_assoc _ _ _)) (by simpa using hc)).2
    have hidle : Idle { s with fresh := lineStartAfter s.fresh gap } depth := ⟨hs.mode, hs.brackets, hs.credit, hs.last⟩
    rw [hnext c (after ++ rest) rfl, hcut _ hidle]
  have hlast : s.step.2.last ≠ .foreachWord := by
    simp only [step, hwhole]
    split
    · exact hs.last
    · exact htext.notLoop
  refine ⟨?_, ?_, ⟨?_, ?_, ?_, hlast⟩, ?_⟩ <;>
    simp only [step, hwhole, hsplit, List.append_assoc, List.drop_left', List.take_left', Token.spelling, List.drop_zero]

/-- and so do blank lines -/
theorem step_blankGap (hs : s.Idle 0) (hgap : BlankGap gap) (hsplit : s.rest = gap ++ rest)
    (hrest : ∀ c ∈ rest.head?, isGapOrLineFeed c = false) (hoffset : s.offset ≠ 0) :
    s.step.1.spelling = (.blankLines, gap) ∧ s.step.1.fault = none ∧ s.step.2.Idle 0 ∧ s.step.2.rest = rest := by
  have hcut := cut_blankGap hs hgap hsplit hrest hoffset
  have hlast : s.step.2.last ≠ .foreachWord := by
    simp only [step, hcut]
    exact hs.last
  refine ⟨?_, ?_, ⟨?_, ?_, ?_, hlast⟩, ?_⟩ <;>
    simp [step, hcut, hsplit, Token.spelling]

/-- a gap at the end leaves nothing to be read -/
theorem step_end (hs : s.Idle 0) (hgap : Gap s.rest) : s.step.1.kind = .endOfFile ∧ s.step.1.fault = none ∧ s.Advances := by
  have hcut := (cut_gap hs hgap (List.append_nil _).symm (by simp)).1 rfl rfl
  refine ⟨?_, ?_, .inr ?_⟩ <;> simp [step, hcut]

end Lexer

namespace Stream

theorem read_written {fuel depth : Nat} {s : Lexer} {ts : List (Kind × List Char)} {text : List Char}
    (h : Written depth ts text) (hs : s.Idle depth) (hrest : s.rest = text) (hfuel : text.length < fuel)
    (hfirst : ∀ t ∈ ts.head?, t.1 = .blankLines → s.offset ≠ 0) :
    (read fuel s).ahead.map Token.spelling = ts ∧ (∀ t ∈ (read fuel s).ahead, t.fault = none) ∧
      (read fuel s).eof.fault = none := by
  -- a token that leaves the rest is the first one, and the others are those of the rest
  have hcons {fuel : Nat} {s : Lexer} {kind : Kind} {text : List Char} {ts : List (Kind × List Char)}
      (hspelling : s.step.1.spelling = (kind, text)) (hkind : kind ≠ .endOfFile) (hfault : s.step.1.fault = none)
      (htaken : s.step.1.text ≠ [])
      (h : (read fuel s.step.2).ahead.map Token.spelling = ts ∧ (∀ t ∈ (read fuel s.step.2).ahead, t.fault = none) ∧
        (read fuel s.step.2).eof.fault = none) :
      (read (fuel + 1) s).ahead.map Token.spelling = (kind, text) :: ts ∧ (∀ t ∈ (read (fuel + 1) s).ahead, t.fault = none) ∧
        (read (fuel + 1) s).eof.fault = none := by
    have hend : ¬s.step.1.kind = .endOfFile := by rwa [(Prod.mk.inj hspelling).1]
    obtain ⟨hlater, hfaults, heof⟩ := h
    simp only [read, Lexer.issue_of_advances (.inl (Lexer.offset_lt_of_text htaken)), hend, if_false]
    exact ⟨by rw [List.map_cons, hspelling, hlater], List.forall_mem_cons.2 ⟨hfault, hfaults⟩, heof⟩
  induction h generalizing fuel s with
  | @done gap hgap =>
    subst hrest
    obtain ⟨hkind, hfault, hadvances⟩ := Lexer.step_end hs hgap
    cases fuel with
    | zero => exact ⟨rfl, by simp [read], by simp [read, Lexer.issue_of_advances hadvances, hfault]⟩
    | succ fuel => simp [read, Lexer.issue_of_advances hadvances, hkind, hfault]
  | @token depth later gap text rest kind ts hgap htext hrest' ih =>
    obtain ⟨hspelling, hfault, hidle, hnext⟩ := Lexer.step_token hs hgap htext hrest
    obtain ⟨c, after, rfl, -⟩ := htext.starts
    cases fuel with
    | zero => simp at hfuel
    | succ fuel =>
      have htaken : s.step.1.text ≠ [] := by simp [(Prod.mk.inj hspelling).2]
      refine hcons hspelling htext.notEnd hfault htaken (ih hidle hnext ?_ fun _ _ _ => Nat.ne_zero_of_lt (Lexer.offset_lt_of_text htaken))
      simp at hfuel
      omega
  | @blank gap rest ts hgap hstart hrest' ih =>
    obtain ⟨hspelling, hfault, hidle, hnext⟩ := Lexer.step_blankGap hs hgap hrest hstart (hfirst _ rfl rfl)
    have hne : gap ≠ [] := by
      rintro rfl
      exact absurd hgap.lineFeeds (by simp)
    cases fuel with
    | zero => simp at hfuel
    | succ fuel =>
      have htaken : s.step.1.text ≠ [] := by simpa [(Prod.mk.inj hspelling).2] using hne
      refine hcons hspelling (by simp) hfault htaken (ih hidle hnext ?_ fun _ _ _ => Nat.ne_zero_of_lt (Lexer.offset_lt_of_text htaken))
      have := List.length_pos_of_ne_nil hne
      simp at hfuel
      omega

/-- **A text that is written token by token has these tokens**, without a fault. Blank lines at its start would be none. -/
theorem ofText_written {ts : List (Kind × List Char)} {text : List Char} (h : Written 0 ts text)
    (hfirst : ∀ t ∈ ts.head?, t.1 ≠ .blankLines) :
    (ofText text).ahead.map Token.spelling = ts ∧ (∀ t ∈ (ofText text).ahead, t.fault = none) ∧
      (ofText text).eof.fault = none := by
  unfold ofText
  exact read_written h ⟨rfl, rfl, rfl, by simp⟩ rfl (by omega) fun t ht hblank => absurd hblank (hfirst t ht)

end Stream

end LpcStyle
