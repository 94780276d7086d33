import Mathlib.Tactic
import LpcStyle.Proofs.Token.Linked
import LpcStyle.Proofs.Token.Pairing

/-!
Where blank lines are tokens. Line feeds between two tokens are counted together, but not all are in one place: a
directive's end takes the first one and hands it on to the call after it as a credit, and an argument may leave one behind
that it has trimmed off. So the count is followed from call to call: what a call passes over, what it hands on, and what the
next one skips. Main statement: `blankLines_stand`.
-/

namespace LpcStyle

open Text Pattern

/-! ## Line feeds in an argument -/

/-- a line feed stands behind a backslash -/
def Protected (b c : Char) : Prop := c = '\n' → b = '\\'

theorem protected_of_ne {b c : Char} (h : c ≠ '\n') : Protected b c := fun hc => absurd hc h

namespace Pattern

/-- a string of an argument goes on over protected line feeds only -/
theorem isChain_directiveString (rest : List Char) (b : Char) :
    (b :: rest.take (directiveString rest)).IsChain Protected := by
  fun_induction directiveString rest generalizing b with
  | case1 => exact .singleton b
  | case2 c rest hquote =>
    obtain rfl := beq_iff_eq.1 hquote
    exact .cons_cons (protected_of_ne (by decide)) (.singleton _)
  | case3 => exact .singleton b
  | case4 c hquote hfeed hslash =>
    obtain rfl := beq_iff_eq.1 hslash
    exact .cons_cons (protected_of_ne (by decide)) (.singleton _)
  | case5 c hquote hfeed hslash d rest ih =>
    obtain rfl := beq_iff_eq.1 hslash
    rw [Nat.add_comm, List.take_succ_cons, List.take_succ_cons]
    exact .cons_cons (protected_of_ne (by decide)) (.cons_cons (fun _ => rfl) (ih d))
  | case6 c rest hquote hfeed hslash ih =>
    rw [Nat.add_comm, List.take_succ_cons]
    exact .cons_cons (protected_of_ne (by simpa using hfeed)) (ih c)

/-- so does the whole argument -/
theorem isChain_directiveArgument (skip : Nat) (text : List Char) (b : Char)
    (h : (b :: text.take skip).IsChain Protected) : (b :: text.take (directiveArgument skip text)).IsChain Protected := by
  fun_induction directiveArgument skip text generalizing b with
  | case1 => exact .singleton b
  | case2 c rest skip ih =>
    rw [List.take_succ_cons, List.isChain_cons_cons] at h
    rw [Nat.add_comm, List.take_succ_cons]
    exact .cons_cons h.1 (ih c h.2)
  | case3 => exact .singleton b
  | case4 c rest hgoes hquote ih =>
    obtain rfl := beq_iff_eq.1 hquote
    rw [Nat.add_comm, List.take_succ_cons]
    exact .cons_cons (protected_of_ne (by decide)) (ih _ (isChain_directiveString rest _))
  | case5 c rest hgoes hquote ih =>
    have hfeed : c ≠ '\n' := by
      rintro rfl
      exact hgoes (by simp)
    rw [Nat.add_comm, List.take_succ_cons]
    exact .cons_cons (protected_of_ne hfeed) (ih c (.singleton c))

end Pattern

/-- nothing protects a line feed among blanks -/
theorem lineFeed_not_mem_blanks {b : Char} {blanks : List Char} (h : (b :: blanks).IsChain Protected)
    (hblank : ∀ c ∈ b :: blanks, isBlank c = true) : '\n' ∉ blanks := by
  induction blanks generalizing b with
  | nil => simp
  | cons c blanks ih =>
    obtain ⟨hfirst, hrest⟩ := List.isChain_cons_cons.1 h
    obtain ⟨hb, hblanks⟩ := List.forall_mem_cons.1 hblank
    rw [List.mem_cons, not_or]
    refine ⟨fun hc => ?_, ih hrest hblanks⟩
    rw [hfirst hc.symm] at hb
    exact absurd hb (by decide)

/-- so only the first of them may be one -/
theorem count_lineFeed_le {blanks : List Char} (h : blanks.IsChain Protected) (hblank : ∀ c ∈ blanks, isBlank c = true) :
    blanks.count '\n' ≤ 1 := by
  cases blanks with
  | nil => simp
  | cons b blanks =>
    rw [List.count_cons, List.count_eq_zero.2 (lineFeed_not_mem_blanks h hblank)]
    split <;> omega

/-! ## Cuts -/

/-- the end of a directive that took the line feed of its line -/
def Token.takesLineFeed (t : Token) : Bool := t.kind == .directiveEnd && t.text == ['\n']

/-- line feeds that a token took of those behind it -/
def Token.credit (t : Token) : Nat := if t.takesLineFeed then 1 else 0

namespace Lexer

variable {s : Lexer}

/-- the blanks that a file goes on with -/
def blanksAhead (s : Lexer) : List Char := s.rest.take (run isGapOrLineFeed s.rest)

/-- **Where a file goes on with blank lines**: two line feeds come, one of which a directive may have taken, no bracket is
open, and something was read before. -/
theorem fileCut_blankLines_iff (s : Lexer) : s.fileCut.kind = .blankLines ↔
    1 < s.blanksAhead.count '\n' + s.credit ∧ s.brackets = [] ∧ s.offset ≠ 0 := by
  unfold fileCut
  dsimp only
  split
  · next h =>
    simp only [Bool.and_eq_true, decide_eq_true_eq, List.isEmpty_iff, bne_iff_ne] at h
    exact iff_of_true rfl ⟨h.1.1, h.1.2, h.2⟩
  · next h =>
    simp only [Bool.and_eq_true, decide_eq_true_eq, List.isEmpty_iff, bne_iff_ne, and_assoc] at h
    refine iff_of_false ?_ h
    split
    · simp
    · next c after _ => exact (tokenCut_cases after { s with fresh := lineStartAfter s.fresh _ } c).ordinary.kind.1

/-- what a cut hands on to the call after it -/
structure HandsOn (s : Lexer) (cut : Cut) : Prop where
  credit : cut.credit =
    if cut.kind = .directiveEnd ∧ (s.rest.drop cut.gap).take cut.size = ['\n'] then 1 else 0
  file : cut.mode = .file → cut.slack = 0
  line : cut.mode ≠ .file → cut.credit = 0 ∧ (((s.rest.drop cut.gap).drop cut.size).take cut.slack).count '\n' ≤ 1

theorem HandsOn.plain {cut : Cut} (hkind : cut.kind ≠ .directiveEnd) (hcredit : cut.credit = 0) (hslack : cut.slack = 0) :
    s.HandsOn cut where
  credit := by rw [hcredit, if_neg fun h => hkind h.1]
  file _ := hslack
  line _ := ⟨hcredit, by simp [hslack]⟩

theorem LineCase.handsOn {cut : Cut} (h : LineCase s cut) : s.HandsOn cut := by
  cases h with
  | bare => exact ⟨by simp, fun _ => rfl, fun h => absurd rfl h⟩
  | lineFeed hahead => exact ⟨by simp [hahead], fun _ => rfl, fun h => absurd rfl h⟩
  | lineBreak => exact .plain (by simp) rfl rfl
  | comment hmark =>
    have hcomment := (blockCommentCut_cases s.brackets _ hmark).advances
    refine .plain ?_ hcomment.credit hcomment.slack
    rcases blockCommentCut_kind s.brackets (s.rest.drop (run isGap s.rest)) with h | h <;> simp [h]
  | argument hn hsize hahead =>
    subst hn hsize
    refine ⟨by simp, by simp, fun _ => ⟨rfl, ?_⟩⟩
    -- what is trimmed off an argument is the end of what was read as one
    have hchain := isChain_directiveArgument 0 (s.rest.drop (run isGap s.rest)) ' ' (.singleton ' ')
    have hblank := drop_trimEnd_blank ((s.rest.drop (run isGap s.rest)).take (directiveArgument 0 (s.rest.drop (run isGap s.rest))))
    simp only [← List.drop_take]
    exact count_lineFeed_le ((List.isChain_cons.1 hchain).2.drop _) hblank

/-- **What a call hands on**: a credit for the line feed that a directive's end took; back in the file nothing is passed over,
and anywhere else one line feed at most. -/
theorem cut_handsOn (s : Lexer) : s.HandsOn s.cut := by
  have hcase := s.cut_cases
  generalize s.cut = cut at hcase ⊢
  cases hcase with
  | @token hmode c after hahead cut htoken =>
    have hadvances := htoken.advances
    refine ⟨?_, fun _ => hadvances.slack, fun _ => ⟨hadvances.credit, by simp [hadvances.slack]⟩⟩
    -- the blanks before the token hold every line feed, so it does not start with one
    have hfeed : c ≠ '\n' := by
      rintro rfl
      have hstop : isGapOrLineFeed '\n' = false := run_maximal (by rw [hahead]; rfl)
      exact absurd hstop (by decide)
    have htext : (c :: after).take cut.size ≠ ['\n'] := by
      rw [← Nat.succ_pred_eq_of_pos hadvances.size, List.take_succ_cons]
      intro h
      exact hfeed (List.cons.inj h).1
    simp only [hahead]
    rw [hadvances.credit, if_neg fun h => htext h.2]
  | line hmode hline => exact hline.handsOn
  | _ => exact .plain (by simp [faulty]) rfl rfl

/-! ## Two calls -/

/-- blank lines are what a file goes on with, and all of the blanks there -/
theorem cut_blankLines (h : s.cut.kind = .blankLines) : s.mode = .file ∧ s.cut = s.fileCut ∧
    s.cut = { kind := .blankLines, size := run isGapOrLineFeed s.rest, brackets := [] } := by
  have hfile := cut_of_file (s := s)
  have hcase := s.cut_cases
  generalize s.cut = cut at h hfile hcase ⊢
  cases hcase with
  | blankLines hmode => exact ⟨hmode, hfile hmode, rfl⟩
  | token hmode hahead htoken => exact absurd h htoken.ordinary.kind.1
  | line hmode hline => exact absurd h hline.lineCut.kind.1
  | _ => simp [faulty] at h

/-- any other token of a file has all of the blanks before it -/
theorem gap_file (hmode : s.mode = .file) (h : s.cut.kind ≠ .blankLines) : s.rest.take s.cut.gap = s.blanksAhead := by
  have hcase := s.cut_cases
  generalize s.cut = cut at h hcase ⊢
  cases hcase with
  | blankLines => exact absurd rfl h
  | endOfFile | token => rfl
  | key hline | line hline | body hline | unclosed hline | marker hline => simp [hmode] at hline

/-- outside of the file no line feed is skipped -/
theorem gap_line (hmode : s.mode ≠ .file) : (s.rest.take s.cut.gap).count '\n' = 0 := by
  have hgap : (s.rest.take (run isGap s.rest)).count '\n' = 0 := by
    refine List.count_eq_zero.2 fun hfeed => ?_
    exact absurd (of_mem_take_run hfeed) (by decide)
  have hcase := s.cut_cases
  generalize s.cut = cut at hcase ⊢
  cases hcase with
  | blankLines hfile | endOfFile hfile | token hfile => exact absurd hfile hmode
  | key => exact hgap
  | line hline hcut =>
    rw [hcut.spec.gap]
    exact hgap
  | _ => simp [faulty]

/-- blank lines take all blanks, so nothing lies before them and nothing behind -/
theorem step_blankLines (h : s.cut.kind = .blankLines) : s.step.1.text = s.blanksAhead ∧
    s.step.1.span.start = s.offset ∧ s.step.2.step.1.span.start = s.step.1.span.stop := by
  obtain ⟨-, -, hcut⟩ := cut_blankLines h
  obtain ⟨hmode, -, hnone⟩ := (cut_leads s).1 h
  have htaken : s.step.1.text = (s.rest.drop s.cut.gap).take s.cut.size := rfl
  have hlater : s.step.2.step.1.span.start = s.step.2.offset + byteLength (s.step.2.rest.take s.step.2.cut.gap) := rfl
  refine ⟨by rw [htaken, hcut, List.drop_zero, blanksAhead], start_of_gap (by rw [hcut]), ?_⟩
  rw [hlater, gap_file hmode ((linked_step s).blank (.inl h)), blanksAhead, hnone, List.take_zero, byteLength_nil, Nat.add_zero]
  exact offset_of_slack (by rw [hcut])

theorem credit_step (s : Lexer) : s.step.2.credit = s.step.1.credit := by
  have hcredit : s.step.2.credit = s.cut.credit := rfl
  rw [hcredit, (cut_handsOn s).credit, Token.credit]
  simp [Token.takesLineFeed, step]

variable {text : List Char}

/-- **Blank lines behind a token** are all that lies between it and the token after them. -/
theorem On.blankLines (h : s.On text) (hkind : s.step.2.cut.kind = .blankLines) :
    slice? text ⟨s.step.1.span.stop, s.step.2.step.2.step.1.span.start⟩ = some s.step.2.blanksAhead ∧
      s.step.2.brackets = [] ∧ 2 ≤ s.step.2.blanksAhead.count '\n' + s.step.1.credit := by
  obtain ⟨hmode, hfile, -⟩ := cut_blankLines hkind
  obtain ⟨htext, hstart, hlater⟩ := step_blankLines hkind
  obtain ⟨hfeeds, hshut, -⟩ := (fileCut_blankLines_iff s.step.2).1 (hfile ▸ hkind)
  have hstop : s.step.2.offset = s.step.1.span.stop := offset_of_slack ((cut_handsOn s).file hmode)
  refine ⟨?_, hshut, credit_step s ▸ hfeeds⟩
  rw [← hstop, ← hstart, hlater, ← htext]
  exact h.step.2.2.step.2.1

/-- **No blank lines behind a token**: a bracket is open there, or line feeds are missing. -/
theorem On.noBlankLines (h : s.On text) (hkind : s.step.2.cut.kind ≠ .blankLines) (hread : s.step.2.offset ≠ 0) :
    ∃ between, slice? text ⟨s.step.1.span.stop, s.step.2.step.1.span.start⟩ = some between ∧
      ¬(s.step.2.brackets = [] ∧ 2 ≤ between.count '\n' + s.step.1.credit) := by
  refine ⟨_, h.slice_between, ?_⟩
  rintro ⟨hshut, hfeeds⟩
  have hhands := cut_handsOn s
  by_cases hmode : s.step.2.mode = .file
  · have hcut := cut_of_file hmode
    rw [hhands.file hmode, List.take_zero, List.nil_append, gap_file hmode hkind, ← credit_step] at hfeeds
    rw [hcut] at hkind
    exact hkind ((fileCut_blankLines_iff s.step.2).2 ⟨hfeeds, hshut, hread⟩)
  · obtain ⟨hcredit, hslack⟩ := hhands.line hmode
    have hnone : s.step.2.credit = 0 := hcredit
    rw [List.count_append, gap_line hmode, ← credit_step, hnone] at hfeeds
    omega

/-! ## Calls on a text -/

theorem offset_le_step (s : Lexer) : s.step.1.span.stop ≤ s.step.2.offset ∧ s.offset ≤ s.step.1.span.start := by
  simp [step]

/-- no text starts with blank lines -/
theorem call_zero_ne_blankLines (text : List Char) : (call text 0).kind ≠ .blankLines := by
  intro h
  obtain ⟨-, hfile, -⟩ := cut_blankLines (s := afterCalls text 0) h
  obtain ⟨-, -, hread⟩ := (fileCut_blankLines_iff (afterCalls text 0)).1 (hfile ▸ h)
  exact hread rfl

/-- behind the first token something was read -/
theorem offset_afterCalls_ne_zero (h : (call text 0).kind ≠ .endOfFile) (n : Nat) : (afterCalls text (n + 1)).offset ≠ 0 := by
  induction n with
  | zero =>
    have htaken : (call text 0).text ≠ [] := by
      have hblank := call_zero_ne_blankLines text
      simp only [call, step] at h hblank ⊢
      have hcase := (afterCalls text 0).cut_cases
      generalize (afterCalls text 0).cut = cut at h hblank hcase ⊢
      cases hcase with
      | blankLines => exact absurd rfl hblank
      | endOfFile => exact absurd rfl h
      | token hmode hahead htoken => simp [hahead, htoken.advances.size.ne']
      | key hmode | line hmode | body hmode | unclosed hmode | marker hmode => simp [afterCalls] at hmode
    have hbytes := byteLength_pos_of_ne_nil htaken
    have hstep := offset_le_step (afterCalls text 0)
    have hspan : (call text 0).span.stop = (call text 0).span.start + byteLength (call text 0).text :=
      (afterCalls text 0).step_stop
    rw [call] at hspan hbytes
    rw [afterCalls]
    omega
  | succ n ih =>
    have hstep := offset_le_step (afterCalls text (n + 1))
    have hspan := (afterCalls text (n + 1)).step_stop
    rw [afterCalls]
    omega

/-- a token of a text with all tokens before it -/
theorem call_of_split {last : Nat} {before after : List Token} {t : Token}
    (h : (List.range last).map (call text) = before ++ t :: after) :
    before.length < last ∧ t = call text before.length ∧ before = (List.range before.length).map (call text) := by
  have hlength := congrArg List.length h
  simp only [List.length_map, List.length_range, List.length_append, List.length_cons] at hlength
  have hlt : before.length < last := by omega
  have hbefore := congrArg (List.take before.length) h
  rw [List.take_left, ← List.map_take, List.take_range, min_eq_left hlt.le] at hbefore
  have ht := congrArg (·[before.length]?) h
  simp only [List.getElem?_map, List.getElem?_range hlt, Option.map_some, List.getElem?_append_right le_rfl,
    Nat.sub_self, List.getElem?_cons_zero, Option.some.injEq] at ht
  exact ⟨hlt, ht.symm, hbefore.symm⟩

end Lexer

/-- no bracket is open behind the tokens, braces aside, which the lexer does not keep account of -/
def NoneOpen (ts : List Token) : Prop := nesting [] (withoutBraces ts) = some []

open Lexer in
theorem noneOpen_calls (text : List Char) (n : Nat) :
    NoneOpen ((List.range n).map (call text)) ↔ (afterCalls text n).brackets = [] := by
  rw [NoneOpen, nesting_calls, enclosures, Option.some.injEq, List.map_eq_nil_iff]

namespace Lexer

/-- the token after a token of a text, and what is open there -/
theorem next_of_split {last : Nat} {before after : List Token} {t u : Token}
    (h : (List.range last).map (call text) = before ++ t :: u :: after) :
    before.length + 1 < last ∧ u = call text (before.length + 1) ∧
      (NoneOpen (before ++ [t]) ↔ (afterCalls text (before.length + 1)).brackets = []) := by
  have hsplit : (List.range last).map (call text) = (before ++ [t]) ++ u :: after := by rw [h]; simp
  obtain ⟨hlt, hu, hfront⟩ := call_of_split hsplit
  rw [List.length_append, List.length_singleton] at hlt hu hfront
  rw [hfront]
  exact ⟨hlt, hu, noneOpen_calls text _⟩

end Lexer

open Lexer in
/-- **Blank lines are tokens exactly where they are.** No text starts with them and no two of them come one after the other.
And of two tokens with none but blank lines between them, there are some just if no bracket is open behind the first and two
line feeds come between, one of which the first may have taken as the end of a directive. -/
theorem blankLines_stand (text : List Char) :
    (∀ t ∈ (Stream.ofText text).toList.head?, t.kind ≠ .blankLines) ∧
    (Stream.ofText text).toList.IsChain (fun t u => t.kind = .blankLines → u.kind ≠ .blankLines) ∧
    ∀ before t blank u after, (Stream.ofText text).toList = before ++ t :: (blank ++ u :: after) →
      u.kind ≠ .blankLines → (∀ b ∈ blank, b.kind = .blankLines) →
      ∃ between, slice? text ⟨t.span.stop, u.span.start⟩ = some between ∧
        (blank ≠ [] ↔ NoneOpen (before ++ [t]) ∧ 2 ≤ between.count '\n' + t.credit) := by
  obtain ⟨count, htokens, hbefore, -⟩ := Stream.toList_calls text
  have hlinked (n : Nat) (h : (call text n).kind = .blankLines) : (call text (n + 1)).kind ≠ .blankLines :=
    (linked_step (afterCalls text n)).blank (.inl h)
  rw [htokens]
  refine ⟨?_, ?_, ?_⟩
  · cases count with
    | zero => simp
    | succ count => simpa [List.range_succ_eq_map] using call_zero_ne_blankLines text
  · rw [List.isChain_iff_getElem]
    intro n hn
    simpa using hlinked n
  · intro before t blank u after hsplit hu hblank
    obtain ⟨-, rfl, -⟩ := call_of_split hsplit
    have hon := on_afterCalls text before.length
    obtain _ | ⟨b, _ | ⟨c, blank⟩⟩ := blank
    · obtain ⟨hlt, rfl, hshut⟩ := next_of_split hsplit
      have hread := offset_afterCalls_ne_zero (hbefore 0 (by omega)) before.length
      obtain ⟨between, hslice, hnone⟩ := hon.noBlankLines hu hread
      exact ⟨between, hslice, iff_of_false (by simp) (by rwa [hshut])⟩
    · obtain ⟨-, rfl, hshut⟩ := next_of_split hsplit
      have hlater : (List.range count).map (call text) =
          (before ++ [call text before.length]) ++ call text (before.length + 1) :: u :: after := by rw [hsplit]; simp
      obtain ⟨-, rfl, -⟩ := next_of_split hlater
      rw [List.length_append, List.length_singleton]
      obtain ⟨hslice, hopen, hfeeds⟩ := hon.blankLines (hblank _ List.mem_cons_self)
      exact ⟨_, hslice, iff_of_true (by simp) ⟨hshut.2 hopen, hfeeds⟩⟩
    · -- two in a row are none
      obtain ⟨-, rfl, -⟩ := next_of_split hsplit
      have hlater : (List.range count).map (call text) = (before ++ [call text before.length]) ++
          call text (before.length + 1) :: c :: (blank ++ u :: after) := by rw [hsplit]; simp
      obtain ⟨-, rfl, -⟩ := next_of_split hlater
      rw [List.length_append, List.length_singleton] at hblank
      exact absurd (hblank _ (by simp)) (hlinked _ (hblank _ List.mem_cons_self))

/-- a directive's line, an empty line and a name -/
def partedLines : List Char := "#if a\n\nx".toList

/-- one line feed is left behind the end of the directive, which took the other: it is a blank line -/
theorem blankLines_stand_directive : ∃ before t b u after,
    (Stream.ofText partedLines).toList = before ++ t :: ([b] ++ u :: after) ∧ t.takesLineFeed = true ∧
      u.kind ≠ .blankLines ∧ (∀ c ∈ [b], c.kind = .blankLines) ∧
      ∃ between, slice? partedLines ⟨t.span.stop, u.span.start⟩ = some between ∧
        ([b] ≠ [] ↔ NoneOpen (before ++ [t]) ∧ 2 ≤ between.count '\n' + t.credit) := by
  have htokens : (Stream.ofText partedLines).toList =
      [⟨.directive, ⟨0, 3⟩, "#if".toList, none, true⟩, ⟨.directiveKey, ⟨4, 5⟩, ['a'], none, false⟩] ++
        ⟨.directiveEnd, ⟨5, 6⟩, ['\n'], none, false⟩ :: ([⟨.blankLines, ⟨6, 7⟩, ['\n'], none, true⟩] ++
          ⟨.name, ⟨7, 8⟩, ['x'], none, true⟩ :: [⟨.endOfFile, ⟨8, 8⟩, [], none, false⟩]) := by decide +kernel
  have hother : Kind.name ≠ .blankLines := by decide
  exact ⟨_, _, _, _, _, htokens, by decide, hother, by simp,
    (blankLines_stand partedLines).2.2 _ _ _ _ _ htokens hother (by simp)⟩

end LpcStyle
