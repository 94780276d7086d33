import Mathlib.Tactic
import LpcStyle.Proofs.Token.Calls
import LpcStyle.Proofs.Token.Literal

/-!
Where a call moves the lexer on. In each mode but one a call takes a character. Behind a directive's name it takes none when
a NUL comes, or a blank that the gap there does not hold: the key that is read would be empty then, and the call breaks off.
Main statements:
- `scan_advances_iff`: which calls move the lexer on;
- `calls_tile`: the tokens of a text tile it, up to its end or to where a call breaks off.
-/

namespace LpcStyle

open Text Pattern

/-- a directive's key is empty where a NUL or any blank stands -/
theorem Pattern.directiveKey_eq_zero_iff {c : Char} {after : List Char} :
    directiveKey (c :: after) = 0 ↔ c.toNat = 0 ∨ isBlank c = true := by
  by_cases hletter : isLetter c = true
  · have hpos : 0 < word (c :: after) := by
      rw [word_cons hletter]
      simp [run, List.takeWhile_cons_of_pos (isLetterOrDigit_of_isLetter hletter)]
    have hblank := not_isBlank_of_isLetterOrDigit (isLetterOrDigit_of_isLetter hletter)
    have hbound := isLetterOrDigit_bounds (isLetterOrDigit_of_isLetter hletter)
    have hkey : directiveKey (c :: after) ≠ 0 := by
      simp only [directiveKey, if_pos hpos]
      split <;> omega
    simp only [hkey, hblank, false_iff, Bool.false_eq_true, or_false]
    omega
  · have hword : word (c :: after) = 0 := by simp [word, hletter]
    simp only [directiveKey, hword, Nat.lt_irrefl, if_false, run]
    rw [List.takeWhile_cons]
    split
    · next hsolid => simpa using hsolid
    · next hsolid => simpa [imp_iff_not_or] using hsolid

namespace Lexer

/-- the lexer is behind a directive's name, at a NUL or at a blank that is skipped nowhere between tokens -/
def Stalls (s : Lexer) : Prop :=
  s.mode = .directiveStart ∧
    ∃ c after, s.rest = c :: after ∧ (c.toNat = 0 ∨ isBlank c = true) ∧ isGapOrLineFeed c = false

variable {s : Lexer}

theorem rest_step (s : Lexer) : s.step.2.rest = s.rest.drop (s.cut.gap + s.cut.size + s.cut.slack) := by
  simp only [step, List.drop_drop]

theorem offset_step (s : Lexer) :
    s.step.2.offset = s.offset + byteLength (s.rest.take (s.cut.gap + s.cut.size + s.cut.slack)) := by
  simp only [step, List.take_add, byteLength_append, List.drop_drop, Nat.add_assoc]

/-- a call moves the lexer on just if its cut takes a character -/
theorem advances_iff_pos (h : s.rest ≠ []) : s.Advances ↔ 0 < s.cut.gap + s.cut.size + s.cut.slack := by
  constructor
  · rintro hadvance
    by_contra hnone
    have htotal : s.cut.gap + s.cut.size + s.cut.slack = 0 := by omega
    rw [Advances, offset_step, rest_step, htotal] at hadvance
    simp [h] at hadvance
  · intro hpos
    have htaken : s.rest.take (s.cut.gap + s.cut.size + s.cut.slack) ≠ [] := by
      rw [Ne, List.take_eq_nil_iff, not_or]
      exact ⟨hpos.ne', h⟩
    have hbytes := byteLength_pos_of_ne_nil htaken
    left
    rw [offset_step]
    omega

/-! ## What each mode takes -/

/-- away from the names of directives a call takes a character: blanks, a token, the end of a line, or a part of a text block -/
theorem cut_pos (hmode : s.mode ≠ .directiveStart) (hrest : s.rest ≠ []) (hcredit : s.credit ≤ 1) (hmarked : s.Marked) :
    0 < s.cut.gap + s.cut.size + s.cut.slack := by
  have hlength := List.length_pos_iff.2 hrest
  have hcase := s.cut_cases
  generalize s.cut = cut at hcase ⊢
  cases hcase with
  | blankLines hfile hshut hfeeds =>
    have hgap := (gap_pos_of_lines hcredit hfeeds).1
    simp only
    omega
  | endOfFile hfile hahead =>
    have hgap := List.drop_eq_nil_iff.1 hahead
    simp only
    omega
  | token hfile hahead htoken =>
    have hsize := htoken.advances.size
    simp only
    omega
  | key hkey => exact absurd hkey hmode
  | line hdirective hline => exact hline.spec.takes hrest
  | body hblock hbody =>
    obtain ⟨n, -, rfl⟩ := Option.map_eq_some_iff.1 hbody
    simp
  | unclosed => simpa [faulty] using hlength
  | marker hblock =>
    rw [Marked, hblock] at hmarked
    simpa using List.length_pos_iff.2 hmarked.1.ne_nil

/-- behind a directive's name a call takes nothing just where it stalls -/
theorem directiveKeyCut_pos_iff {c : Char} {after : List Char} (hrest : s.rest = c :: after) :
    0 < s.directiveKeyCut.gap + s.directiveKeyCut.size + s.directiveKeyCut.slack ↔
      ¬((c.toNat = 0 ∨ isBlank c = true) ∧ isGapOrLineFeed c = false) := by
  have hne : s.rest ≠ [] := by simp [hrest]
  by_cases hgap : isGap c = true
  · -- the gap takes the first character, whatever comes behind it
    have hrun : 0 < run isGap s.rest := by simp [hrest, run, List.takeWhile_cons_of_pos hgap]
    have hpos : 0 < s.directiveKeyCut.gap + s.directiveKeyCut.size + s.directiveKeyCut.slack := by
      rcases directiveKeyCut_cases s with hcut | ⟨size, hcut⟩ <;> rw [hcut]
      · exact (directiveCut_spec s).takes hne
      · simp only
        omega
    simp [hpos, isGapOrLineFeed, hgap]
  · have hrun : run isGap s.rest = 0 := by simp [hrest, run, List.takeWhile_cons_of_neg hgap]
    unfold directiveKeyCut
    simp only [hrun, List.drop_zero]
    split
    · next hend =>
      have hpos := (directiveCut_spec s).takes hne
      -- the line ends here, at a line feed or at a backslash, and the lexer stalls at neither
      have hc : c = '\n' ∨ c = '\\' := by
        rw [hrest] at hend
        simp only [List.isEmpty_cons, Bool.false_or, Bool.or_eq_true] at hend
        rcases hend with hfeed | hbreak
        · obtain ⟨rest, hsplit⟩ := startsWith_iff.1 hfeed
          exact .inl (List.cons.inj hsplit).1
        · unfold atLineContinuation at hbreak
          split at hbreak
          · next heq => exact .inr (List.cons.inj heq).1
          · cases hbreak
      rcases hc with rfl | rfl <;> simp only [hpos, true_iff] <;> decide
    · next hline =>
      have hfeed : c ≠ '\n' := by
        rintro rfl
        exact hline (by simp [hrest, startsWith])
      simp only [hrest, Nat.zero_add, Nat.add_zero, Nat.pos_iff_ne_zero, ne_eq, directiveKey_eq_zero_iff]
      simp [isGapOrLineFeed, hgap, hfeed]

/-- **A call takes a character unless it stalls.** -/
theorem advances_iff_not_stalls (hrest : s.rest ≠ []) (hcredit : s.credit ≤ 1) (hmarked : s.Marked) :
    s.Advances ↔ ¬s.Stalls := by
  rw [advances_iff_pos hrest]
  by_cases hmode : s.mode = .directiveStart
  · obtain ⟨c, after, hahead⟩ := List.exists_cons_of_ne_nil hrest
    rw [cut_of_directiveStart hmode, directiveKeyCut_pos_iff hahead]
    simp [Stalls, hmode, hahead]
  · exact iff_of_true (cut_pos hmode hrest hcredit hmarked) fun h => hmode h.1

/-! ## Calls on a text -/

theorem marked_afterCalls (text : List Char) (n : Nat) : (afterCalls text n).Marked := by
  induction n with
  | zero => exact .ofOutside rfl
  | succ n ih => exact marked_step ih

/-- a step on a text advances unless it stalls, or nothing is left -/
theorem advances_afterCalls_iff (text : List Char) (n : Nat) : (afterCalls text n).Advances ↔ ¬(afterCalls text n).Stalls := by
  by_cases hrest : (afterCalls text n).rest = []
  · refine iff_of_true (.inr ?_) ?_
    · rw [rest_step, hrest, List.drop_nil]
    · rintro ⟨-, c, after, hahead, -⟩
      rw [hrest] at hahead
      cases hahead
  · exact advances_iff_not_stalls hrest (credit_afterCalls text n) (marked_afterCalls text n)

/-- the lexer after some calls on a text, if none of them breaks off -/
def after? (text : List Char) : Nat → Option Lexer
  | 0 => some { rest := text }
  | n + 1 => (after? text n).bind fun s => s.scan.map Prod.snd

/-- the token that a call on a text gives, if neither it nor one before it breaks off; calls are counted from zero -/
def call? (text : List Char) (n : Nat) : Option Token := (after? text n).bind fun s => s.scan.map Prod.fst

variable {text : List Char} {n : Nat}

theorem scan_eq_some (h : s.Advances) : s.scan = some s.step := if_pos h

theorem scan_eq_none_iff : s.scan = none ↔ ¬s.Advances := by
  rw [scan]
  split <;> simp_all

/-- calls that do not break off do what the steps do -/
theorem after?_eq_some_iff : after? text n = some s ↔ s = afterCalls text n ∧ ∀ m < n, (afterCalls text m).Advances := by
  induction n generalizing s with
  | zero => simp [after?, afterCalls, eq_comm]
  | succ n ih =>
    rw [after?, Option.bind_eq_some_iff]
    constructor
    · rintro ⟨u, hu, hs⟩
      obtain ⟨rfl, hall⟩ := ih.1 hu
      by_cases hadvances : (afterCalls text n).Advances
      · rw [scan_eq_some hadvances] at hs
        obtain rfl := Option.some.inj hs
        refine ⟨rfl, fun m hm => ?_⟩
        rcases Nat.lt_succ_iff_lt_or_eq.1 hm with hm | rfl
        · exact hall m hm
        · exact hadvances
      · rw [scan_eq_none_iff.2 hadvances] at hs
        cases hs
    · rintro ⟨rfl, hall⟩
      refine ⟨afterCalls text n, ih.2 ⟨rfl, fun m hm => hall m (Nat.lt_succ_of_lt hm)⟩, ?_⟩
      rw [scan_eq_some (hall n (Nat.lt_succ_self n))]
      rfl

theorem call?_of_advances (h : ∀ m ≤ n, (afterCalls text m).Advances) : call? text n = some (call text n) := by
  rw [call?, after?_eq_some_iff.2 ⟨rfl, fun m hm => h m hm.le⟩, Option.bind_some, scan_eq_some (h n le_rfl)]
  rfl

/-- from a call that breaks off on there are no tokens -/
theorem call?_of_not_advances {m : Nat} (h : ¬(afterCalls text m).Advances) (hn : m ≤ n) : call? text n = none := by
  rw [call?, Option.bind_eq_none_iff]
  intro s hs
  obtain ⟨rfl, hall⟩ := after?_eq_some_iff.1 hs
  obtain rfl : m = n := by
    by_contra hne
    exact h (hall m (by omega))
  rw [scan_eq_none_iff.2 h]
  rfl

end Lexer

open Lexer

/-- **Which calls move the lexer on.** Before the end of a text every call takes a character, or all that is left, except
where a NUL, or a blank that is skipped nowhere between tokens, stands right behind a directive's name. There the call
breaks off. -/
theorem scan_advances_iff {text : List Char} {n : Nat} {s : Lexer} (h : after? text n = some s) (hrest : s.rest ≠ []) :
    ((∃ t next, s.scan = some (t, next) ∧ (s.offset < next.offset ∨ next.rest = [])) ↔ ¬s.Stalls) ∧
      (s.scan = none ↔ s.Stalls) := by
  obtain ⟨rfl, -⟩ := after?_eq_some_iff.1 h
  have hiff := advances_afterCalls_iff text n
  have hscan := scan_eq_none_iff (s := afterCalls text n)
  refine ⟨⟨?_, fun hgoes => ?_⟩, by rw [hscan, hiff, not_not]⟩
  · rintro ⟨t, next, hnext, -⟩
    refine hiff.1 (not_not.1 fun hstays => ?_)
    rw [hscan.2 hstays] at hnext
    cases hnext
  · exact ⟨_, _, scan_eq_some (hiff.2 hgoes), hiff.2 hgoes⟩

/-- a directive's name with a no-break space right behind it -/
def unskipped : List Char := "#define\u00a0x".toList

/-- behind the name the call breaks off -/
theorem after_unskipped : ∃ s, after? unskipped 1 = some s ∧ s.rest ≠ [] ∧ s.Stalls := by
  have hafter : after? unskipped 1 = some
      { rest := ['\u00a0', 'x'], offset := 7, fresh := false, mode := .directiveStart, last := .directive } := by decide
  exact ⟨_, hafter, by simp, rfl, '\u00a0', ['x'], rfl, by decide, by decide⟩

/-- behind `#define` the lexer is at a no-break space, and the call breaks off -/
theorem scan_stalls_unskipped : ∃ s, after? unskipped 1 = some s ∧ s.rest ≠ [] ∧ s.Stalls ∧ s.scan = none := by
  obtain ⟨s, hs, hrest, hstalls⟩ := after_unskipped
  exact ⟨s, hs, hrest, hstalls, (scan_advances_iff hs hrest).2.2 hstalls⟩

/-- a call before the end of a text that moves nothing -/
theorem not_scan_advances : ¬∀ (text : List Char) (n : Nat) (s : Lexer), after? text n = some s → s.rest ≠ [] →
    ∃ t next, s.scan = some (t, next) ∧ (s.offset < next.offset ∨ next.rest = []) := by
  intro hall
  obtain ⟨s, hs, hrest, -⟩ := after_unskipped
  obtain ⟨t, next, hscan, -⟩ := hall unskipped 1 s hs hrest
  have hnone : (after? unskipped 1).bind Lexer.scan = none := by decide
  rw [hs, Option.bind_some, hscan] at hnone
  cases hnone

/-! ## The tokens of a text -/

/-- tokens lie on a text in order: each is a part of it, and nothing but blanks stands before the first one and between two
that follow each other -/
structure LieOn (text : List Char) (ts : List Token) : Prop where
  inside : ∀ t ∈ ts, slice? text t.span = some t.text
  first : ∀ t ∈ ts.head?, BlankBetween text 0 t.span.start
  between : ts.IsChain fun t u => BlankBetween text t.span.stop u.span.start

/-- the characters of tokens that are no blanks -/
def solids (ts : List Token) : List Char := ts.flatMap fun t => t.text.filter (!isBlank ·)

/-- all calls on a text give tokens: these, and then the end of the file again and again. They lie on the text, the end
behind all of it, and every character that is no blank is in one of them, and in one only -/
structure Tiles (text : List Char) (ts : List Token) (eof : Token) : Prop where
  calls : ∀ n, call? text n = some (ts.getD n eof)
  before : ∀ t ∈ ts, t.kind ≠ .endOfFile
  endOfFile : eof.kind = .endOfFile
  behind : eof.span = .empty (byteLength text)
  lie : LieOn text (ts ++ [eof])
  covered : solids ts = text.filter (!isBlank ·)

/-- the first calls on a text give these tokens, and the next one breaks off where the lexer stalls. The tokens lie on the
text, and every character that is no blank is in one of them, and in one only, or still to be read -/
structure BreaksOffAt (text : List Char) (ts : List Token) (s : Lexer) : Prop where
  calls : ∀ n, call? text n = ts[n]?
  before : ∀ t ∈ ts, t.kind ≠ .endOfFile
  reached : after? text ts.length = some s
  stalls : s.Stalls
  lie : LieOn text ts
  covered : solids ts ++ s.rest.filter (!isBlank ·) = text.filter (!isBlank ·)

namespace Lexer

variable {text : List Char}

theorem slice_call (text : List Char) (n : Nat) : slice? text (call text n).span = some (call text n).text :=
  (on_afterCalls text n).step.2.1

theorem between_call (text : List Char) (n : Nat) :
    BlankBetween text (call text n).span.stop (call text (n + 1)).span.start := (on_afterCalls text n).between

theorem lieOn_calls (text : List Char) (count : Nat) : LieOn text ((List.range count).map (call text)) where
  inside := by simpa using fun n _ => slice_call text n
  first := by
    have hfirst : BlankBetween text 0 (call text 0).span.start := (on_afterCalls text 0).step.1
    cases count with
    | zero => simp
    | succ count => simpa [List.range_succ_eq_map] using hfirst
  between := by
    rw [List.isChain_iff_getElem]
    intro n hn
    simpa using between_call text n

theorem tiles_call {last : Nat} (hend : (call text last).kind = .endOfFile)
    (hall : ∀ n < last, (call text n).kind ≠ .endOfFile ∧ (afterCalls text n).Advances) :
    Tiles text ((List.range last).map (call text)) (call text last) where
  calls n := by
    have hafter (m : Nat) : (afterCalls text m).Advances := by
      rcases lt_or_ge m last with hm | hm
      · exact (hall m hm).2
      · -- the end of the file is found in the file only, and a call stalls in a directive only
        refine (advances_afterCalls_iff text m).2 fun hstalls => ?_
        have hkind : (afterCalls text m).cut.kind = .endOfFile := (congrArg Token.kind (call_of_endOfFile hend hm)).trans hend
        have hmode := hstalls.1
        rw [(cut_of_endOfFile hkind).1] at hmode
        cases hmode
    rw [call?_of_advances fun m _ => hafter m]
    rcases lt_or_ge n last with hn | hn
    · simp [List.getD_eq_getElem?_getD, hn]
    · simp [List.getD_eq_getElem?_getD, call_of_endOfFile hend hn, hn]
  before := by simpa using fun n hn => (hall n hn).1
  endOfFile := hend
  behind := by
    obtain ⟨front, htext, hfront⟩ := on_afterCalls text last
    have hlength := congrArg byteLength htext
    rw [byteLength_append, hfront] at hlength
    rw [hlength]
    exact (eof_step hend).2
  lie := by
    have hlie := lieOn_calls text (last + 1)
    rwa [List.range_succ, List.map_append] at hlie
  covered := by
    have hfilter := filter_afterCalls text last
    have hrest := filter_step (afterCalls text last)
    obtain ⟨-, gap, hnone, hcut⟩ := cut_of_endOfFile hend
    rw [hfilter, hrest]
    simp [solids, step, hcut, hnone]

theorem breaksOffAt_call {count : Nat} (hall : ∀ n < count, (call text n).kind ≠ .endOfFile ∧ (afterCalls text n).Advances)
    (hstays : ¬(afterCalls text count).Advances) :
    BreaksOffAt text ((List.range count).map (call text)) (afterCalls text count) where
  calls n := by
    rcases lt_or_ge n count with hn | hn
    · rw [call?_of_advances fun m hm => (hall m (by omega)).2]
      simp [hn]
    · rw [call?_of_not_advances hstays hn, List.getElem?_eq_none (by simpa using hn)]
  before := by simpa using fun n hn => (hall n hn).1
  reached := after?_eq_some_iff.2 (by simpa using fun n hn => (hall n hn).2)
  stalls := not_not.1 fun h => hstays ((advances_afterCalls_iff text count).2 h)
  lie := lieOn_calls text count
  covered := (filter_afterCalls text count).symm

end Lexer

namespace Stream

/-- the stream after some tokens are taken -/
def skip? (s : Stream) : Nat → Option Stream
  | 0 => some s
  | n + 1 => (s.skip? n).bind fun s => s.next?.map Prod.snd

/-- the token that is taken after some others -/
def token? (s : Stream) (n : Nat) : Option Token := (s.skip? n).bind fun s => s.next?.map Prod.fst

theorem next?_drop (s : Stream) (n : Nat) : (⟨s.ahead.drop n, s.eof⟩ : Stream).next? =
    if s.ahead.length ≤ n + 1 ∧ s.Stalled then none
    else some (s.ahead.getD n s.eof, ⟨s.ahead.drop (n + 1), s.eof⟩) := by
  simp [next?, peek, Stalled, List.tail_drop, List.headD_eq_head?_getD, List.head?_drop, List.getD_eq_getElem?_getD]

theorem skip?_eq (s : Stream) (n : Nat) : s.skip? n =
    if n ≠ 0 ∧ s.ahead.length ≤ n ∧ s.Stalled then none else some ⟨s.ahead.drop n, s.eof⟩ := by
  induction n with
  | zero => simp [skip?]
  | succ n ih =>
    rw [skip?, ih]
    split
    · next h => rw [if_pos ⟨by omega, by omega, h.2.2⟩, Option.bind_none]
    · rw [Option.bind_some, next?_drop]
      by_cases h : s.ahead.length ≤ n + 1 ∧ s.Stalled <;> simp [h]

/-- a token is taken unless the call for the one behind it breaks off -/
theorem token?_eq (s : Stream) (n : Nat) : s.token? n =
    if s.ahead.length ≤ n + 1 ∧ s.Stalled then none else some (s.ahead.getD n s.eof) := by
  rw [token?, skip?_eq]
  split
  · next h => rw [if_pos ⟨by omega, h.2.2⟩, Option.bind_none]
  · rw [Option.bind_some, next?_drop]
    split <;> rfl

end Stream

/-- **The tokens of a text tile it**, unless a call breaks off. All calls on a text give a token, and the end of the file
comes after finitely many and then again and again, empty and behind the whole text; or the first calls give tokens and then
one breaks off where the lexer stalls. Either way every token is a part of the text, and nothing but blanks stands before
the first one and between two of them; so every character that is read and is no blank is in one token, and in one only. And
whoever takes tokens from the stream of the text gets those of the calls, each as long as the one behind it comes. -/
theorem calls_tile (text : List Char) :
    ((∃ ts eof, Tiles text ts eof) ∨ ∃ ts s, BreaksOffAt text ts s) ∧
      ∀ n, (Stream.ofText text).token? n = (call? text (n + 1)).bind fun _ => call? text n := by
  obtain ⟨count, hend, hall, hstream⟩ := Stream.ofText_calls text
  have hstalled : (Stream.ofText text).Stalled ↔ ¬(afterCalls text count).Advances := by
    rw [hstream]
    exact fault_issue_iff _
  by_cases hadvances : (afterCalls text count).Advances
  · rw [issue_of_advances hadvances] at hend hstream
    have htiles := tiles_call hend hall
    refine ⟨.inl ⟨_, _, htiles⟩, fun n => ?_⟩
    rw [Stream.token?_eq, if_neg fun h => hstalled.1 h.2 hadvances, htiles.calls, htiles.calls, hstream]
    rfl
  · have hbreaks := breaksOffAt_call hall hadvances
    refine ⟨.inr ⟨_, _, hbreaks⟩, fun n => ?_⟩
    rw [Stream.token?_eq, hbreaks.calls, hbreaks.calls]
    simp only [hstalled.2 hadvances, and_true]
    rw [hstream]
    rcases lt_or_ge (n + 1) count with hn | hn
    · simp [hn, Nat.lt_of_succ_lt hn, List.getD_eq_getElem?_getD]
    · simp [hn]

/-- the tokens of a text that never come to its end: `#define` is not even taken, for the call for the next token breaks off -/
theorem not_endOfFile_unskipped : ¬∀ text : List Char, ∃ n t, (Stream.ofText text).token? n = some t ∧ t.kind = .endOfFile := by
  intro hall
  obtain ⟨n, t, ht, -⟩ := hall unskipped
  have hstalled : (Stream.ofText unskipped).Stalled ∧ (Stream.ofText unskipped).ahead.length = 1 := by decide +kernel
  rw [Stream.token?_eq, if_pos ⟨by omega, hstalled.1⟩] at ht
  cases ht

end LpcStyle
