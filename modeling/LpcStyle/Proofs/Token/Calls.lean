import Mathlib.Tactic
import LpcStyle.Proofs.Token.Faults

/-!
Calling the lexer again and again, as if no call broke off. A call skips blanks only, so the tokens of all calls lie on the
text one after the other with nothing but blanks between them; each of them makes the measure smaller, so the end of the file
comes; and from there on the lexer stays as it is. Main statements:
- `exists_endOfFile`: the end of the file comes after at most two calls for each character;
- `ofText_calls`: the stream of a text holds the tokens of its first calls;
- `call_spelt_iff`: which tokens are spelled as their kind says.
-/

namespace LpcStyle

open Text Pattern

/-- the part of a text between two offsets is blank; so the offsets are character boundaries, and in order -/
def BlankBetween (text : List Char) (start stop : Nat) : Prop :=
  ∃ gap, slice? text ⟨start, stop⟩ = some gap ∧ ∀ c ∈ gap, isBlank c = true

namespace Lexer

/-! ## One call -/

/-- the lexer has read the text up to its offset -/
def On (text : List Char) (s : Lexer) : Prop := ∃ front, text = front ++ s.rest ∧ byteLength front = s.offset

variable {text : List Char} {s : Lexer} {n last : Nat}

/-- **Where a call reads**: behind a gap comes the token, and behind what is passed over the lexer is on the text again. -/
theorem On.step (h : s.On text) : BlankBetween text s.offset s.step.1.span.start ∧
    slice? text s.step.1.span = some s.step.1.text ∧ s.step.2.On text := by
  obtain ⟨front, rfl, hfront⟩ := h
  have hsplit := s.take_append_step
  have hgap := s.cut_sound.gap
  set gap := s.rest.take s.cut.gap
  set slack := ((s.rest.drop s.cut.gap).drop s.cut.size).take s.cut.slack
  have hstart : s.step.1.span.start = s.offset + byteLength gap := rfl
  have hoffset : s.step.2.offset = s.step.1.span.stop + byteLength slack := rfl
  refine ⟨⟨gap, ?_, hgap⟩, ?_, front ++ gap ++ s.step.1.text ++ slack, ?_, ?_⟩
  · exact slice?_eq_some_iff.2 ⟨front, s.step.1.text ++ slack ++ s.step.2.rest, by rw [← hsplit]; simp, hfront, hstart.symm⟩
  · exact slice?_eq_some_iff.2 ⟨front ++ gap, slack ++ s.step.2.rest, by rw [← hsplit]; simp, by simp [hfront, hstart],
      s.step_stop.symm⟩
  · rw [← hsplit]
    simp
  · rw [hoffset, s.step_stop, hstart, byteLength_append, byteLength_append, byteLength_append, hfront]

/-- between two tokens lie what the first call passes over and the gap of the second one -/
theorem On.slice_between (h : s.On text) : slice? text ⟨s.step.1.span.stop, s.step.2.step.1.span.start⟩ =
    some (((s.rest.drop s.cut.gap).drop s.cut.size).take s.cut.slack ++ s.step.2.rest.take s.step.2.cut.gap) := by
  obtain ⟨front, rfl, hfront⟩ := h
  have hsplit := s.take_append_step
  have hnext := List.take_append_drop s.step.2.cut.gap s.step.2.rest
  set slack := ((s.rest.drop s.cut.gap).drop s.cut.size).take s.cut.slack
  set gap := s.step.2.rest.take s.step.2.cut.gap
  have hstart : s.step.1.span.start = s.offset + byteLength (s.rest.take s.cut.gap) := rfl
  have hlater : s.step.2.step.1.span.start = s.step.1.span.stop + byteLength slack + byteLength gap := rfl
  refine slice?_eq_some_iff.2 ⟨front ++ s.rest.take s.cut.gap ++ s.step.1.text, s.step.2.rest.drop s.step.2.cut.gap, ?_, ?_, ?_⟩
  · calc front ++ s.rest
        = front ++ (s.rest.take s.cut.gap ++ s.step.1.text ++ slack ++ s.step.2.rest) := by rw [hsplit]
      _ = front ++ (s.rest.take s.cut.gap ++ s.step.1.text ++ slack ++ (gap ++ s.step.2.rest.drop s.step.2.cut.gap)) := by
        rw [hnext]
      _ = _ := by simp only [List.append_assoc]
  · simp [s.step_stop, hstart, hfront, Nat.add_assoc]
  · simp [hlater, Nat.add_assoc]

theorem On.between (h : s.On text) : BlankBetween text s.step.1.span.stop s.step.2.step.1.span.start :=
  ⟨_, h.slice_between, List.forall_mem_append.2 ⟨s.cut_sound.slack, s.step.2.cut_sound.gap⟩⟩

/-- no character that is no blank escapes a call -/
theorem filter_step (s : Lexer) : s.rest.filter (!isBlank ·) =
    s.step.1.text.filter (!isBlank ·) ++ s.step.2.rest.filter (!isBlank ·) := by
  have hnone {part : List Char} (h : ∀ c ∈ part, isBlank c = true) : part.filter (!isBlank ·) = [] :=
    List.filter_eq_nil_iff.2 fun c hc => by simp [h c hc]
  have hsplit := congrArg (List.filter (!isBlank ·)) s.take_append_step
  simp only [List.filter_append, hnone s.cut_sound.gap, hnone s.cut_sound.slack, List.nil_append, List.append_nil] at hsplit
  exact hsplit.symm

/-! ## The end of the file -/

/-- the end of the file is found in the file only, where nothing but blanks is left -/
theorem cut_of_endOfFile (h : s.cut.kind = .endOfFile) : s.mode = .file ∧ ∃ gap, s.rest.drop gap = [] ∧
    s.cut = { kind := .endOfFile, gap, size := 0, brackets := s.brackets,
              fault := if s.brackets.isEmpty then none else some .openBracket } := by
  have hcase := s.cut_cases
  generalize s.cut = cut at h hcase ⊢
  cases hcase with
  | endOfFile hmode hahead => exact ⟨hmode, _, hahead, rfl⟩
  | token hmode hahead htoken => exact absurd h htoken.advances.kind
  | line hmode hline => exact absurd h hline.spec.kind.1
  | _ => simp [faulty] at h

/-- what a call does at the end of the file -/
theorem step_of_rest_nil (hmode : s.mode = .file) (hrest : s.rest = []) (hcredit : s.credit = 0) :
    s.step = ({ kind := .endOfFile, span := .empty s.offset, text := [], ownLine := s.fresh,
                fault := if s.brackets.isEmpty then none else some .openBracket },
              { s with last := .endOfFile }) := by
  have hcut : s.cut = { kind := .endOfFile, size := 0, brackets := s.brackets,
                        fault := if s.brackets.isEmpty then none else some .openBracket } := by
    simp [cut, hmode, fileCut, hrest, hcredit, run]
  obtain ⟨rest, offset, fresh, mode, brackets, last, credit⟩ := s
  simp only at hmode hrest hcredit
  subst hmode hrest hcredit
  simp [step, hcut, lineStartAfter, Kind.isTrivia, Kind.isComment, Span.empty]

/-- **At the end of the file the lexer stays**: the next call gives the same token and the same lexer. -/
theorem step_of_endOfFile (h : s.step.1.kind = .endOfFile) : s.step.2.step = s.step := by
  obtain ⟨-, gap, hnone, hcut⟩ := cut_of_endOfFile h
  have htoken : s.step = ({ kind := .endOfFile, span := .empty s.step.2.offset, text := [], ownLine := s.step.2.fresh,
                            fault := if s.step.2.brackets.isEmpty then none else some .openBracket },
                          { s.step.2 with last := .endOfFile }) := by
    simp [step, hcut, hnone, lineStartAfter, Kind.isTrivia, Kind.isComment, Span.empty]
  have hmode : s.step.2.mode = .file := by simp [step, hcut]
  have hrest : s.step.2.rest = [] := by simp [step, hcut, hnone]
  have hcredit : s.step.2.credit = 0 := by simp [step, hcut]
  exact (step_of_rest_nil hmode hrest hcredit).trans htoken.symm

/-! ## Many calls -/

/-- the lexer after some calls on a text -/
def afterCalls (text : List Char) : Nat → Lexer
  | 0 => { rest := text }
  | n + 1 => (afterCalls text n).step.2

/-- the token that a call on a text gives; calls are counted from zero -/
def call (text : List Char) (n : Nat) : Token := (afterCalls text n).step.1

theorem on_afterCalls (text : List Char) (n : Nat) : (afterCalls text n).On text := by
  induction n with
  | zero => exact ⟨[], rfl, rfl⟩
  | succ n ih => exact ih.step.2.2

theorem credit_afterCalls (text : List Char) (n : Nat) : (afterCalls text n).credit ≤ 1 := by
  cases n with
  | zero => exact Nat.zero_le 1
  | succ n => exact credit_step_le _

/-- every call before the end of the file makes the measure smaller -/
theorem measure_afterCalls (h : ∀ m < n, (call text m).kind ≠ .endOfFile) :
    (afterCalls text n).measure + n ≤ 2 * text.length := by
  induction n with
  | zero => exact le_rfl
  | succ n ih =>
    have hsmaller : (afterCalls text (n + 1)).measure < (afterCalls text n).measure :=
      measure_step_lt (credit_afterCalls text n) (h n (Nat.lt_succ_self n))
    have hbound := ih fun m hm => h m (Nat.lt_succ_of_lt hm)
    omega

/-- **The end of the file comes**, after at most two calls for each character. -/
theorem exists_endOfFile (text : List Char) : ∃ last ≤ 2 * text.length, (call text last).kind = .endOfFile ∧
    ∀ n < last, (call text n).kind ≠ .endOfFile := by
  have hexists : ∃ n, (call text n).kind = .endOfFile := by
    by_contra hnone
    have hbound : (afterCalls text (2 * text.length + 1)).measure + (2 * text.length + 1) ≤ 2 * text.length :=
      measure_afterCalls fun m _ hm => hnone ⟨m, hm⟩
    omega
  classical
  have hbefore : ∀ n < Nat.find hexists, (call text n).kind ≠ .endOfFile := fun n => Nat.find_min hexists
  have hbound := measure_afterCalls hbefore
  exact ⟨Nat.find hexists, by omega, Nat.find_spec hexists, hbefore⟩

/-- from the end of the file on every call gives the same token -/
theorem call_of_endOfFile (h : (call text last).kind = .endOfFile) (hn : last ≤ n) : call text n = call text last := by
  have hscan : (afterCalls text n).step = (afterCalls text last).step := by
    induction n, hn using Nat.le_induction with
    | base => rfl
    | succ n hn ih =>
      calc (afterCalls text (n + 1)).step
          = (afterCalls text n).step.2.step := rfl
        _ = (afterCalls text last).step.2.step := by rw [ih]
        _ = (afterCalls text last).step := step_of_endOfFile h
  exact congrArg Prod.fst hscan

/-- the characters that are no blanks stand in the tokens so far, and in what is still to be read -/
theorem filter_afterCalls (text : List Char) (n : Nat) : text.filter (!isBlank ·) =
    ((List.range n).map (call text)).flatMap (fun t => t.text.filter (!isBlank ·)) ++
      (afterCalls text n).rest.filter (!isBlank ·) := by
  induction n with
  | zero => rfl
  | succ n ih =>
    rw [ih, List.range_succ, filter_step]
    simp [call, afterCalls]

/-! ## The stream of a text -/

/-- the stream holds the tokens of the calls that advance -/
theorem read_afterCalls (text : List Char) (fuel n : Nat) : ∃ count, n ≤ count ∧
    (∀ m, n ≤ m → m < count → (call text m).kind ≠ .endOfFile ∧ (afterCalls text m).Advances) ∧
    Stream.read fuel (afterCalls text n) = ⟨(List.range' n (count - n)).map (call text), (afterCalls text count).issue.1⟩ := by
  induction fuel generalizing n with
  | zero => exact ⟨n, le_rfl, fun m hn hm => absurd hm (Nat.not_lt.2 hn), by simp [Stream.read]⟩
  | succ fuel ih =>
    simp only [Stream.read]
    split
    · exact ⟨n, le_rfl, fun m hn hm => absurd hm (Nat.not_lt.2 hn), by simp⟩
    · next hkind =>
      have hadvances : (afterCalls text n).Advances := by
        by_contra hstays
        rw [issue_of_not_advances hstays] at hkind
        exact hkind rfl
      rw [issue_of_advances hadvances] at hkind ⊢
      obtain ⟨count, hn, hall, hread⟩ := ih (n + 1)
      refine ⟨count, by omega, fun m hm hlt => ?_, ?_⟩
      · rcases eq_or_lt_of_le hm with rfl | hm
        · exact ⟨hkind, hadvances⟩
        · exact hall m hm hlt
      · have hcount : count - n = count - (n + 1) + 1 := by omega
        rw [show (afterCalls text n).step.2 = afterCalls text (n + 1) from rfl, hread, hcount, List.range'_succ]
        rfl

end Lexer

namespace Stream

open Lexer in
/-- the tokens of a text are those of the calls up to the first that finds its end or breaks off -/
theorem ofText_calls (text : List Char) : ∃ count, (afterCalls text count).issue.1.kind = .endOfFile ∧
    (∀ n < count, (call text n).kind ≠ .endOfFile ∧ (afterCalls text n).Advances) ∧
    ofText text = ⟨(List.range count).map (call text), (afterCalls text count).issue.1⟩ := by
  obtain ⟨count, -, hall, hread⟩ := read_afterCalls text (2 * text.length + 1) 0
  have hstream : ofText text = ⟨(List.range count).map (call text), (afterCalls text count).issue.1⟩ := by
    rw [List.range_eq_range', ofText]
    exact hread
  have heof := eof_ofText text
  rw [hstream] at heof
  exact ⟨count, heof, fun n hn => hall n (Nat.zero_le n) hn, hstream⟩

open Lexer in
/-- all tokens of a text are those of its first calls. Only the last of them can be the end of the file -/
theorem toList_calls (text : List Char) : ∃ count, (ofText text).toList = (List.range count).map (call text) ∧
    (∀ n, n + 1 < count → (call text n).kind ≠ .endOfFile) ∧ ∀ n < count, (afterCalls text n).Advances := by
  obtain ⟨count, hend, hall, hstream⟩ := ofText_calls text
  have hstalled : (ofText text).Stalled ↔ ¬(afterCalls text count).Advances := by
    rw [hstream]
    exact fault_issue_iff _
  by_cases hadvances : (afterCalls text count).Advances
  · refine ⟨count + 1, ?_, fun n hn => (hall n (by omega)).1, fun n hn => ?_⟩
    · rw [toList_of_not_stalled fun h => hstalled.1 h hadvances, hstream, closed, List.range_succ, List.map_append,
        issue_of_advances hadvances]
      rfl
    · rcases Nat.lt_succ_iff_lt_or_eq.1 hn with hn | rfl
      · exact (hall n hn).2
      · exact hadvances
  · refine ⟨count, ?_, fun n hn => (hall n (by omega)).1, fun n hn => (hall n hn).2⟩
    rw [toList, if_pos (hstalled.2 hadvances), hstream]

end Stream

open Lexer in
/-- **How the tokens of a text are spelled.** A token has the spelling of its kind, whatever the text, unless it is the end of
a closure with a blank inside that the lexer does not skip, a no-break space say. That token stops at the blank, and its
parenthesis is read again, as a token of its own. -/
theorem call_spelt_iff (text : List Char) (n : Nat) :
    Spelt (call text n).kind (call text n).text ↔
      ¬StrayEnd (call text n).kind (call text n).text (afterCalls text (n + 1)).rest :=
  (afterCalls text n).spelt_step_iff

open Lexer in
/-- the third token is reported as the end of the closure, and it is a colon and a no-break space -/
theorem not_spelt_noBreakSpace : ¬∀ (text : List Char) (n : Nat), Spelt (call text n).kind (call text n).text := by
  intro hall
  have hstray : StrayEnd (call "(: x :\u00a0)".toList 2).kind (call "(: x :\u00a0)".toList 2).text
      (afterCalls "(: x :\u00a0)".toList 3).rest :=
    ⟨by decide +kernel, ⟨[], '\u00a0', by decide +kernel, by simp, by decide, by decide⟩, [], [], by simp, by decide +kernel⟩
  exact hstray.not_spelt (hall "(: x :\u00a0)".toList 2)

end LpcStyle
