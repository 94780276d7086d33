import Mathlib.Tactic
import LpcStyle.Proofs.Text.Rows
import LpcStyle.Proofs.Token.Tiling

/-!
Tokens that hold program data. A string and a character stand between quotes; a text block is three tokens without a gap
between them, an `@` first and a marker last. So none of them has a blank at either end, and the source text of each is
its own. Main statements:
- `sealed_ofText`: no literal of a text starts or ends with a blank;
- `glued_ofText`: the three tokens of a text block follow each other without a gap;
- `slice_token`, `slice_glued`: the source text of one token and of three that follow each other so.
-/

namespace LpcStyle

open Text Pattern

/-- strings, characters and what a text block consists of -/
def Kind.isData : Kind → Bool
  | .string | .char | .textBlockStart | .textBlockBody | .textBlockEnd => true
  | _ => false

theorem Kind.isData_of_isPlain {k : Kind} (h : k.isPlain = true) : k.isData = false := by
  cases k <;> simp [isPlain, isData] at h ⊢

/-- after the start of a text block -/
def Mode.inBlock : Mode → Bool
  | .textBlock _ | .textBlockEnd _ => true
  | _ => false

/-- a word that can close a text block -/
structure Marker (marker : List Char) : Prop where
  ne_nil : marker ≠ []
  solid : ∀ c ∈ marker, isLetterOrDigit c = true

/-! ## Cuts -/

/-- what the cut of a token that holds data takes -/
structure Cut.Data (cut : Cut) (ahead : List Char) : Prop where
  quoted : cut.kind = .string ∨ cut.kind = .char → Trimmed (ahead.take cut.size)
  start : cut.kind = .textBlockStart → ∃ rest, ahead.take cut.size = '@' :: rest
  inside : cut.kind ≠ .textBlockBody ∧ cut.kind ≠ .textBlockEnd
  mode : (∃ marker, Marker marker ∧ cut.mode = .textBlock marker ∧ cut.kind = .textBlockStart ∧ cut.slack = 0) ∨
    cut.mode.inBlock = false

namespace Cut.Data

variable {cut : Cut} {ahead : List Char}

/-- nothing is asked of other tokens -/
theorem other (hkind : cut.kind.isData = false) (hmode : cut.mode.inBlock = false) : cut.Data ahead := by
  refine ⟨?_, ?_, ⟨?_, ?_⟩, .inr hmode⟩
  · rintro (h | h) <;> simp [h, Kind.isData] at hkind
  all_goals
    intro h
    simp [h, Kind.isData] at hkind

theorem ofQuoted (hkind : cut.kind = .string ∨ cut.kind = .char) (hmode : cut.mode.inBlock = false)
    (h : Trimmed (ahead.take cut.size)) : cut.Data ahead := by
  refine ⟨fun _ => h, ?_, ?_, .inr hmode⟩ <;> rcases hkind with hkind | hkind <;> simp [hkind]

end Cut.Data

namespace Pattern

theorem mem_take_word {text : List Char} : ∀ c ∈ text.take (word text), isLetterOrDigit c = true := by
  intro c hc
  obtain _ | ⟨d, rest⟩ := text
  · simp at hc
  · by_cases hd : isLetter d = true
    · rw [word_cons hd] at hc
      exact of_mem_take_run hc
    · simp [word, hd] at hc

theorem marker_of_textBlockMarker {ahead : List Char} {ats n : Nat} (h : textBlockMarker ahead = some (ats, n)) :
    Marker ((ahead.drop ats).take n) ∧ ∃ rest, ahead.take (ats + n) = '@' :: rest := by
  have hmarker {rest : List Char} (hpos : 0 < word rest) : Marker (rest.take (word rest)) := by
    refine ⟨fun hnil => ?_, mem_take_word⟩
    have hlength := congrArg List.length hnil
    have hle := word_le rest
    simp only [List.length_take, List.length_nil] at hlength
    omega
  unfold textBlockMarker at h
  split at h
  · next rest =>
    simp only [Option.ite_none_right_eq_some, Option.some.injEq, Prod.mk.injEq] at h
    obtain ⟨hpos, rfl, rfl⟩ := h
    exact ⟨hmarker hpos, '@' :: rest.take (word rest), by simp [Nat.add_comm 2]⟩
  · next rest _ =>
    simp only [Option.ite_none_right_eq_some, Option.some.injEq, Prod.mk.injEq] at h
    obtain ⟨hpos, rfl, rfl⟩ := h
    exact ⟨hmarker hpos, rest.take (word rest), by simp [Nat.add_comm 1]⟩
  · cases h

/-- what is searched for holds where it is found -/
theorem of_find {p : List Char → Bool} {text : List Char} {n : Nat} (h : find p text = some n) :
    p (text.drop n) = true := by
  induction text generalizing n with
  | nil =>
    simp only [find, Option.ite_none_right_eq_some] at h
    simpa using h.1
  | cons c text ih =>
    simp only [find] at h
    split at h
    · next hfound =>
      cases h
      exact hfound
    · obtain ⟨m, hm, rfl⟩ := Option.map_eq_some_iff.1 h
      simpa using ih hm

/-- the marker stands right after the body of a text block -/
theorem marker_of_textBlockBody {marker ahead : List Char} {n : Nat} (h : textBlockBody marker ahead = some n) :
    ∃ rest, ahead.drop n = marker ++ rest := by
  obtain ⟨m, hm, rfl⟩ := Option.map_eq_some_iff.1 h
  have hfound := of_find hm
  cases hrest : dropFront? ('\n' :: marker) (ahead.drop m) with
  | none => simp [hrest] at hfound
  | some rest =>
    have hsplit := dropFront?_eq_some_iff.1 hrest
    refine ⟨rest, ?_⟩
    rw [← List.drop_drop, hsplit]
    simp

end Pattern

namespace Lexer

/-- what the tokens that hold data take -/
theorem TokenCase.data {brackets : List Bracket} {ahead : List Char} {cut : Cut} (h : TokenCase brackets ahead cut) :
    cut.Data ahead := by
  cases h with
  | fault => exact .other rfl rfl
  | plain hkind hsize hspelt => exact .other (Kind.isData_of_isPlain hkind) rfl
  | letters hahead hletter =>
    refine .other ?_ rfl
    simp only
    rcases Words.classify_cases (ahead.take (Pattern.word ahead)) with hname | htype | hplain
    · rw [hname]
      rfl
    · rw [htype]
      rfl
    · exact Kind.isData_of_isPlain hplain
  | quoted hkind hsize htrimmed => exact .ofQuoted hkind rfl htrimmed
  | brace hkind hspelt => exact .other (by rcases hkind with rfl | rfl <;> rfl) rfl
  | opening b hsize hspelt => exact .other (by cases b <;> rfl) rfl
  | closing b hopen hsize hspelt => exact .other (by cases b <;> rfl) rfl
  | directive hsize hwithin => exact .other rfl rfl
  | textBlock hmarker =>
    obtain ⟨hword, hstart⟩ := marker_of_textBlockMarker hmarker
    exact ⟨by simp, fun _ => hstart, by simp, .inl ⟨_, hword, rfl, rfl, rfl⟩⟩

/-- outside a text block -/
theorem cut_data {s : Lexer} (h : s.mode.inBlock = false) : s.cut.Data (s.rest.drop s.cut.gap) := by
  have hcase := s.cut_cases
  generalize s.cut = cut at hcase ⊢
  cases hcase with
  | token hmode hahead htoken =>
    have hdata := htoken.data
    simp only [hahead]
    exact ⟨hdata.quoted, hdata.start, hdata.inside, hdata.mode⟩
  | line hmode hline =>
    cases hline with
    | comment =>
      refine .other ?_ rfl
      rcases blockCommentCut_kind s.brackets (s.rest.drop (run isGap s.rest)) with hkind | hkind <;> simp [hkind, Kind.isData]
    | _ => exact .other rfl rfl
  | body hmode | unclosed hmode | marker hmode => simp [hmode, Mode.inBlock] at h
  | _ => exact .other rfl rfl

/-- the body of a text block, up to its marker, or all the rest -/
theorem cut_textBlock {s : Lexer} {marker : List Char} (h : s.mode = .textBlock marker) :
    (∃ size rest, s.rest.drop size = marker ++ rest ∧
      s.cut = { kind := .textBlockBody, size, brackets := s.brackets, mode := .textBlockEnd marker }) ∨
    s.cut = faulty s.brackets .textBlock s.rest.length := by
  rw [cut, h]
  dsimp only
  split
  · next size hbody =>
    obtain ⟨rest, hrest⟩ := marker_of_textBlockBody hbody
    exact .inl ⟨size, rest, hrest, rfl⟩
  · exact .inr rfl

theorem cut_textBlockEnd {s : Lexer} {marker : List Char} (h : s.mode = .textBlockEnd marker) :
    s.cut = { kind := .textBlockEnd, size := marker.length, brackets := s.brackets } := by
  rw [cut, h]

end Lexer

/-! ## Tokens -/

/-- no blank at either end of a string, a character or a text block -/
structure Token.Sealed (t : Token) : Prop where
  quoted : t.kind = .string ∨ t.kind = .char → Trimmed t.text
  start : t.kind = .textBlockStart → ∃ rest, t.text = '@' :: rest
  stop : t.kind = .textBlockEnd → ∃ front c, t.text = front ++ [c] ∧ isBlank c = false

/-- what is inside a text block or closes it goes on where the token before it ends -/
structure Glued (t u : Token) : Prop where
  body : u.kind = .textBlockBody → t.kind = .textBlockStart ∧ u.span.start = t.span.stop
  stop : u.kind = .textBlockEnd → t.kind = .textBlockBody ∧ u.span.start = t.span.stop

namespace Lexer

/-- the marker of a text block is a word, and after the block's body it is what comes next -/
def Marked (s : Lexer) : Prop :=
  match s.mode with
  | .textBlock marker => Marker marker
  | .textBlockEnd marker => Marker marker ∧ ∃ rest, s.rest = marker ++ rest
  | _ => True

theorem Marked.ofOutside {s : Lexer} (h : s.mode.inBlock = false) : s.Marked := by
  unfold Marked
  cases hmode : s.mode <;> simp [hmode, Mode.inBlock] at h ⊢

theorem marked_step {s : Lexer} (h : s.Marked) : s.step.2.Marked := by
  by_cases hmode : s.mode.inBlock = true
  · cases hblock : s.mode with
    | textBlock marker =>
      rw [Marked, hblock] at h
      rcases cut_textBlock hblock with ⟨size, rest, hrest, hcut⟩ | hcut
      · simp only [Marked, step, hcut, List.drop_zero]
        exact ⟨h, rest, hrest⟩
      · exact .ofOutside (by simp [step, hcut, faulty, Mode.inBlock])
    | textBlockEnd marker => exact .ofOutside (by simp [step, cut_textBlockEnd hblock, Mode.inBlock])
    | _ => simp [hblock, Mode.inBlock] at hmode
  · rcases (cut_data (by simpa using hmode)).mode with ⟨marker, hmarker, hnext, -⟩ | hnext
    · simpa only [Marked, step, hnext] using hmarker
    · exact .ofOutside hnext

theorem sealed_step {s : Lexer} (h : s.Marked) : s.step.1.Sealed := by
  by_cases hmode : s.mode.inBlock = true
  · cases hblock : s.mode with
    | textBlock marker =>
      rcases cut_textBlock hblock with ⟨size, rest, hrest, hcut⟩ | hcut
      · constructor <;> simp [step, hcut]
      · constructor <;> simp [step, hcut, faulty]
    | textBlockEnd marker =>
      rw [Marked, hblock] at h
      obtain ⟨hmarker, rest, hrest⟩ := h
      have hcut := cut_textBlockEnd hblock
      refine ⟨by simp [step, hcut], by simp [step, hcut], fun _ => ?_⟩
      obtain hnil | ⟨front, c, hconcat⟩ := List.eq_nil_or_concat' marker
      · exact absurd hnil hmarker.ne_nil
      · refine ⟨front, c, ?_, not_isBlank_of_isLetterOrDigit (hmarker.solid c (by simp [hconcat]))⟩
        have htext : s.step.1.text = marker := by simp [step, hcut, hrest]
        exact htext.trans hconcat
    | _ => simp [hblock, Mode.inBlock] at hmode
  · have hdata := cut_data (s := s) (by simpa using hmode)
    exact ⟨hdata.quoted, hdata.start, fun hkind => absurd hkind hdata.inside.2⟩

/-- tokens inside a text block come without a gap -/
theorem start_of_gap {s : Lexer} (h : s.cut.gap = 0) : s.step.1.span.start = s.offset := by
  simp [step, h]

theorem offset_of_slack {s : Lexer} (h : s.cut.slack = 0) : s.step.2.offset = s.step.1.span.stop := by
  simp [step, h]

theorem step_of_textBlock {s : Lexer} {marker : List Char} (h : s.cut.mode = .textBlock marker) :
    s.cut.kind = .textBlockStart ∧ s.cut.slack = 0 := by
  cases hmode : s.mode with
  | textBlock marker =>
    rcases cut_textBlock hmode with ⟨size, rest, hrest, hcut⟩ | hcut <;> simp [hcut, faulty] at h
  | textBlockEnd marker => simp [cut_textBlockEnd hmode] at h
  | _ =>
    rcases (cut_data (s := s) (by simp [hmode, Mode.inBlock])).mode with ⟨_, -, -, hstart⟩ | hout
    · exact hstart
    · simp [h, Mode.inBlock] at hout

theorem step_of_textBlockEnd {s : Lexer} {marker : List Char} (h : s.cut.mode = .textBlockEnd marker) :
    s.cut.kind = .textBlockBody ∧ s.cut.slack = 0 := by
  cases hmode : s.mode with
  | textBlock marker =>
    rcases cut_textBlock hmode with ⟨size, rest, hrest, hcut⟩ | hcut
    · simp [hcut]
    · simp [hcut, faulty] at h
  | textBlockEnd marker => simp [cut_textBlockEnd hmode] at h
  | _ =>
    rcases (cut_data (s := s) (by simp [hmode, Mode.inBlock])).mode with ⟨_, -, hstart, -⟩ | hout
    · simp [h] at hstart
    · simp [h, Mode.inBlock] at hout

/-- the token after another one -/
theorem glued_step (s : Lexer) : Glued s.step.1 s.step.2.step.1 := by
  cases hmode : s.cut.mode with
  | textBlock marker =>
    obtain ⟨hkind, hslack⟩ := step_of_textBlock hmode
    rcases cut_textBlock (s := s.step.2) hmode with ⟨size, rest, -, hcut⟩ | hcut
    · have hstart : s.step.2.step.1.span.start = s.step.1.span.stop :=
        (start_of_gap (by rw [hcut])).trans (offset_of_slack hslack)
      have hbody : s.step.2.step.1.kind = .textBlockBody := congrArg Cut.kind hcut
      exact ⟨fun _ => ⟨hkind, hstart⟩, fun h => absurd (hbody.symm.trans h) (by simp)⟩
    · have hfaulty : s.step.2.step.1.kind = .unknown := congrArg Cut.kind hcut
      exact ⟨fun h => absurd (hfaulty.symm.trans h) (by simp), fun h => absurd (hfaulty.symm.trans h) (by simp)⟩
  | textBlockEnd marker =>
    obtain ⟨hkind, hslack⟩ := step_of_textBlockEnd hmode
    have hcut := cut_textBlockEnd (s := s.step.2) hmode
    have hstart : s.step.2.step.1.span.start = s.step.1.span.stop :=
      (start_of_gap (by rw [hcut])).trans (offset_of_slack hslack)
    have hstop : s.step.2.step.1.kind = .textBlockEnd := congrArg Cut.kind hcut
    exact ⟨fun h => absurd (hstop.symm.trans h) (by simp), fun _ => ⟨hkind, hstart⟩⟩
  | _ =>
    have hinside := (cut_data (s := s.step.2) (by simp [step, hmode, Mode.inBlock])).inside
    exact ⟨fun h => absurd h hinside.1, fun h => absurd h hinside.2⟩

end Lexer

namespace Stream

/-- **No literal of a text starts or ends with a blank.** -/
theorem sealed_ofText (text : List Char) : ∀ t ∈ (ofText text).ahead, t.Sealed :=
  forall_ofText (fun _ h => ⟨Lexer.sealed_step h, Lexer.marked_step h⟩) (.ofOutside rfl)

/-- **The tokens of a text block follow each other without a gap.** -/
theorem glued_ofText (text : List Char) : (ofText text).ahead.IsChain Glued := isChain_ofText Lexer.glued_step text

end Stream

/-! ## Source text of tokens -/

namespace Tiled

variable {whole : Prop} {text : List Char} {front back : List Token}

/-- the source text of a token is its own -/
theorem slice_token {t : Token} (h : Tiled whole 0 text (front ++ t :: back)) : slice text t.span = t.text := by
  obtain ⟨before, after, rfl, ht⟩ := h.right
  cases ht with
  | @token _ gap rest _ _ blank span apart tail =>
    have hsplit : before ++ (gap ++ t.text ++ rest) = (before ++ gap) ++ t.text ++ rest := by simp
    rw [hsplit]
    exact slice_append (by simp [span]) (by simp [span])

/-- the source text of three tokens without gaps between them -/
theorem slice_glued {t u w : Token} (h : Tiled whole 0 text (front ++ t :: u :: w :: back)) (hu : u.span.start = t.span.stop)
    (hw : w.span.start = u.span.stop) : slice text ⟨t.span.start, w.span.stop⟩ = t.text ++ u.text ++ w.text := by
  obtain ⟨before, after, rfl, ht⟩ := h.right
  cases ht with
  | @token _ gap rest _ _ blank span apart tail =>
    cases tail with
    | @token _ gap₁ rest _ _ blank₁ span₁ apart₁ tail =>
      cases tail with
      | @token _ gap₂ rest _ _ blank₂ span₂ apart₂ tail =>
        have hnone (offset : Nat) {gap : List Char} (h : offset + byteLength gap = offset) : gap = [] := by
          by_contra hne
          have := byteLength_pos_of_ne_nil hne
          omega
        obtain rfl : gap₁ = [] := hnone t.span.stop (by rw [span₁] at hu; exact hu)
        obtain rfl : gap₂ = [] := hnone u.span.stop (by rw [span₂] at hw; exact hw)
        have hsplit : before ++ (gap ++ t.text ++ ([] ++ u.text ++ ([] ++ w.text ++ rest))) =
            (before ++ gap) ++ (t.text ++ u.text ++ w.text) ++ rest := by simp
        rw [hsplit]
        exact slice_append (by simp [span]) (by simp [span₂, span₁, span, Nat.add_assoc])

end Tiled

end LpcStyle
