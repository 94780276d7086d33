import Mathlib.Tactic
import LpcStyle.Proofs.Text.Sieve
import LpcStyle.Proofs.Token.Progress

/-!
The tokens of a text lie on it one after the other, with nothing but blanks around them. Main statements:
- `tiled_ofText`: the tokens of every text tile it, up to its end or to where a call breaks off;
- `spelt_step_iff`: a token is spelled as its kind says just if it is no stray end of a closure;
- `spelt_ofText`: all tokens are, if the blanks of the text are the ones that the lexer skips;
- `slice_pair`, `slice_gap`, `words_slice`: what the source text between two tokens is.
-/

namespace LpcStyle

open Text Pattern

/-- tokens lie one after the other on a text that starts at an offset, and if they are those of the whole text, nothing but
blanks is behind them. No letter or digit follows a type word -/
inductive Tiled (whole : Prop) : Nat → List Char → List Token → Prop where
  | done {offset : Nat} {rest : List Char} (blank : whole → ∀ c ∈ rest, isBlank c = true) : Tiled whole offset rest []
  | token {offset : Nat} {gap rest : List Char} {t : Token} {ts : List Token} (blank : ∀ c ∈ gap, isBlank c = true)
      (span : t.span = ⟨offset + byteLength gap, offset + byteLength gap + byteLength t.text⟩)
      (apart : t.kind = .typeWord → ∀ c ∈ rest.head?, isLetterOrDigit c = false) (tail : Tiled whole t.span.stop rest ts) :
      Tiled whole offset (gap ++ t.text ++ rest) (t :: ts)

namespace Tiled

variable {whole : Prop} {offset : Nat} {rest : List Char} {ts us : List Token}

/-- blanks before the first token belong to its gap -/
theorem blanks {gap : List Char} (hgap : ∀ c ∈ gap, isBlank c = true) (h : Tiled whole (offset + byteLength gap) rest ts) :
    Tiled whole offset (gap ++ rest) ts := by
  cases h with
  | done blank => exact .done fun hwhole => List.forall_mem_append.2 ⟨hgap, blank hwhole⟩
  | token blank span apart tail =>
    rw [← List.append_assoc, ← List.append_assoc]
    exact .token (List.forall_mem_append.2 ⟨hgap, blank⟩) (by simp [span, Nat.add_assoc]) apart tail

/-- tokens that are blank themselves may be left out -/
theorem filter {p : Token → Bool} (hp : ∀ t ∈ ts, p t = false → ∀ c ∈ t.text, isBlank c = true)
    (h : Tiled whole offset rest ts) : Tiled whole offset rest (ts.filter p) := by
  induction h with
  | done blank => exact .done blank
  | @token offset gap rest t ts blank span apart tail ih =>
    obtain ⟨ht, hts⟩ := List.forall_mem_cons.1 hp
    cases hkeep : p t with
    | true =>
      rw [List.filter_cons_of_pos hkeep]
      exact .token blank span apart (ih hts)
    | false =>
      rw [List.filter_cons_of_neg (by simp [hkeep])]
      refine blanks (List.forall_mem_append.2 ⟨blank, ht hkeep⟩) ?_
      simpa [span, Nat.add_assoc] using ih hts

/-- the text without what a sieve leaves out is that of its tokens -/
theorem sift (v : Sieve) (hwhole : whole) (h : Tiled whole offset rest ts) : v.sift rest = ts.flatMap fun t => v.sift t.text := by
  induction h with
  | done blank => simp [v.sift_blanks (blank hwhole)]
  | token blank span apart tail ih => simp [v.sift_blanks blank, ih]

/-- later tokens tile a later part of the text -/
theorem right (h : Tiled whole offset rest (ts ++ us)) :
    ∃ before after, rest = before ++ after ∧ Tiled whole (offset + byteLength before) after us := by
  induction ts generalizing offset rest with
  | nil => exact ⟨[], rest, rfl, by simpa using h⟩
  | cons t ts ih =>
    rw [List.cons_append] at h
    cases h with
    | @token _ gap rest _ _ blank span apart tail =>
      obtain ⟨before, after, rfl, hafter⟩ := ih tail
      refine ⟨gap ++ t.text ++ before, after, by simp, ?_⟩
      simpa [span, Nat.add_assoc] using hafter

/-- a token ends inside the text -/
theorem stop_of_mem {u : Token} (hu : u ∈ ts) (h : Tiled whole offset rest ts) :
    ∃ part after, rest = part ++ after ∧ offset + byteLength part = u.span.stop := by
  induction h with
  | done => simp at hu
  | @token offset gap rest t ts blank span apart tail ih =>
    rcases List.mem_cons.1 hu with rfl | hu
    · exact ⟨gap ++ u.text, rest, rfl, by simp [span, Nat.add_assoc]⟩
    · obtain ⟨part, after, rfl, hpart⟩ := ih hu
      refine ⟨gap ++ t.text ++ part, after, by simp, ?_⟩
      rw [← hpart, span]
      simp [Nat.add_assoc]

/-! ## Source text between tokens -/

variable {text : List Char} {front back : List Token}

theorem slice_append {before part after : List Char} {span : Span} (hstart : byteLength before = span.start)
    (hstop : span.start + byteLength part = span.stop) : slice (before ++ part ++ after) span = part := by
  rw [slice, slice?_eq_some_iff.2 ⟨before, after, rfl, hstart, hstop⟩, Option.getD_some]

/-- from the start of a token to the end of the next one -/
theorem slice_pair {t u : Token} (h : Tiled whole 0 text (front ++ t :: u :: back)) :
    ∃ gap, (∀ c ∈ gap, isBlank c = true) ∧ slice text ⟨t.span.start, u.span.stop⟩ = t.text ++ gap ++ u.text := by
  obtain ⟨before, after, rfl, ht⟩ := h.right
  cases ht with
  | @token _ gap rest _ _ blank span apart tail =>
    cases tail with
    | @token _ gap' rest _ _ blank' span' apart' tail =>
      refine ⟨gap', blank', ?_⟩
      have hsplit : before ++ (gap ++ t.text ++ (gap' ++ u.text ++ rest)) =
          (before ++ gap) ++ (t.text ++ gap' ++ u.text) ++ rest := by simp
      rw [hsplit]
      exact slice_append (by simp [span]) (by simp [span', span, Nat.add_assoc])

/-- from the end of a token to the start of the second one after it -/
theorem slice_gap {t u w : Token} (h : Tiled whole 0 text (front ++ t :: u :: w :: back)) :
    ∃ gap gap', (∀ c ∈ gap, isBlank c = true) ∧ (∀ c ∈ gap', isBlank c = true) ∧
      slice text ⟨t.span.stop, w.span.start⟩ = gap ++ u.text ++ gap' := by
  obtain ⟨before, after, rfl, ht⟩ := h.right
  cases ht with
  | @token _ gap₀ rest _ _ blank₀ span₀ apart₀ tail =>
    cases tail with
    | @token _ gap rest _ _ blank span apart tail =>
      cases tail with
      | @token _ gap' rest _ _ blank' span' apart' tail =>
        refine ⟨gap, gap', blank, blank', ?_⟩
        have hsplit : before ++ (gap₀ ++ t.text ++ (gap ++ u.text ++ (gap' ++ w.text ++ rest))) =
            (before ++ gap₀ ++ t.text) ++ (gap ++ u.text ++ gap') ++ (w.text ++ rest) := by simp
        rw [hsplit]
        exact slice_append (by simp [span₀, Nat.add_assoc]) (by simp [span', span, Nat.add_assoc])

/-- the first word of a text that starts with a word and a blank -/
theorem head_words {word rest : List Char} {c : Char} (hword : word ≠ []) (hplain : ∀ d ∈ word, isBlank d = false)
    (hc : isBlank c = true) : (words (word ++ c :: rest)).head? = some word := by
  have hsplit : splitOn isBlank (word ++ c :: rest) = word :: splitOn isBlank rest := by
    clear hword
    induction word with
    | nil =>
      cases hrest : splitOn isBlank rest with
      | nil => exact absurd hrest (splitOn_ne_nil _ _)
      | cons piece pieces => simp [splitOn, hrest, hc]
    | cons d word ih =>
      obtain ⟨hd, hplain⟩ := List.forall_mem_cons.1 hplain
      simp [splitOn, ih hplain, hd]
  rw [words, hsplit, List.filter_cons_of_pos (by simpa using hword), List.head?_cons]

/-- a type word before a name is the first word of the source text from it on -/
theorem words_slice {t name u : Token} (h : Tiled whole 0 text (front ++ t :: name :: back)) (hu : u ∈ back)
    (htype : t.kind = .typeWord) (hne : t.text ≠ []) (hplain : ∀ c ∈ t.text, isBlank c = false)
    (hname : Spelt .name name.text) : (words (slice text ⟨t.span.start, u.span.stop⟩)).head? = some t.text := by
  obtain ⟨before, after, rfl, ht⟩ := h.right
  cases ht with
  | @token _ gap rest _ _ blank span apart tail =>
    cases tail with
    | @token _ gap' rest _ _ blank' span' apart' tail =>
      obtain ⟨part, after, rfl, hpart⟩ := stop_of_mem hu tail
      have hsplit : before ++ (gap ++ t.text ++ (gap' ++ name.text ++ (part ++ after))) =
          (before ++ gap) ++ (t.text ++ gap' ++ name.text ++ part) ++ after := by simp
      rw [hsplit, slice_append (by simp [span]) (by simp [← hpart, span', span, Nat.add_assoc])]
      obtain ⟨c, cs, hc, hletter⟩ := hname.starts
      obtain _ | ⟨b, bs⟩ := gap'
      · -- without a gap the name would go on with the word
        have := apart htype c (by simp [hc])
        simp [isLetterOrDigit_of_isLetter hletter] at this
      · rw [List.append_assoc, List.append_assoc, List.cons_append]
        exact head_words hne hplain (blank' b List.mem_cons_self)

end Tiled

/-! ## Reading -/

namespace Lexer

/-- what holds of a cut in every mode -/
structure Sound (s : Lexer) (cut : Cut) : Prop where
  gap : ∀ c ∈ s.rest.take cut.gap, isBlank c = true
  slack : ∀ c ∈ ((s.rest.drop cut.gap).drop cut.size).take cut.slack, isBlank c = true
  stop : cut.kind = .endOfFile → s.rest.drop cut.gap = []
  apart : cut.kind = .typeWord → ∀ c ∈ ((s.rest.drop cut.gap).drop cut.size).head?, isLetterOrDigit c = false
  spelt : cut.Spells (s.rest.drop cut.gap) ∨ cut.Strays (s.rest.drop cut.gap)

/-- a cut without gap and slack, of a kind that allows any text -/
theorem Sound.ofFree {s : Lexer} {cut : Cut} (hgap : cut.gap = 0) (hslack : cut.slack = 0)
    (hkind : cut.kind ≠ .endOfFile ∧ cut.kind ≠ .typeWord) (hspelt : ∀ text, Spelt cut.kind text) : Sound s cut where
  gap := by simp [hgap]
  slack := by simp [hslack]
  stop h := absurd h hkind.1
  apart h := absurd h hkind.2
  spelt := .inl (hspelt _)

/-- **Every cut is sound**: it skips blanks only, and what it takes is spelled as its kind says, or is a stray end of a closure. -/
theorem cut_sound (s : Lexer) : Sound s s.cut := by
  have hblanks : ∀ c ∈ s.rest.take (run isGapOrLineFeed s.rest), isBlank c = true :=
    fun c hc => isBlank_of_isGapOrLineFeed (of_mem_take_run hc)
  have hgap : ∀ c ∈ s.rest.take (run isGap s.rest), isBlank c = true :=
    fun c hc => isBlank_of_isGap (of_mem_take_run hc)
  have hcase := s.cut_cases
  generalize s.cut = cut at hcase ⊢
  cases hcase with
  | blankLines => exact ⟨by simp, by simp, by simp, by simp, .inl (by simpa [Cut.Spells] using hblanks)⟩
  | endOfFile hmode hahead => exact ⟨hblanks, by simp, fun _ => hahead, by simp, .inl (by simp [Cut.Spells])⟩
  | token hmode hahead htoken =>
    have hadvances := htoken.advances
    refine ⟨hblanks, by simp [hadvances.slack], fun h => absurd h hadvances.kind, fun h => ?_, ?_⟩
    · simpa [hahead] using hadvances.apart h
    · simp only [hahead]
      exact htoken.spells
  | key => exact ⟨hgap, by simp, by simp, by simp, .inl (by simp [Cut.Spells])⟩
  | line hmode hline =>
    have hspec := hline.spec
    exact ⟨hspec.gap ▸ hgap, hspec.slack, fun h => absurd h hspec.kind.1, fun h => absurd h hspec.kind.2, .inl hspec.spells⟩
  | body | marker => exact .ofFree rfl rfl (by simp) (by simp)
  | unclosed => exact .ofFree rfl rfl (by simp [faulty]) (by simp [faulty])

/-- a token is spelled as its kind says just if it is no stray end of a closure -/
theorem spelt_step_iff (s : Lexer) :
    Spelt s.step.1.kind s.step.1.text ↔ ¬StrayEnd s.step.1.kind s.step.1.text s.step.2.rest := by
  refine ⟨fun hspelt hstray => hstray.not_spelt hspelt, fun hnone => ?_⟩
  rcases (cut_sound s).spelt with hspelt | ⟨hslack, hstray⟩
  · exact hspelt
  · refine absurd ?_ hnone
    simpa only [step, hslack, List.drop_zero] using hstray

/-- among plain blanks no end of a closure is stray -/
theorem spelt_step (s : Lexer) (h : PlainBlanks s.rest) : Spelt s.step.1.kind s.step.1.text := by
  refine s.spelt_step_iff.2 fun hstray => ?_
  obtain ⟨gap, c, htext, -, hblank, hother⟩ := hstray.taken
  have hc : c ∈ (s.rest.drop s.cut.gap).take s.cut.size := by
    change c ∈ s.step.1.text
    simp [htext]
  exact absurd (h c (List.mem_of_mem_drop (List.mem_of_mem_take hc)) hblank) (by simp [hother])

/-- one step of reading a tiled text -/
theorem tiled_step (s : Lexer) {whole : Prop} {ts : List Token} (h : Tiled whole s.step.2.offset s.step.2.rest ts) :
    Tiled whole s.offset s.rest (s.step.1 :: ts) := by
  have hcut := cut_sound s
  have hsplit := s.take_append_step
  rw [List.append_assoc _ _ s.step.2.rest] at hsplit
  rw [← hsplit]
  refine .token hcut.gap rfl (fun hkind c hc => hcut.apart hkind c ?_) (.blanks hcut.slack h)
  rw [← List.take_append_drop s.cut.slack ((s.rest.drop s.cut.gap).drop s.cut.size)]
  exact hc

end Lexer

namespace Stream

/-- the tokens read up to the end of the file tile the text -/
theorem tiled_read {fuel : Nat} {s : Lexer} (h : (read fuel s).eof.kind = .endOfFile) :
    Tiled (¬(read fuel s).Stalled) s.offset s.rest (read fuel s).ahead := by
  have hend {s : Lexer} (h : s.issue.1.kind = .endOfFile) : Tiled (¬Stalled ⟨[], s.issue.1⟩) s.offset s.rest [] := by
    refine .done fun hgoes c hc => s.cut_sound.gap c ?_
    have hadvances : s.Advances := by
      by_contra hstays
      exact hgoes (by rw [Lexer.issue_of_not_advances hstays]; rfl)
    rw [Lexer.issue_of_advances hadvances] at h
    rw [← List.take_append_drop s.cut.gap s.rest, s.cut_sound.stop h, List.append_nil] at hc
    exact hc
  induction fuel generalizing s with
  | zero => exact hend h
  | succ fuel ih =>
    simp only [read] at h ⊢
    split at h
    · next hkind =>
      rw [if_pos hkind]
      exact hend hkind
    · next hkind =>
      rw [if_neg hkind, Lexer.issue_of_ne hkind] at *
      exact s.tiled_step (ih h)

/-- **The tokens of a text tile it**, up to its end unless a call breaks off. -/
theorem tiled_ofText (text : List Char) : Tiled (¬(ofText text).Stalled) 0 text (ofText text).ahead := by
  have heof := eof_ofText text
  unfold ofText at heof ⊢
  exact tiled_read heof

/-- **Every token of a text is spelled as its kind says**, if the blanks of the text are plain. -/
theorem spelt_ofText {text : List Char} (h : PlainBlanks text) : ∀ t ∈ (ofText text).ahead, Spelt t.kind t.text :=
  forall_ofText (P := fun s => PlainBlanks s.rest) (fun s hs => ⟨s.spelt_step hs, ((hs.drop _).drop _).drop _⟩) h

end Stream

end LpcStyle
