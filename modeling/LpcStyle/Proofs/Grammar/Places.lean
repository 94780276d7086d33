import Mathlib.Tactic
import LpcStyle.Proofs.Grammar.Reads
import LpcStyle.Proofs.Text.Words
import LpcStyle.Proofs.Token.Linked

/-!
Places among the significant tokens of a text, counted from its start. `place text k` is the token at a place, and
`edge text k` is where it starts, so that what is read between two places lies between their edges (`Span.Within`).
-/

namespace LpcStyle

open Text Pattern

/-- no comment among the tokens of a text -/
def Quiet (text : List Char) : Prop := ∀ t ∈ (Stream.ofText text).ahead, t.kind.isComment = false

/-- the significant tokens of a text -/
def row (text : List Char) : List Token := significant (Stream.ofText text).ahead

/-- the significant token at a place, the end of the file behind all of them -/
def place (text : List Char) (k : Nat) : Token := (row text).getD k (Stream.ofText text).eof

/-- the offset at which the token at a place starts -/
def edge (text : List Char) (k : Nat) : Nat := ((row text)[k]?.map (·.span.start)).getD (byteLength text)

variable {text : List Char} {i j k m : Nat}

theorem lt_length_of_place (h : (place text k).kind ≠ .endOfFile) : k < (row text).length := by
  by_contra hk
  have hend : place text k = (Stream.ofText text).eof := by simp [place, List.getD, Nat.le_of_not_lt hk]
  exact h (by rw [hend, Stream.eof_ofText])

theorem place_of_lt (h : k < (row text).length) : (row text)[k]? = some (place text k) := by
  simp [place, List.getD, h]

theorem drop_row (h : k < (row text).length) : (row text).drop k = place text k :: (row text).drop (k + 1) := by
  rw [List.drop_eq_getElem_cons h]
  simp [place, List.getD, h]

theorem place_mem (h : k < (row text).length) : place text k ∈ (Stream.ofText text).ahead :=
  List.mem_of_mem_filter (List.mem_of_getElem? (place_of_lt h))

/-- the token at a place is neither a comment nor a blank line -/
theorem place_isTrivia (k : Nat) : (place text k).kind.isTrivia = false := by
  by_cases h : k < (row text).length
  · simpa using (List.mem_filter.1 (List.mem_of_getElem? (place_of_lt h))).2
  · have hend : place text k = (Stream.ofText text).eof := by simp [place, List.getD, Nat.le_of_not_lt h]
    rw [hend, Stream.eof_ofText]
    rfl

theorem place_isComment (k : Nat) : (place text k).kind.isComment = false := by
  have h : (place text k).kind.isTrivia = false := place_isTrivia k
  rw [Kind.isTrivia, Bool.or_eq_false_iff] at h
  exact h.1

theorem place_ne_blankLines (k : Nat) : (place text k).kind ≠ .blankLines := by
  intro h
  have : (place text k).kind.isTrivia = false := place_isTrivia k
  rw [h] at this
  cases this

/-- the tokens that follow each other, up to the end of the file -/
theorem linked_next {t : Token} {ts : List Token} (h : t :: ts <:+ (Stream.ofText text).ahead) :
    Linked t (ts.headD (Stream.ofText text).eof) := by
  cases ts with
  | nil =>
    rw [List.headD_nil]
    constructor <;> intro _ <;> simp [Stream.eof_ofText]
  | cons u us => exact (List.isChain_cons_cons.1 ((Stream.linked_ofText text).suffix h)).1

/-! ## Edges -/

/-- tokens that tile a text come in order and lie inside it -/
theorem Tiled.ordered {whole : Prop} {offset : Nat} {rest : List Char} {ts : List Token} (h : Tiled whole offset rest ts) :
    ts.Pairwise (fun t u => t.span.stop ≤ u.span.start) ∧
      ∀ t ∈ ts, offset ≤ t.span.start ∧ t.span.start ≤ t.span.stop ∧ t.span.stop ≤ offset + byteLength rest := by
  induction h with
  | done => simp
  | @token offset gap rest t ts blank span apart tail ih =>
    obtain ⟨hpairwise, hinside⟩ := ih
    have hstart : t.span.start = offset + byteLength gap := by rw [span]
    have hstop : t.span.stop = offset + byteLength gap + byteLength t.text := by rw [span]
    refine ⟨List.pairwise_cons.2 ⟨fun u hu => (hinside u hu).1, hpairwise⟩, List.forall_mem_cons.2 ⟨?_, fun u hu => ?_⟩⟩
    · simp only [byteLength_append]
      omega
    · have := hinside u hu
      simp only [byteLength_append]
      omega

/-- a token is as long as its text -/
theorem Tiled.stop_eq {whole : Prop} {offset : Nat} {rest : List Char} {ts : List Token} (h : Tiled whole offset rest ts) :
    ∀ t ∈ ts, t.span.stop = t.span.start + byteLength t.text := by
  induction h with
  | done => simp
  | token _ span _ _ ih => exact List.forall_mem_cons.2 ⟨by rw [span], ih⟩

theorem stop_place (h : k < (row text).length) :
    (place text k).span.stop = (place text k).span.start + byteLength (place text k).text :=
  (Stream.tiled_ofText text).stop_eq _ (place_mem h)

theorem ordered_row (text : List Char) : (row text).Pairwise (fun t u => t.span.stop ≤ u.span.start) ∧
    ∀ t ∈ row text, t.span.start ≤ t.span.stop ∧ t.span.stop ≤ byteLength text := by
  obtain ⟨hpairwise, hinside⟩ := (Stream.tiled_ofText text).ordered
  refine ⟨hpairwise.sublist List.filter_sublist, fun t ht => ?_⟩
  simpa using (hinside t (List.mem_of_mem_filter ht)).2

/-- a token ends before every later place -/
theorem stop_le_edge (hi : i < (row text).length) (hij : i < j) : (place text i).span.stop ≤ edge text j := by
  obtain ⟨hpairwise, hinside⟩ := ordered_row text
  have hget := place_of_lt hi
  by_cases hj : j < (row text).length
  · rw [edge, place_of_lt hj, Option.map_some, Option.getD_some]
    have hlater := List.pairwise_iff_getElem.1 hpairwise i j hi hj hij
    rwa [(List.getElem?_eq_some_iff.1 hget).2, (List.getElem?_eq_some_iff.1 (place_of_lt hj)).2] at hlater
  · rw [edge, List.getElem?_eq_none (Nat.le_of_not_lt hj)]
    exact (hinside _ (List.mem_of_getElem? hget)).2

theorem start_eq_edge (h : k < (row text).length) : (place text k).span.start = edge text k := by
  rw [edge, place_of_lt h, Option.map_some, Option.getD_some]

theorem edge_mono (h : i ≤ j) : edge text i ≤ edge text j := by
  rcases Nat.eq_or_lt_of_le h with rfl | h
  · exact le_rfl
  · by_cases hi : i < (row text).length
    · rw [← start_eq_edge hi]
      exact ((ordered_row text).2 _ (List.mem_of_getElem? (place_of_lt hi))).1.trans (stop_le_edge hi h)
    · have hnone (n : Nat) (hn : (row text).length ≤ n) : edge text n = byteLength text := by
        rw [edge, List.getElem?_eq_none hn]
        rfl
      rw [hnone i (by omega), hnone j (by omega)]

/-- from the start of a type word to the end of the next token, which no letter or digit of the latter stands right behind -/
theorem Tiled.slice_pair_apart {whole : Prop} {t u : Token} {front back : List Token} (h : Tiled whole 0 text (front ++ t :: u :: back))
    (htype : t.kind = .typeWord) : ∃ gap, (∀ c ∈ gap, isBlank c = true) ∧
      (∀ c ∈ (gap ++ u.text).head?, isLetterOrDigit c = false) ∧
      slice text ⟨t.span.start, u.span.stop⟩ = t.text ++ gap ++ u.text := by
  obtain ⟨before, after, rfl, ht⟩ := h.right
  cases ht with
  | @token _ gap rest _ _ blank span apart tail =>
    cases tail with
    | @token _ gap' rest _ _ blank' span' apart' tail =>
      refine ⟨gap', blank', fun c hc => apart htype c ?_, ?_⟩
      · simp only [List.head?_append, Option.mem_def] at hc ⊢
        rw [hc, Option.some_or]
      · have hsplit : before ++ (gap ++ t.text ++ (gap' ++ u.text ++ rest)) =
            (before ++ gap) ++ (t.text ++ gap' ++ u.text) ++ rest := by simp
        rw [hsplit]
        exact slice_append (by simp [span]) (by simp [span', span, Nat.add_assoc])

/-- the span lies between the edges of two places -/
structure Text.Span.Within (text : List Char) (i j : Nat) (s : Span) : Prop where
  start : edge text i ≤ s.start
  ordered : s.start ≤ s.stop
  stop : s.stop ≤ edge text j

namespace Text.Span.Within

variable {s t : Span}

theorem widen (h : s.Within text i j) (hi : m ≤ i) (hj : j ≤ k) : s.Within text m k :=
  ⟨(edge_mono hi).trans h.start, h.ordered, h.stop.trans (edge_mono hj)⟩

/-- from the start of one to the end of a later one -/
theorem onward (hs : s.Within text i j) (ht : t.Within text m k) (hjm : j ≤ m) :
    (⟨s.start, t.stop⟩ : Span).Within text i k where
  start := hs.start
  ordered := by
    have := hs.ordered
    have := hs.stop
    have := ht.start
    have := ht.ordered
    have : edge text j ≤ edge text m := edge_mono hjm
    change s.start ≤ t.stop
    omega
  stop := ht.stop

theorem ofPlace (h : k < (row text).length) : (place text k).span.Within text k (k + 1) :=
  ⟨(start_eq_edge h).ge, ((ordered_row text).2 _ (List.mem_of_getElem? (place_of_lt h))).1,
    stop_le_edge h (Nat.lt_succ_self k)⟩

end Text.Span.Within

/-! ## Source text -/

/-- the significant tokens tile a text without comments -/
theorem tiled_row (hquiet : Quiet text) : Tiled (¬(Stream.ofText text).Stalled) 0 text (row text) := by
  refine (Stream.tiled_ofText text).filter fun t ht htrivia => ?_
  refine (Stream.wordy_ofText text t ht).blank ?_
  simpa [Kind.isTrivia, hquiet t ht] using htrivia

theorem row_eq_append (h : k < (row text).length) :
    row text = (row text).take k ++ place text k :: (row text).drop (k + 1) := by
  rw [← drop_row h, List.take_append_drop]

/-- the source text of a token is its own -/
theorem slice_place (hquiet : Quiet text) (h : k < (row text).length) :
    slice text (place text k).span = (place text k).text := by
  have htiled := tiled_row hquiet
  rw [row_eq_append h] at htiled
  exact htiled.slice_token

/-- **The source text of a type word and the name after it** has the words of both. -/
theorem words_slice_place (hquiet : Quiet text) (h : k + 1 < (row text).length)
    (htype : (place text k).kind = .typeWord) (hname : (place text (k + 1)).kind = .name) :
    words (slice text ⟨(place text k).span.start, (place text (k + 1)).span.stop⟩) =
      words (place text k).text ++ words (place text (k + 1)).text := by
  have htiled := tiled_row hquiet
  rw [row_eq_append (Nat.lt_of_succ_lt h), drop_row h] at htiled
  obtain ⟨c, rest, htext, hletter⟩ := (Stream.wordy_ofText text _ (place_mem h)).name hname
  obtain ⟨gap, hblank, hapart, hslice⟩ := htiled.slice_pair_apart htype
  rw [hslice]
  refine words_gap hblank ?_ _ _
  rintro rfl
  have := hapart c (by simp [htext])
  rw [isLetterOrDigit_of_isLetter hletter] at this
  cases this

/-! ## Reading -/

/-- reading stands before the token at a place, where at most blank lines are ahead of it -/
structure Reading.At (text : List Char) (k : Nat) (r : Reading) : Prop where
  source : r.source = text
  eof : r.eof = (Stream.ofText text).eof
  pending : r.pending = []
  held : ∀ t ∈ r.held, t.kind = .blankLines
  queue : r.held.toList ++ r.ahead <:+ (Stream.ofText text).ahead
  row : significant r.ahead = (row text).drop k
  le : k ≤ (LpcStyle.row text).length

namespace Reading.At

variable {r : Reading}

theorem ahead (h : r.At text k) : r.ahead <:+ (Stream.ofText text).ahead := (List.suffix_append _ _).trans h.queue

theorem settle (h : r.At text k) (hquiet : Quiet text) : r.settle.At text k where
  source := h.source
  eof := h.eof
  pending := by
    have hnone : ∀ t ∈ r.ahead.takeWhile (·.kind.isTrivia), t.kind.isComment = false := fun t ht =>
      hquiet t (h.ahead.mem ((List.takeWhile_sublist _).mem ht))
    simpa [Reading.settle, h.pending] using hnone
  held := by simp [Reading.settle]
  queue := (List.dropWhile_suffix _).trans h.ahead
  row := by rw [Reading.settle, significant_dropWhile, h.row]
  le := h.le

theorem raw_settle (h : r.At text k) : r.settle.raw = place text k := by
  have hhead : r.settle.raw = (significant r.ahead).headD r.eof := headD_dropWhile r.ahead r.eof
  rw [hhead, h.row, h.eof, place, List.getD_eq_getElem?_getD, List.headD_eq_head?_getD, List.head?_drop]

/-- what comes next is a blank line, or the token at the place -/
theorem raw (h : r.At text k) (hquiet : Quiet text) :
    r.raw.kind = .blankLines ∨ r.held = none ∧ r.raw = place text k := by
  cases hheld : r.held with
  | some t => exact .inl (by simpa [Reading.raw, hheld] using h.held t (by simp [hheld]))
  | none =>
    rw [← h.raw_settle]
    cases hahead : r.ahead with
    | nil => exact .inr ⟨rfl, by simp [Reading.raw, Reading.front, Reading.settle, hheld, hahead]⟩
    | cons t ts =>
      by_cases hblank : t.kind = .blankLines
      · exact .inl (by simpa [Reading.raw, Reading.front, hheld, hahead] using hblank)
      · have ht : t.kind.isTrivia = false := by
          simp [Kind.isTrivia, hquiet t (h.ahead.mem (by simp [hahead])), hblank]
        exact .inr ⟨rfl, by simp [Reading.raw, Reading.front, Reading.settle, hheld, hahead, ht]⟩

/-- no comment comes next -/
theorem raw_isComment (h : r.At text k) (hquiet : Quiet text) : r.raw.kind.isComment = false := by
  rcases h.raw hquiet with hblank | ⟨-, hplace⟩
  · rw [hblank]
    rfl
  · rw [hplace, place_isComment]

/-- blank lines may be dropped -/
theorem dropRaw_blank (h : r.At text k) (hblank : r.raw.kind = .blankLines) :
    r.dropRaw.At text k ∧ r.dropRaw.remaining < r.remaining := by
  cases hheld : r.held with
  | some t =>
    have hdrop : r.dropRaw = { r with held := none } := by simp [Reading.dropRaw, hheld]
    rw [hdrop]
    exact ⟨⟨h.source, h.eof, h.pending, by simp, h.ahead, h.row, h.le⟩, by simp [Reading.remaining, hheld]⟩
  | none =>
    have hdrop : r.dropRaw = { r with ahead := r.ahead.tail } := by simp [Reading.dropRaw, hheld]
    rw [hdrop]
    have hfront : r.front.kind = .blankLines := by simpa [Reading.raw, hheld] using hblank
    cases hahead : r.ahead with
    | nil =>
      rw [Reading.front, hahead, List.headD_nil, h.eof, Stream.eof_ofText] at hfront
      cases hfront
    | cons t ts =>
      have ht : t.kind = .blankLines := by simpa [Reading.front, hahead] using hfront
      have hrow := h.row
      have hqueue := h.ahead
      rw [hahead] at hrow hqueue
      refine ⟨⟨h.source, h.eof, h.pending, h.held, ?_, ?_, h.le⟩, by simp [Reading.remaining, hahead]⟩
      · simpa [hheld] using (List.suffix_cons t ts).trans hqueue
      · simpa [significant, isTrivia_of_blankLines ht] using hrow

/-- the token at the place is taken -/
theorem dropRaw (h : r.At text k) (hk : k < (LpcStyle.row text).length) (hheld : r.held = none)
    (hraw : r.raw = place text k) : r.dropRaw.At text (k + 1) := by
  have hdrop : r.dropRaw = { r with ahead := r.ahead.tail } := by simp [Reading.dropRaw, hheld]
  rw [hdrop]
  refine ⟨h.source, h.eof, h.pending, h.held, ?_, ?_, hk⟩
  · simpa [hheld] using (List.tail_suffix _).trans h.ahead
  · have hrow := h.row
    rw [drop_row hk] at hrow
    cases hahead : r.ahead with
    | nil => simp [hahead, significant] at hrow
    | cons t ts =>
      have ht : t = place text k := by simpa [Reading.raw, Reading.front, hheld, hahead] using hraw
      have htrivia : t.kind.isTrivia = false := ht ▸ place_isTrivia k
      rw [hahead, significant, List.filter_cons_of_pos (by simp [htrivia])] at hrow
      exact (List.cons.inj hrow).2

/-- the token after the one that is dropped -/
theorem linked_dropRaw (h : r.At text k) (hheld : r.held = none) (hne : r.raw.kind ≠ .endOfFile) :
    Linked r.raw r.dropRaw.raw := by
  cases hahead : r.ahead with
  | nil =>
    exfalso
    simp [Reading.raw, Reading.front, hheld, hahead, h.eof, Stream.eof_ofText] at hne
  | cons t ts =>
    have hsuffix := h.ahead
    rw [hahead] at hsuffix
    simpa [Reading.dropRaw, Reading.raw, Reading.front, hheld, hahead, h.eof] using linked_next hsuffix

/-- what is in front is the token at the place unless it is a blank line -/
theorem front (h : r.At text k) (hquiet : Quiet text) (hblank : r.front.kind ≠ .blankLines) :
    r.front = place text k := by
  rw [← h.raw_settle]
  cases hahead : r.ahead with
  | nil => simp [Reading.raw, Reading.front, Reading.settle, hahead]
  | cons t ts =>
    have ht : t.kind ≠ .blankLines := by simpa [Reading.front, hahead] using hblank
    have htrivia : t.kind.isTrivia = false := by simp [Kind.isTrivia, hquiet t (h.ahead.mem (by simp [hahead])), ht]
    simp [Reading.raw, Reading.front, Reading.settle, hahead, htrivia]

/-- once a blank line is held back, the token at the place is in front -/
theorem hold (h : r.At text k) (hquiet : Quiet text) {s : Reading}
    (hs : s = if r.held.isNone && r.front.kind = .blankLines then
      { r with held := some r.front, ahead := r.ahead.tail } else r) : s.At text k ∧ s.front = place text k := by
  have hboth (hat : s.At text k) (hblank : s.front.kind ≠ .blankLines) : s.At text k ∧ s.front = place text k :=
    ⟨hat, hat.front hquiet hblank⟩
  cases hheld : r.held with
  | some b =>
    simp only [hheld, Option.isNone_some, Bool.false_and, Bool.false_eq_true, if_false] at hs
    subst hs
    have hqueue := h.queue
    rw [hheld] at hqueue
    have hlinked := (linked_next hqueue).blank (.inl (h.held b (by simp [hheld])))
    exact hboth h (by rwa [Reading.front, h.eof])
  | none =>
    by_cases hblank : r.front.kind = .blankLines
    · simp only [hheld, hblank, decide_true, Option.isNone_none, Bool.and_self, if_true] at hs
      subst hs
      obtain ⟨t, ts, hahead⟩ : ∃ t ts, r.ahead = t :: ts := by
        refine List.exists_cons_of_ne_nil fun hnil => ?_
        simp [Reading.front, hnil, h.eof, Stream.eof_ofText] at hblank
      have ht : t.kind = .blankLines := by simpa [Reading.front, hahead] using hblank
      have hqueue := h.ahead
      have hrow := h.row
      rw [hahead] at hqueue hrow
      refine hboth ⟨h.source, h.eof, h.pending, ?_, ?_, ?_, h.le⟩ ?_
      · simpa [Reading.front, hahead] using ht
      · simpa [Reading.front, hahead] using hqueue
      · simpa [hahead, significant, isTrivia_of_blankLines ht] using hrow
      · simpa [Reading.front, hahead, h.eof] using (linked_next hqueue).blank (.inl ht)
    · simp only [hheld, hblank, decide_false, Bool.and_false, Bool.false_eq_true, if_false] at hs
      subst hs
      exact hboth h hblank

/-- later places leave fewer tokens to be read -/
theorem remaining_lt {s : Reading} (h : r.At text j) (hs : s.At text k) (hjk : j < k) : s.remaining < r.remaining := by
  have hremaining (r : Reading) : r.remaining = (r.held.toList ++ r.ahead).length := by
    simp [Reading.remaining, Nat.add_comm]
  have hsignificant {r : Reading} {k : Nat} (h : r.At text k) :
      significant (r.held.toList ++ r.ahead) = (LpcStyle.row text).drop k := by
    have hnone : significant r.held.toList = [] := by
      simpa [significant] using fun t ht => isTrivia_of_blankLines (h.held t ht)
    rw [← h.row, significant, List.filter_append]
    exact List.append_left_eq_self.2 hnone
  by_contra hle
  rw [hremaining, hremaining, Nat.not_lt] at hle
  have hsub := (List.suffix_of_suffix_length_le h.queue hs.queue hle).sublist.filter (!·.kind.isTrivia)
  have hlength := hsub.length_le
  change (significant _).length ≤ (significant _).length at hlength
  rw [hsignificant h, hsignificant hs, List.length_drop, List.length_drop] at hlength
  have := hs.le
  omega

end Reading.At

end LpcStyle
