import Mathlib.Tactic
import LpcStyle.Proofs.Token.Calls
import LpcStyle.Proofs.Token.Enclosures

/-!
Brackets that the lexer pairs: all but braces, which it does not keep account of. Its open brackets are those that the
tokens so far leave open, so a closing token closes the innermost of them, whatever the text. Main statement:
`brackets_pair`.
-/

namespace LpcStyle

open Text Pattern

variable {e f : Enclosure} {opened later rest : List Enclosure} {ts us : List Token} {k : Kind}

/-! ## Words of brackets -/

theorem WellNested.append {a b : List Mark} (ha : WellNested a) (hb : WellNested b) : WellNested (a ++ b) := by
  induction ha with
  | nil => exact hb
  | enclose e hinside _ _ ih =>
    rw [List.append_assoc, List.cons_append]
    exact .enclose e hinside ih

/-- a bracket among the brackets of tokens is one of the tokens -/
theorem marks_split {front back : List Mark} {m : Mark} (h : marks ts = front ++ m :: back) :
    ∃ before t after, ts = before ++ t :: after ∧ t.kind.bracket? = some m ∧ marks before = front ∧ marks after = back := by
  obtain ⟨before, us, rfl, hbefore, hus⟩ := List.filterMap_eq_append_iff.1 h
  obtain ⟨plain, t, after, rfl, hplain, ht, hafter⟩ := List.filterMap_eq_cons_iff.1 hus
  refine ⟨before ++ plain, t, after, by simp, ht, ?_, hafter⟩
  rw [marks, List.filterMap_append, hbefore, List.filterMap_eq_nil_iff.2 hplain, List.append_nil]

theorem Kind.turn_of_opens (h : k.bracket? = some (.opens e)) (opened : List Enclosure) :
    k.turn opened = some (e :: opened) := by
  simp [turn, h]

/-- a closing bracket closes what is open innermost, of its own construct -/
theorem Kind.turn_of_closes_iff (h : k.bracket? = some (.closes e)) : k.turn opened = some later ↔ opened = e :: later := by
  cases opened with
  | nil => simp [turn, h]
  | cons f opened =>
    simp only [turn, h, Option.ite_none_right_eq_some, Option.some.injEq, List.cons.injEq]
    constructor
    · rintro ⟨rfl, rfl⟩
      exact ⟨rfl, rfl⟩
    · rintro ⟨rfl, rfl⟩
      exact ⟨rfl, rfl⟩

/-- tokens with well-nested brackets leave open what is open -/
theorem nesting_of_wellNested (h : WellNested (marks ts)) (opened : List Enclosure) : nesting opened ts = some opened := by
  generalize hword : marks ts = word at h
  induction h generalizing ts opened with
  | nil => exact nesting_of_bracket_none (List.filterMap_eq_nil_iff.1 hword) opened
  | @enclose e inside after _ _ hinside hafter =>
    have hopens : marks ts = [] ++ _ := hword
    obtain ⟨before, o, us, rfl, ho, hbefore, hus⟩ := marks_split hopens
    obtain ⟨between, c, behind, rfl, hc, hbetween, hbehind⟩ := marks_split hus
    have hplain : nesting opened before = some opened :=
      nesting_of_bracket_none (List.filterMap_eq_nil_iff.1 hbefore) opened
    calc nesting opened (before ++ o :: (between ++ c :: behind))
        = nesting (e :: opened) (between ++ c :: behind) := by
          rw [nesting_append, hplain, Option.bind_some, nesting, Kind.turn_of_opens ho, Option.bind_some]
      _ = nesting opened behind := by
          rw [nesting_append, hinside _ hbetween, Option.bind_some, nesting, (Kind.turn_of_closes_iff hc).2 rfl,
            Option.bind_some]
      _ = some opened := hafter opened hbehind

/-- **What is open innermost has been opened by a token** with nothing but a well-nested word behind it. -/
theorem opener_of_nesting (h : nesting [] ts = some (e :: rest)) : ∃ front o between, ts = front ++ o :: between ∧
    o.kind.bracket? = some (.opens e) ∧ nesting [] front = some rest ∧ WellNested (marks between) := by
  induction hlength : ts.length using Nat.strong_induction_on generalizing ts e rest with
  | _ length ih =>
    rcases List.eq_nil_or_concat' ts with rfl | ⟨init, t, rfl⟩
    · cases h
    rw [nesting_append] at h
    obtain ⟨opened, hinit, ht⟩ := Option.bind_eq_some_iff.1 h
    obtain ⟨_, hturn, hend⟩ := Option.bind_eq_some_iff.1 ht
    cases hend
    rw [List.length_append, List.length_singleton] at hlength
    cases hbracket : t.kind.bracket? with
    | none =>
      rw [Kind.turn_of_bracket_none hbracket] at hturn
      cases hturn
      obtain ⟨front, o, between, rfl, ho, hfront, hbetween⟩ := ih _ (by omega) hinit rfl
      refine ⟨front, o, between ++ [t], by simp, ho, hfront, ?_⟩
      simpa [marks, hbracket] using hbetween
    | some m =>
      cases m with
      | opens f =>
        rw [Kind.turn_of_opens hbracket] at hturn
        cases hturn
        exact ⟨init, t, [], rfl, hbracket, hinit, .nil⟩
      | closes f =>
        -- what it closes was opened behind the opener that is sought
        obtain rfl := (Kind.turn_of_closes_iff hbracket).1 hturn
        obtain ⟨middle, p, inside, rfl, hp, hmiddle, hinside⟩ := ih _ (by omega) hinit rfl
        rw [List.length_append, List.length_cons] at hlength
        obtain ⟨front, o, between, rfl, ho, hfront, hbetween⟩ := ih _ (by omega) hmiddle rfl
        refine ⟨front, o, between ++ p :: inside ++ [t], by simp, ho, hfront, ?_⟩
        have hword : marks (between ++ p :: inside ++ [t]) = marks between ++ (.opens f :: marks inside ++ .closes f :: []) := by
          simp [marks, hp, hbracket]
        rw [hword]
        exact hbetween.append (.enclose f hinside .nil)

/-- a bracket stays open behind some tokens: none of them closes it, with a well-nested word before -/
def StaysOpen (e : Enclosure) (ts : List Token) : Prop :=
  ∀ between c after, ts = between ++ c :: after → c.kind.bracket? = some (.closes e) → ¬WellNested (marks between)

theorem staysOpen_of_wellNested (h : WellNested (marks ts)) (e : Enclosure) : StaysOpen e ts := by
  rintro between c after rfl hc hbetween
  have hall := nesting_of_wellNested h []
  rw [nesting_append, nesting_of_wellNested hbetween, Option.bind_some] at hall
  obtain ⟨later, hturn, -⟩ := Option.bind_eq_some_iff.1 hall
  cases (Kind.turn_of_closes_iff hc).1 hturn

/-- what is closed in the end does not stay open -/
theorem not_staysOpen_of_nesting (h : nesting (e :: opened) ts = some []) : ¬StaysOpen e ts := by
  obtain ⟨inside, after, hword, hinside, -⟩ := completes_of_nesting h
  obtain ⟨between, c, behind, hts, hc, rfl, -⟩ := marks_split hword
  intro hopen
  exact hopen between c behind hts hc hinside

/-! ## Cuts -/

/-- what stands between the brackets of a construct; the head of a `foreach` stands between parentheses -/
def Bracket.enclosure : Bracket → Enclosure
  | .array => .array
  | .mapping => .mapping
  | .paren | .foreach => .paren
  | .closure => .closure
  | .lambda => .lambda
  | .index => .index

def Kind.isBrace : Kind → Bool
  | .leftBrace | .rightBrace => true
  | _ => false

theorem Kind.bracket_of_isPlain {k : Kind} (h : k.isPlain = true) : k.bracket? = none := by
  cases k <;> simp [isPlain, bracket?] at h ⊢

/-- tokens that are no braces -/
def withoutBraces (ts : List Token) : List Token := ts.filter (!·.kind.isBrace)

/-- a cut opens and closes what its kind says, braces aside -/
def Cut.Pairs (brackets : List Bracket) (cut : Cut) : Prop :=
  cut.kind.isBrace = true ∧ cut.brackets = brackets ∨
    cut.kind.isBrace = false ∧ cut.kind.turn (brackets.map Bracket.enclosure) = some (cut.brackets.map Bracket.enclosure)

namespace Cut.Pairs

variable {brackets : List Bracket} {cut : Cut}

/-- a cut of any other kind leaves open what is open -/
theorem other (hkind : cut.kind.bracket? = none) (hbrackets : cut.brackets = brackets) : cut.Pairs brackets := by
  refine .inr ⟨?_, ?_⟩
  · cases hk : cut.kind <;> rw [hk] at hkind <;> first | rfl | cases hkind
  · rw [Kind.turn_of_bracket_none hkind, hbrackets]

/-- a cut that closes the innermost bracket -/
theorem closing {b : Bracket} (hkind : cut.kind.bracket? = some (.closes b.enclosure)) (hbrace : cut.kind.isBrace = false) :
    cut.Pairs (b :: cut.brackets) := .inr ⟨hbrace, (Kind.turn_of_closes_iff hkind).2 rfl⟩

end Cut.Pairs

namespace Lexer

theorem TokenCase.pairs {brackets : List Bracket} {ahead : List Char} {cut : Cut} (h : TokenCase brackets ahead cut) :
    cut.Pairs brackets := by
  cases h with
  | fault => exact .other rfl rfl
  | plain hkind hsize hspelt => exact .other (Kind.bracket_of_isPlain hkind) rfl
  | letters hahead hletter =>
    refine .other ?_ rfl
    simp only
    rcases Words.classify_cases (ahead.take (Pattern.word ahead)) with hname | htype | hplain
    · rw [hname]
      rfl
    · rw [htype]
      rfl
    · exact Kind.bracket_of_isPlain hplain
  | quoted hkind hsize htrimmed => exact .other (by rcases hkind with rfl | rfl <;> rfl) rfl
  | brace hkind hspelt => exact .inl ⟨by rcases hkind with rfl | rfl <;> rfl, rfl⟩
  | opening b hsize hspelt => exact .inr (by cases b <;> exact ⟨rfl, rfl⟩)
  | closing b hopen hsize hspelt =>
    subst hopen
    exact .closing (by cases b <;> rfl) (by cases b <;> rfl)
  | directive hsize hwithin => exact .other rfl rfl
  | textBlock hmarker => exact .other rfl rfl

theorem cut_pairs (s : Lexer) : s.cut.Pairs s.brackets := by
  have hcase := s.cut_cases
  generalize s.cut = cut at hcase ⊢
  cases hcase with
  | blankLines hmode hshut hfeeds => exact .other rfl hshut.symm
  | token hmode hahead htoken => exact htoken.pairs
  | line hmode hline =>
    cases hline with
    | comment hmark => exact (blockCommentCut_cases s.brackets _ hmark).pairs
    | _ => exact .other rfl rfl
  | _ => exact .other rfl rfl

/-! ## Calls -/

/-- the constructs whose brackets are open, innermost first -/
def enclosures (s : Lexer) : List Enclosure := s.brackets.map Bracket.enclosure

/-- a call opens and closes what its token says -/
theorem nesting_step (s : Lexer) : nesting s.enclosures (withoutBraces [s.step.1]) = some s.step.2.enclosures := by
  have hkind : s.step.1.kind = s.cut.kind := rfl
  have hbrackets : s.step.2.enclosures = s.cut.brackets.map Bracket.enclosure := rfl
  rw [hbrackets]
  rcases s.cut_pairs with ⟨hbrace, hsame⟩ | ⟨hbrace, hturn⟩
  · rw [withoutBraces, List.filter_cons_of_neg (by simp [hkind, hbrace]), hsame]
    rfl
  · rw [withoutBraces, List.filter_cons_of_pos (by simp [hkind, hbrace]), nesting, hkind, enclosures, hturn]
    rfl

/-- **The open brackets of the lexer** are those that the tokens so far leave open. -/
theorem nesting_calls (text : List Char) (n : Nat) :
    nesting [] (withoutBraces ((List.range n).map (call text))) = some (afterCalls text n).enclosures := by
  induction n with
  | zero => rfl
  | succ n ih =>
    rw [List.range_succ, List.map_append, withoutBraces, List.filter_append, nesting_append]
    exact (congrArg (Option.bind · _) ih).trans (nesting_step (afterCalls text n))

end Lexer

namespace Stream

open Lexer in
/-- the tokens of a text leave open what the end of the file complains about -/
theorem nesting_ofText (text : List Char) : ∃ opened, nesting [] (withoutBraces (ofText text).toList) = some opened ∧
    ∀ t ∈ (ofText text).toList, t.kind = .endOfFile → (t.fault ≠ none ↔ opened ≠ []) := by
  obtain ⟨count, htokens, hbefore, -⟩ := toList_calls text
  refine ⟨(afterCalls text count).enclosures, by rw [htokens, nesting_calls], fun t ht hkind => ?_⟩
  rw [htokens] at ht
  obtain ⟨n, hn, rfl⟩ := List.mem_map.1 ht
  -- the end of the file is the last of the calls, and it leaves the brackets as they are
  obtain rfl : count = n + 1 := by
    have hlt := List.mem_range.1 hn
    by_contra hne
    exact hbefore n (by omega) hkind
  obtain ⟨-, gap, -, hcut⟩ := cut_of_endOfFile hkind
  have hfault : (call text n).fault = (afterCalls text n).cut.fault := rfl
  have hopened : (afterCalls text (n + 1)).enclosures = (afterCalls text n).cut.brackets.map Bracket.enclosure := rfl
  rw [hfault, hopened, hcut]
  cases (afterCalls text n).brackets <;> simp

end Stream

/-- **Brackets are last in, first out**, in every text. Braces aside, a closing bracket closes the last bracket before it
that is still open, and that is one of its own construct; all that was opened in between is closed in between. And the end
of the file has a fault exactly when some bracket stays open up to it. -/
theorem brackets_pair (text : List Char) :
    (∀ before c after e, withoutBraces (Stream.ofText text).toList = before ++ c :: after →
      c.kind.bracket? = some (.closes e) → ∃ front o between, before = front ++ o :: between ∧
        o.kind.bracket? = some (.opens e) ∧ StaysOpen e between ∧ WellNested (marks between)) ∧
    ∀ t ∈ (Stream.ofText text).toList, t.kind = .endOfFile → (t.fault ≠ none ↔ ∃ front o rest e,
      withoutBraces (Stream.ofText text).toList = front ++ o :: rest ∧ o.kind.bracket? = some (.opens e) ∧
        StaysOpen e rest) := by
  obtain ⟨opened, hnesting, hfault⟩ := Stream.nesting_ofText text
  constructor
  · intro before c after e hts hc
    rw [hts, nesting_append] at hnesting
    obtain ⟨middle, hbefore, hrest⟩ := Option.bind_eq_some_iff.1 hnesting
    obtain ⟨later, hturn, -⟩ := Option.bind_eq_some_iff.1 hrest
    obtain rfl := (Kind.turn_of_closes_iff hc).1 hturn
    obtain ⟨front, o, between, hsplit, ho, -, hbetween⟩ := opener_of_nesting hbefore
    exact ⟨front, o, between, hsplit, ho, staysOpen_of_wellNested hbetween e, hbetween⟩
  · intro t ht hkind
    rw [hfault t ht hkind]
    constructor
    · intro hopened
      obtain ⟨e, outer, rfl⟩ := List.exists_cons_of_ne_nil hopened
      obtain ⟨front, o, rest, hsplit, ho, -, hrest⟩ := opener_of_nesting hnesting
      exact ⟨front, o, rest, e, hsplit, ho, staysOpen_of_wellNested hrest e⟩
    · rintro ⟨front, o, rest, e, hts, ho, hopen⟩ rfl
      rw [hts, nesting_append] at hnesting
      obtain ⟨middle, -, hrest⟩ := Option.bind_eq_some_iff.1 hnesting
      rw [nesting, Kind.turn_of_opens ho, Option.bind_some] at hrest
      exact not_staysOpen_of_nesting hrest hopen

/-- an index with a parenthesis in it, which a stray `]` does not close, in an array that is not closed -/
def crossed : List Char := "(\x7b a[ ( 1 ] ) ] \x7d".toList

/-- the second `]` closes the index; the array stays open up to the end -/
theorem brackets_pair_crossed : (∃ t ∈ (Stream.ofText crossed).toList, t.kind = .endOfFile ∧ t.fault ≠ none) ∧
    ((∃ front o rest e, withoutBraces (Stream.ofText crossed).toList = front ++ o :: rest ∧
      o.kind.bracket? = some (.opens e) ∧ StaysOpen e rest) ∧
    ∃ before c after, withoutBraces (Stream.ofText crossed).toList = before ++ c :: after ∧ c.kind = .indexEnd ∧
      ∃ front o between, before = front ++ o :: between ∧ o.kind.bracket? = some (.opens .index) ∧
        StaysOpen .index between ∧ WellNested (marks between)) := by
  have hfault : ∃ t ∈ (Stream.ofText crossed).toList, t.kind = .endOfFile ∧ t.fault ≠ none := by decide +kernel
  obtain ⟨hclosing, hopen⟩ := brackets_pair crossed
  have hclosed : ∃ c ∈ withoutBraces (Stream.ofText crossed).toList, c.kind = .indexEnd := by decide +kernel
  obtain ⟨c, hmem, hc⟩ := hclosed
  obtain ⟨before, after, hts⟩ := List.append_of_mem hmem
  obtain ⟨t, ht, hkind, hfaulty⟩ := hfault
  exact ⟨⟨t, ht, hkind, hfaulty⟩, (hopen t ht hkind).1 hfaulty, before, c, after, hts, hc, hclosing before c after .index hts (by rw [hc]; rfl)⟩

end LpcStyle
