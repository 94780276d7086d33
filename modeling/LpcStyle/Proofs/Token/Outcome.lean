import Mathlib.Tactic
import LpcStyle.Proofs.Token.Spelling

/-!
What a call may cut off the text. The lexer makes one test after the other, in an order of its own for each mode; `TokenCase`,
`LineCase` and `CutCase` say once what may come of them, and whatever holds of every cut is found by their few cases. Main
statements:
- `tokenCut_cases`, `directiveCut_cases`, `cut_cases`: a token outside preprocessor lines, a piece of such a line, and the
  cut of every mode is one of the cases;
- `TokenCase.spells`: a token is spelled as its kind says, unless it is the end of a closure that stops at a blank which the
  lexer does not skip.
-/

namespace LpcStyle

open Text Pattern

/-! ## Patterns -/

theorem Text.trimmed_enclosed {quote : Char} (h : isBlank quote = false) (inner : List Char) :
    Trimmed (quote :: inner ++ [quote]) := by
  refine ⟨by simpa using h, fun c hc => ?_⟩
  rw [List.getLast?_concat, Option.mem_some] at hc
  exact hc ▸ h

namespace Pattern

theorem word_pos {c : Char} (h : isLetter c = true) (after : List Char) : 0 < word (c :: after) := by
  rw [word_cons h, run, List.takeWhile_cons, isLetterOrDigit_of_isLetter h]
  simp

theorem number_pos {c : Char} (h : c.isDigit = true) (after : List Char) : 0 < number (c :: after) := by
  have hwhole : 0 < wholePart (c :: after) := by
    unfold wholePart
    split
    · split
      · omega
      split <;> omega
    · simp [run, h]
  simp only [number]
  omega

/-- a string ends with a quote -/
theorem take_stringTail {after : List Char} {n : Nat} (h : stringTail after = some n) :
    ∃ inner, after.take n = inner ++ ['\x22'] := by
  fun_induction stringTail after generalizing n with
  | case1 => cases h
  | case2 c rest hc =>
    cases h
    exact ⟨[], by simpa using hc⟩
  | case3 => cases h
  | case4 c hc hslash d rest ih =>
    obtain ⟨m, hm, rfl⟩ := Option.map_eq_some_iff.1 h
    obtain ⟨inner, hinner⟩ := ih hm
    exact ⟨c :: d :: inner, by simp [hinner]⟩
  | case5 c rest hc hslash ih =>
    obtain ⟨m, hm, rfl⟩ := Option.map_eq_some_iff.1 h
    obtain ⟨inner, hinner⟩ := ih hm
    exact ⟨c :: inner, by simp [hinner]⟩

end Pattern

/-! ## Kinds -/

/-- the kind of the token that opens a bracket -/
def Bracket.opener : Bracket → Kind
  | .array => .arrayStart
  | .mapping => .mappingStart
  | .paren | .foreach => .parenStart
  | .closure => .closureStart
  | .lambda => .lambdaStart
  | .index => .indexStart

/-- the kind of the token that closes a bracket -/
def Bracket.closer : Bracket → Kind
  | .array => .arrayEnd
  | .mapping => .mappingEnd
  | .paren | .foreach => .parenEnd
  | .closure => .closureEnd
  | .lambda => .lambdaEnd
  | .index => .indexEnd

/-- kinds of tokens outside preprocessor lines about which their spelling says all: no names, types, brackets and literals -/
def Kind.isPlain : Kind → Bool
  | .blankLines | .name | .typeWord | .string | .char | .textBlockStart | .textBlockBody | .textBlockEnd | .parenStart
  | .parenEnd | .arrayStart | .arrayEnd | .mappingStart | .mappingEnd | .closureStart | .closureEnd | .lambdaStart
  | .lambdaEnd | .indexStart | .indexEnd | .leftBrace | .rightBrace | .directive | .directiveKey | .directiveArgument
  | .directiveLineBreak | .directiveEnd | .unknown | .endOfFile => false
  | _ => true

theorem Kind.ne_of_isPlain {k l : Kind} (h : k.isPlain = true) (hl : l.isPlain = false) : k ≠ l := by
  rintro rfl
  exact Bool.false_ne_true (hl.symm.trans h)

/-- a word is a name, a type, or a word of the language -/
theorem Words.classify_cases (word : List Char) :
    classify word = .name ∨ classify word = .typeWord ∨ (classify word).isPlain = true := by
  simp only [classify]
  split
  · exact .inr (.inr rfl)
  split
  · exact .inr (.inl rfl)
  split
  · next kind hfind =>
    have hall : ∀ p ∈ keywords, p.2.isPlain = true := by decide
    exact .inr (.inr (hall _ (List.mem_of_find?_eq_some hfind)))
  · split
    · exact .inr (.inr rfl)
    · exact .inl rfl

namespace Lexer

/-! ## Cases -/

/-- **What a token outside preprocessor lines may be**: what it takes of the text ahead, and what becomes of the open
brackets and of the mode. -/
inductive TokenCase (brackets : List Bracket) (ahead : List Char) : Cut → Prop where
  | fault (fault : Fault) {size : Nat} (hsize : 0 < size) (hgoes : fault ≠ .stalled) :
      TokenCase brackets ahead (faulty brackets fault size)
  | plain {kind : Kind} {size : Nat} (hkind : kind.isPlain = true) (hsize : 0 < size)
      (hspelt : Spelt kind (ahead.take size)) : TokenCase brackets ahead { kind, size, brackets }
  | letters {c : Char} {after : List Char} (hahead : ahead = c :: after) (hletter : isLetter c = true) :
      TokenCase brackets ahead { kind := Words.classify (ahead.take (word ahead)), size := word ahead, brackets }
  | quoted {kind : Kind} {size : Nat} (hkind : kind = .string ∨ kind = .char) (hsize : 0 < size)
      (htrimmed : Trimmed (ahead.take size)) : TokenCase brackets ahead { kind, size, brackets }
  | brace {kind : Kind} (hkind : kind = .leftBrace ∨ kind = .rightBrace) (hspelt : Spelt kind (ahead.take 1)) :
      TokenCase brackets ahead { kind, size := 1, brackets }
  | opening (b : Bracket) {size : Nat} (hsize : 0 < size) (hspelt : Spelt b.opener (ahead.take size)) :
      TokenCase brackets ahead { kind := b.opener, size, brackets := b :: brackets }
  | closing (b : Bracket) {outer : List Bracket} {size : Nat} (hopen : brackets = b :: outer) (hsize : 0 < size)
      (hspelt : Spelt b.closer (ahead.take size) ∨ StrayEnd b.closer (ahead.take size) (ahead.drop size)) :
      TokenCase brackets ahead { kind := b.closer, size, brackets := outer }
  | directive {size : Nat} (hsize : 1 < size) (hwithin : size ≤ ahead.length) :
      TokenCase brackets ahead { kind := .directive, size, brackets, mode := .directiveStart }
  | textBlock {ats n : Nat} (hmarker : textBlockMarker ahead = some (ats, n)) :
      TokenCase brackets ahead
        { kind := .textBlockStart, size := ats + n, brackets, mode := .textBlock ((ahead.drop ats).take n) }

theorem TokenCase.ite {brackets : List Bracket} {ahead : List Char} {p : Prop} [Decidable p] {a b : Cut}
    (ha : p → TokenCase brackets ahead a) (hb : ¬p → TokenCase brackets ahead b) :
    TokenCase brackets ahead (if p then a else b) := by
  by_cases h : p
  · rw [if_pos h]
    exact ha h
  · rw [if_neg h]
    exact hb h

variable (brackets : List Bracket) (ahead after : List Char)

theorem blockCommentCut_cases (h : startsWith "/*".toList ahead = true) :
    TokenCase brackets ahead (blockCommentCut brackets ahead) := by
  obtain ⟨rest, rfl⟩ := startsWith_iff.1 h
  unfold blockCommentCut
  split
  · next size hsize =>
    obtain ⟨n, hn, rfl⟩ := Option.map_eq_some_iff.1 hsize
    obtain ⟨inner, back, hrest, hopen, rfl⟩ := closed_of_find hn
    refine .plain rfl (by simp) ⟨inner, ?_, hopen⟩
    have hsplit : "/*".toList ++ rest = marked inner ++ back := by
      rw [List.drop_left' (by rfl)] at hrest
      simp [marked, hrest]
    rw [hsplit]
    exact List.take_left' (by simp [marked])
  · exact .fault _ (by simp) (by decide)

theorem blockCommentCut_kind :
    (blockCommentCut brackets ahead).kind = .blockComment ∨ (blockCommentCut brackets ahead).kind = .unknown := by
  unfold blockCommentCut
  split
  · exact .inl rfl
  · exact .inr rfl

/-- the name of a directive is not empty -/
theorem hashCut_cases (s : Lexer) : TokenCase s.brackets ('#' :: after) (s.hashCut ('#' :: after)) := by
  unfold hashCut
  extract_lets second gap name
  refine .ite (fun _ => ?_) fun _ => .ite (fun _ => ?_) fun _ => .fault _ (by simp) (by decide)
  · refine .ite (fun _ => .plain rfl (by simp) (by simp)) fun _ => ?_
    exact .ite (fun _ => .plain rfl (by simp) (by simp)) fun _ => .fault _ (by simp) (by decide)
  refine .ite (fun hname => ?_) fun _ => .fault _ (by omega) (by decide)
  have hpos : 0 < name.length := by
    have hall : ∀ w ∈ Words.directives, w.toList ≠ [] := by decide
    obtain ⟨w, hw, heq⟩ := List.any_eq_true.1 hname
    rw [← beq_iff_eq.1 heq]
    exact List.length_pos_iff.2 (hall w hw)
  have hlength : name.length ≤ ('#' :: after).length - (1 + gap) := by
    simp [name]
  exact .directive (by omega) (by omega)

/-- a character ends with the quote that it starts with -/
theorem quoteCut_cases : TokenCase brackets ('\x27' :: after) (quoteCut brackets after) := by
  have hsymbol : TokenCase brackets ('\x27' :: after)
      (if 0 < word after then { kind := .symbol, size := 1 + word after, brackets } else faulty brackets .char 1) :=
    .ite (fun _ => .plain rfl (by simp) (by simp)) fun _ => .fault _ (by simp) (by decide)
  unfold quoteCut
  extract_lets symbol
  split
  · next rest =>
    extract_lets tail n size
    refine .ite (fun hquote => .quoted (.inr rfl) (by simp) ?_) fun _ => .fault _ (by simp [size]) (by decide)
    -- the escaped character, what follows up to the quote, and the quote
    have hsplit : '\\' :: rest = ('\\' :: rest.take 1) ++ tail := by
      rw [List.cons_append, List.take_append_drop]
    have hlength : ('\\' :: rest).length - tail.length = ('\\' :: rest.take 1).length := by
      rw [hsplit, List.length_append, Nat.add_sub_cancel]
    have htail : tail.take (n + 1) = tail.take n ++ ['\x27'] := by
      rw [List.take_add, take_one_of_startsWith hquote]
    have hsize : size + 1 = 1 + (('\\' :: rest.take 1).length + (n + 1)) := by
      simp only [size, hlength]
      omega
    have htext : ('\x27' :: '\\' :: rest).take (size + 1) =
        '\x27' :: ('\\' :: rest.take 1 ++ tail.take n) ++ ['\x27'] := by
      rw [hsize, Nat.add_comm 1, List.take_succ_cons, hsplit, List.take_length_add_append, htail]
      simp
    rw [htext]
    exact trimmed_enclosed (by decide) _
  · next c rest _ => exact .ite (fun _ => .quoted (.inr rfl) (by simp) (trimmed_enclosed (by decide) [c])) fun _ => hsymbol
  · exact hsymbol

theorem wordCut_cases {c : Char} (h : isLetter c = true) : TokenCase brackets (c :: after) (wordCut brackets (c :: after)) := by
  have hpos := word_pos h after
  unfold wordCut
  extract_lets size text
  refine .ite (fun hlambda => ?_) fun _ => .ite (fun hin => ?_) fun _ => .letters rfl h
  · simp only [Bool.and_eq_true, beq_iff_eq] at hlambda
    obtain ⟨hword, hparen⟩ := hlambda
    have htext : (c :: after).take (size + 1) = "lambda".toList ++ ['('] := by
      rw [List.take_add, take_one_of_startsWith hparen]
      exact congrArg (· ++ ['(']) hword
    refine .opening .lambda (by simp) ?_
    simp only [Bracket.opener, Spelt, Kind.spelling?, Option.mem_some, forall_eq', htext]
    decide
  · simp only [Bool.and_eq_true, beq_iff_eq] at hin
    exact .plain rfl hpos (.inl hin.1)

theorem openParenCut_cases (last : Kind) : TokenCase brackets ('(' :: after) (openParenCut last brackets after) := by
  unfold openParenCut
  extract_lets blanks cast
  refine .ite (fun h => .opening .array (by simp) (by simp [Bracket.opener, take_one_of_startsWith h])) fun _ => ?_
  refine .ite (fun h => .opening .mapping (by simp) (by simp [Bracket.opener, take_one_of_startsWith h])) fun _ => ?_
  refine .ite (fun h => ?_) fun _ => ?_
  · simp only [Bool.and_eq_true] at h
    refine .opening .closure (by simp) ⟨after.take blanks, fun c hc => ?_, ?_⟩
    · have := of_mem_take_run hc
      simp only [Bool.or_eq_true, beq_iff_eq] at this
      rcases this with rfl | rfl <;> decide
    · simp [List.take_add, take_one_of_startsWith h.1]
  cases hcast : cast with
  | some n =>
    refine .plain rfl (by simp) ?_
    simp only [cast] at hcast
    split at hcast
    · cases hcast
    · simpa using castText_of_castTail hcast
  | none =>
    by_cases h : last = .foreachWord
    · simp only [if_pos h]
      exact .opening .foreach (by simp) (by simp [Bracket.opener])
    · simp only [if_neg h]
      exact .opening .paren (by simp) (by simp [Bracket.opener])

/-- what stands before a parenthesis that is found behind blanks: skipped blanks only, or another blank after them -/
theorem blanks_before_paren {after : List Char} (h : startsWith [')'] (trimStart after) = true) :
    (∃ rest, after.drop (run isGapOrLineFeed after) = ')' :: rest) ∨
      ∃ c blanks rest, after.drop (run isGapOrLineFeed after) = c :: (blanks ++ ')' :: rest) ∧ isBlank c = true ∧
        isGapOrLineFeed c = false ∧ ∀ d ∈ blanks, isBlank d = true := by
  rw [drop_run]
  induction after with
  | nil => simp [trimStart, startsWith] at h
  | cons c after ih =>
    by_cases hskipped : isGapOrLineFeed c = true
    · rw [List.dropWhile_cons_of_pos hskipped]
      exact ih (by simpa [trimStart, List.dropWhile_cons_of_pos (isBlank_of_isGapOrLineFeed hskipped)] using h)
    · rw [List.dropWhile_cons_of_neg hskipped]
      by_cases hblank : isBlank c = true
      · rw [trimStart, List.dropWhile_cons_of_pos hblank] at h
        obtain ⟨rest, hrest⟩ := startsWith_iff.1 h
        refine .inr ⟨c, after.takeWhile isBlank, rest, ?_, hblank, by simpa using hskipped,
          List.all_eq_true.1 List.all_takeWhile⟩
        rw [show ')' :: rest = after.dropWhile isBlank from hrest.symm, List.takeWhile_append_dropWhile]
      · rw [trimStart, List.dropWhile_cons_of_neg hblank] at h
        obtain ⟨rest, hrest⟩ := startsWith_iff.1 h
        exact .inl ⟨rest, hrest⟩

/-- the end of a closure is the one token that may stop before what its kind ends with -/
theorem colonCut_cases : TokenCase brackets (':' :: after) (colonCut brackets after) := by
  unfold colonCut
  refine .ite (fun h => .plain rfl (by simp) (by simp [take_one_of_startsWith h])) fun _ => ?_
  split
  · refine .ite (fun hclose => .closing .closure rfl (by simp) ?_) fun _ => .plain rfl (by simp) (by simp)
    have hgap : ∀ d ∈ after.take (run isGapOrLineFeed after), isGapOrLineFeed d = true := fun d hd => of_mem_take_run hd
    rcases blanks_before_paren hclose with ⟨rest, hahead⟩ | ⟨c, blanks, rest, hahead, hblank, hother, hblanks⟩
    · refine .inl ⟨after.take (run isGapOrLineFeed after), fun c hc => isBlank_of_isGapOrLineFeed (hgap c hc), ?_⟩
      simp [List.take_add, hahead]
    · refine .inr ⟨rfl, ⟨after.take (run isGapOrLineFeed after), c, ?_, hgap, hblank, hother⟩, blanks, rest, hblanks, ?_⟩
      · simp [List.take_add, hahead]
      · have hdrop := congrArg (List.drop 1) hahead
        simpa [List.drop_drop] using hdrop
  · exact .plain rfl (by simp) (by simp)
  · exact .plain rfl (by simp) (by simp)

/-- only the star and the marks that stand before an operand alone have kinds of their own -/
theorem operators_free : ∀ p ∈ Words.operators, p ∈ [("*", .star), ("!", .unaryOp), ("~", .unaryOp)] ∨
    p.2 ∈ [Kind.assignOp, .binaryOp, .logicalOp, .arithOp] := by
  decide

theorem operatorCut_cases : TokenCase brackets ahead (operatorCut brackets ahead) := by
  unfold operatorCut
  split
  · next op kind hfind =>
    have hstarts := List.find?_some hfind
    have hmem := List.mem_of_find?_eq_some hfind
    have hall : ∀ p ∈ Words.operators, p.2.isPlain = true ∧ 0 < p.1.length := by decide
    obtain ⟨hkind, hsize⟩ := hall _ hmem
    refine .plain hkind hsize ?_
    rcases operators_free _ hmem with hown | hkind
    · simp only [List.mem_cons, List.not_mem_nil, or_false, Prod.mk.injEq] at hown
      rcases hown with ⟨rfl, rfl⟩ | ⟨rfl, rfl⟩ | ⟨rfl, rfl⟩
      · simp only [Spelt, Kind.spelling?, Option.mem_some, forall_eq']
        exact take_one_of_startsWith hstarts
      · exact .inl (take_one_of_startsWith hstarts)
      · exact .inr (take_one_of_startsWith hstarts)
    · simp only [List.mem_cons, List.not_mem_nil, or_false] at hkind
      rcases hkind with rfl | rfl | rfl | rfl <;> simp
  · exact .fault _ (by simp) (by decide)

theorem closeParenCut_cases : TokenCase brackets (')' :: after) (closeParenCut brackets) := by
  unfold closeParenCut
  split
  · exact .closing .paren rfl (by simp) (.inl (by simp [Bracket.closer]))
  · exact .closing .foreach rfl (by simp) (.inl (by simp [Bracket.closer]))
  · exact .closing .lambda rfl (by simp) (.inl (by simp [Bracket.closer]))
  · exact .fault _ (by simp) (by decide)

theorem closeBraceCut_cases : TokenCase brackets ('\x7d' :: after) (closeBraceCut brackets after) := by
  unfold closeBraceCut
  split
  · refine .ite (fun h => .closing .array rfl (by simp) (.inl ?_)) fun _ => .brace (.inr rfl) (by simp)
    simp [Bracket.closer, take_one_of_startsWith h]
  · exact .brace (.inr rfl) (by simp)

theorem closeBracketCut_cases : TokenCase brackets (']' :: after) (closeBracketCut brackets after) := by
  unfold closeBracketCut
  split
  · exact .closing .index rfl (by simp) (.inl (by simp [Bracket.closer]))
  · refine .ite (fun h => .closing .mapping rfl (by simp) (.inl ?_)) fun _ => .fault _ (by simp) (by decide)
    simp [Bracket.closer, take_one_of_startsWith h]
  · exact .fault _ (by simp) (by decide)

/-- points: an ellipsis, a range or a single one -/
theorem pointCut_cases : TokenCase brackets ('.' :: after) (if startsWith "..".toList after then
    { kind := .ellipsis, size := 3, brackets } else if startsWith ['.'] after then { kind := .range, size := 2, brackets }
    else { kind := .dot, size := 1, brackets }) := by
  refine .ite (fun h => ?_) fun _ => .ite (fun h => ?_) fun _ => .plain rfl (by simp) (by simp)
  · have htwo : after.take 2 = ['.', '.'] := take_of_startsWith h
    exact .plain rfl (by simp) (by simp [htwo])
  · exact .plain rfl (by simp) (by simp [take_one_of_startsWith h])

/-- **The cut of a token** is one of the cases, by the tests of the lexer in their order. -/
theorem tokenCut_cases (s : Lexer) (c : Char) : TokenCase s.brackets (c :: after) (s.tokenCut c after) := by
  unfold tokenCut
  extract_lets ahead brackets mark
  refine .ite (fun hc => .plain rfl ?_ (by simp)) fun _ => .ite (fun hc => blockCommentCut_cases _ _ hc) fun _ => ?_
  · have htwo : (c :: after).take 2 = ['/', '/'] := take_of_startsWith hc
    simp only [List.take_succ_cons, List.cons.injEq] at htwo
    simp [ahead, run, htwo.1]
  refine .ite (fun hc => ?_) fun _ => .ite (fun _ => ?_) fun _ => .ite (fun hc => ?_) fun _ => .ite (fun hc => ?_) fun _ => ?_
  · obtain rfl := beq_iff_eq.1 hc
    exact hashCut_cases _ _
  · split
    · next hmarker => exact .textBlock hmarker
    · exact .fault _ (by simp) (by decide)
  · obtain rfl := beq_iff_eq.1 hc
    split
    · next n hstring =>
      obtain ⟨inner, hinner⟩ := take_stringTail hstring
      refine .quoted (.inl rfl) (by simp) ?_
      rw [List.take_succ_cons, hinner]
      exact trimmed_enclosed (by decide) inner
    · exact .fault _ (by simp [ahead]) (by decide)
  · obtain rfl := beq_iff_eq.1 hc
    exact quoteCut_cases _ _
  refine .ite (fun _ => .ite (fun h => .plain rfl h (by simp)) fun _ => .fault _ (by simp) (by decide)) fun _ => ?_
  refine .ite (fun hc => .plain rfl (number_pos hc after) (by simp)) fun _ => .ite (fun hc => wordCut_cases _ _ hc) fun _ => ?_
  -- brackets
  refine .ite (fun hc => ?_) fun _ => .ite (fun hc => ?_) fun _ => .ite (fun hc => ?_) fun _ => ?_
  · obtain rfl := beq_iff_eq.1 hc
    exact openParenCut_cases _ _ _
  · obtain rfl := beq_iff_eq.1 hc
    exact closeParenCut_cases _ _
  · obtain rfl := beq_iff_eq.1 hc
    exact .brace (.inl rfl) (by simp)
  refine .ite (fun hc => ?_) fun _ => .ite (fun hc => ?_) fun _ => .ite (fun hc => ?_) fun _ => ?_
  · obtain rfl := beq_iff_eq.1 hc
    exact closeBraceCut_cases _ _
  · obtain rfl := beq_iff_eq.1 hc
    exact .opening .index (by simp) (by simp [Bracket.opener])
  · obtain rfl := beq_iff_eq.1 hc
    exact closeBracketCut_cases _ _
  -- marks
  refine .ite (fun hc => ?_) fun _ => .ite (fun hc => ?_) fun _ => .ite (fun hc => ?_) fun _ => .ite (fun hc => ?_) fun _ => ?_
  · obtain rfl := beq_iff_eq.1 hc
    exact colonCut_cases _ _
  · obtain rfl := beq_iff_eq.1 hc
    exact .plain rfl (by simp) (by simp)
  · obtain rfl := beq_iff_eq.1 hc
    exact .plain rfl (by simp) (by simp)
  · obtain rfl := beq_iff_eq.1 hc
    exact .plain rfl (by simp) (by simp)
  refine .ite (fun hc => ?_) fun _ => .ite (fun hc => ?_) fun _ => .ite (fun hc => ?_) fun _ => .ite (fun hc => ?_) fun _ => ?_
  · obtain rfl := beq_iff_eq.1 hc
    exact pointCut_cases _ _
  · have htwo : (c :: after).take 2 = ['-', '>'] := take_of_startsWith hc
    exact .plain rfl (by simp) (by simpa using htwo)
  · simp only [Bool.and_eq_true, beq_iff_eq] at hc
    exact .plain rfl (by simp) (by simp [hc.1])
  · simp only [Bool.and_eq_true, decide_eq_true_eq] at hc
    exact .plain rfl hc.2 (by simp)
  exact operatorCut_cases _ _

/-! ## Preprocessor lines -/

/-- an argument of a preprocessor line ends here -/
def AtArgumentEnd (rest : List Char) : Prop :=
  rest = [] ∨ startsWith ['\n'] rest = true ∨ atLineContinuation rest = true ∨ startsWith "/*".toList rest = true

/-- **What a preprocessor line may go on with** behind its blanks: its end, a line continuation, a comment, or an argument
without the blanks at its end. -/
inductive LineCase (s : Lexer) : Cut → Prop where
  | bare (hahead : s.rest.drop (run isGap s.rest) = []) :
      LineCase s { kind := .directiveEnd, gap := run isGap s.rest, size := 0, brackets := s.brackets }
  | lineFeed {after : List Char} (hahead : s.rest.drop (run isGap s.rest) = '\n' :: after) :
      LineCase s { kind := .directiveEnd, gap := run isGap s.rest, size := 1, brackets := s.brackets, credit := 1 }
  | lineBreak {size : Nat} (hsize : 0 < size) (hahead : s.rest.drop (run isGap s.rest) ≠ []) :
      LineCase s
        { kind := .directiveLineBreak, gap := run isGap s.rest, size, brackets := s.brackets, mode := .directive }
  | comment (hmark : startsWith "/*".toList (s.rest.drop (run isGap s.rest)) = true) :
      LineCase s
        { blockCommentCut s.brackets (s.rest.drop (run isGap s.rest)) with gap := run isGap s.rest, mode := .directive }
  | argument {n size : Nat} (hn : directiveArgument 0 (s.rest.drop (run isGap s.rest)) = n)
      (hsize : (trimEnd ((s.rest.drop (run isGap s.rest)).take n)).length = size)
      (hahead : ¬AtArgumentEnd (s.rest.drop (run isGap s.rest))) :
      LineCase s
        { kind := .directiveArgument, gap := run isGap s.rest, size, slack := n - size, brackets := s.brackets,
          mode := .directive }

theorem directiveCut_cases (s : Lexer) : LineCase s s.directiveCut := by
  unfold directiveCut
  dsimp only
  split
  · next hahead => exact .bare hahead
  · next c after hahead =>
    have hne : s.rest.drop (run isGap s.rest) ≠ [] := by simp [hahead]
    split
    · next hfeed => exact .lineFeed (beq_iff_eq.1 hfeed ▸ hahead)
    next hfeed =>
    split
    · exact .lineBreak (Nat.lt_min.2 ⟨by simp, List.length_pos_iff.2 hne⟩) hne
    next hbreak =>
    split
    · next hmark => exact .comment hmark
    next hmark =>
    refine .argument rfl rfl ?_
    rintro (h | h | h | h)
    · exact hne h
    · obtain ⟨tail, htail⟩ := startsWith_iff.1 h
      rw [hahead] at htail
      exact hfeed (beq_iff_eq.2 (List.cons.inj htail).1)
    · exact hbreak h
    · exact hmark h

/-- after a directive's name: its key, or what any other place of the line may hold -/
theorem directiveKeyCut_cases (s : Lexer) : s.directiveKeyCut = s.directiveCut ∨ ∃ size,
    s.directiveKeyCut =
      { kind := .directiveKey, gap := run isGap s.rest, size, brackets := s.brackets, mode := .directive } := by
  unfold directiveKeyCut
  dsimp only
  split
  · exact .inl rfl
  · exact .inr ⟨_, rfl⟩

/-! ## Modes -/

/-- **What a call may cut off** in each mode. -/
inductive CutCase (s : Lexer) : Cut → Prop where
  | blankLines (hmode : s.mode = .file) (hshut : s.brackets = [])
      (hfeeds : 1 < (s.rest.take (run isGapOrLineFeed s.rest)).count '\n' + s.credit) :
      CutCase s { kind := .blankLines, size := run isGapOrLineFeed s.rest, brackets := [] }
  | endOfFile (hmode : s.mode = .file) (hahead : s.rest.drop (run isGapOrLineFeed s.rest) = []) :
      CutCase s
        { kind := .endOfFile, gap := run isGapOrLineFeed s.rest, size := 0, brackets := s.brackets,
          fault := if s.brackets.isEmpty then none else some .openBracket }
  | token (hmode : s.mode = .file) {c : Char} {after : List Char}
      (hahead : s.rest.drop (run isGapOrLineFeed s.rest) = c :: after) {cut : Cut}
      (htoken : TokenCase s.brackets (c :: after) cut) : CutCase s { cut with gap := run isGapOrLineFeed s.rest }
  | key (hmode : s.mode = .directiveStart) (size : Nat) :
      CutCase s { kind := .directiveKey, gap := run isGap s.rest, size, brackets := s.brackets, mode := .directive }
  | line (hmode : s.mode = .directiveStart ∨ s.mode = .directive) {cut : Cut} (hline : LineCase s cut) : CutCase s cut
  | body {marker : List Char} (hmode : s.mode = .textBlock marker) {size : Nat}
      (hbody : textBlockBody marker s.rest = some size) :
      CutCase s { kind := .textBlockBody, size, brackets := s.brackets, mode := .textBlockEnd marker }
  | unclosed {marker : List Char} (hmode : s.mode = .textBlock marker) :
      CutCase s (faulty s.brackets .textBlock s.rest.length)
  | marker {marker : List Char} (hmode : s.mode = .textBlockEnd marker) :
      CutCase s { kind := .textBlockEnd, size := marker.length, brackets := s.brackets }

theorem fileCut_cases {s : Lexer} (hmode : s.mode = .file) : CutCase s s.fileCut := by
  unfold fileCut
  dsimp only
  split
  · next h =>
    simp only [Bool.and_eq_true, decide_eq_true_eq, List.isEmpty_iff] at h
    exact .blankLines hmode h.1.2 h.1.1
  · split
    · next hahead => exact .endOfFile hmode hahead
    · next c after hahead =>
      exact .token hmode hahead (tokenCut_cases after { s with fresh := lineStartAfter s.fresh _ } c)

/-- **Every cut** is one of the cases. -/
theorem cut_cases (s : Lexer) : CutCase s s.cut := by
  unfold cut
  cases hmode : s.mode with
  | file => exact fileCut_cases hmode
  | directiveStart =>
    dsimp only
    rcases directiveKeyCut_cases s with hcut | ⟨size, hcut⟩ <;> rw [hcut]
    · exact .line (.inl hmode) (directiveCut_cases s)
    · exact .key hmode size
  | directive => exact .line (.inr hmode) (directiveCut_cases s)
  | textBlock marker =>
    dsimp only
    split
    · next hbody => exact .body hmode hbody
    · exact .unclosed hmode
  | textBlockEnd marker => exact .marker hmode

theorem cut_of_file {s : Lexer} (hmode : s.mode = .file) : s.cut = s.fileCut := by rw [cut, hmode]

theorem cut_of_directiveStart {s : Lexer} (hmode : s.mode = .directiveStart) : s.cut = s.directiveKeyCut := by rw [cut, hmode]

theorem cut_of_directive {s : Lexer} (hmode : s.mode = .directive) : s.cut = s.directiveCut := by rw [cut, hmode]

/-! ## Spelling -/

/-- **Every token is spelled as its kind says**, or is the end of a closure that stops at a blank. -/
theorem TokenCase.spells {brackets : List Bracket} {ahead : List Char} {cut : Cut} (h : TokenCase brackets ahead cut) :
    cut.Spells ahead ∨ cut.Strays ahead := by
  cases h with
  | fault => exact .inl (by simp [Cut.Spells, faulty])
  | plain hkind hsize hspelt => exact .inl hspelt
  | letters hahead hletter =>
    subst hahead
    rw [Cut.Spells, take_word_cons hletter]
    exact .inl (classify_spelt hletter fun d hd => List.all_eq_true.1 List.all_takeWhile d hd)
  | quoted hkind hsize htrimmed =>
    left
    rcases hkind with rfl | rfl <;> simp [Cut.Spells]
  | brace hkind hspelt => exact .inl hspelt
  | opening b hsize hspelt => exact .inl hspelt
  | closing b hopen hsize hspelt => exact hspelt.imp_right fun hstray => ⟨rfl, hstray⟩
  | directive hsize hwithin => exact .inl (by simp [Cut.Spells])
  | textBlock hmarker => exact .inl (by simp [Cut.Spells])

theorem blockCommentCut_spells (h : startsWith "/*".toList ahead = true) :
    (blockCommentCut brackets ahead).Spells ahead := by
  refine (blockCommentCut_cases brackets ahead h).spells.resolve_right fun hstray => ?_
  have hkind := hstray.2.kind
  rcases blockCommentCut_kind brackets ahead with h | h <;> simp [h] at hkind

end Lexer

end LpcStyle
