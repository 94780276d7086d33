import Mathlib.Tactic
import LpcStyle.Proofs.Token.Numbers
import LpcStyle.Proofs.Token.Written

/-!
Names, numbers, parentheses and operators that what follows cannot extend. Main statements: `cutsOff_name`,
`cutsOff_number`, `cutsOff_parenStart` and `cutsOff_operator`.
-/

namespace LpcStyle

open Text Pattern

/-! ## Words -/

namespace Lexer

variable {s : Lexer} {c : Char} {after : List Char}

theorem startsWith_of_ne {d : Char} {front : List Char} (h : d ≠ c) : startsWith (d :: front) (c :: after) = false := by
  simp [startsWith, List.isPrefixOf, h]

theorem not_isDigit_of_isLetter (h : isLetter c = true) : c.isDigit = false := by
  by_contra hdigit
  simp only [isLetter, Char.isAlpha, Char.isUpper, Char.isLower, Char.isDigit, Bool.or_eq_true, Bool.and_eq_true,
    decide_eq_true_eq, beq_iff_eq, Bool.not_eq_false, ge_iff_le, UInt32.le_iff_toNat_le] at h hdigit
  change c = '_' ∨ (65 ≤ c.toNat ∧ c.toNat ≤ 90) ∨ (97 ≤ c.toNat ∧ c.toNat ≤ 122) at h
  change 48 ≤ c.toNat ∧ c.toNat ≤ 57 at hdigit
  rcases h with rfl | h
  · exact absurd hdigit (by decide)
  · omega

theorem isLetterOrDigit_of_isDigit (h : c.isDigit = true) : isLetterOrDigit c = true := by
  simp [isLetterOrDigit, Char.isAlphanum, h]

theorem not_gap_of_word (h : isLetterOrDigit c = true) : isGapOrLineFeed c = false := by
  by_contra hgap
  have hblank := isBlank_of_isGapOrLineFeed (by simpa using hgap)
  rw [not_isBlank_of_isLetterOrDigit h] at hblank
  cases hblank

/-- behind the marks that the lexer asks for first come digits and letters -/
theorem tokenCut_word (h : isLetterOrDigit c = true) : s.tokenCut c after =
    if c.isDigit then { kind := .number, size := number (c :: after), brackets := s.brackets }
    else wordCut s.brackets (c :: after) := by
  have hne {d : Char} (hd : isLetterOrDigit d = false) : d ≠ c := by
    rintro rfl
    rw [h] at hd
    cases hd
  have hmark {d : Char} (hd : isLetterOrDigit d = false) : (c == d) = false := beq_eq_false_iff_ne.2 (hne hd).symm
  have hline : startsWith "//".toList (c :: after) = false := startsWith_of_ne (hne (by decide))
  have hblock : startsWith "/*".toList (c :: after) = false := startsWith_of_ne (hne (by decide))
  have hletter : c.isDigit = false → isLetter c = true := by
    intro hdigit
    simpa [isLetter, isLetterOrDigit, Char.isAlphanum, hdigit] using h
  unfold tokenCut
  extract_lets ahead brackets mark
  rw [hline, hblock, hmark (d := '#') (by decide), hmark (d := '@') (by decide), hmark (d := '\x22') (by decide),
    hmark (d := '\x27') (by decide), hmark (d := '$') (by decide)]
  simp only [Bool.false_eq_true, if_false]
  by_cases hdigit : c.isDigit = true
  · rw [if_pos hdigit, if_pos hdigit]
  · rw [if_neg hdigit, if_neg hdigit, if_pos (hletter (by simpa using hdigit))]

end Lexer

/-- **A number is cut off whole** before what closes it. -/
theorem cutsOff_number {text rest : List Char} (h : NumberText text) (hrest : Closed rest) (n : Nat) :
    CutsOff n n .number text rest := by
  obtain ⟨c, after, rfl, hdigit⟩ := h.starts
  have hword := Lexer.isLetterOrDigit_of_isDigit hdigit
  refine ⟨by simp, by simp, c, after, rfl, Lexer.not_gap_of_word hword, fun s hs => ?_⟩
  rw [Lexer.tokenCut_word hword, if_pos hdigit, hs.brackets, ← List.cons_append, h.number_closed hrest]

/-- **A name is cut off whole** before what closes it; `lambda` before a parenthesis is none. -/
theorem cutsOff_name {text rest : List Char} (h : NameText text) (hlambda : text ≠ "lambda".toList) (hrest : Closed rest)
    (n : Nat) : CutsOff n n .name text rest := by
  obtain ⟨c, after, rfl, hletter⟩ := h.starts
  have hword := isLetterOrDigit_of_isLetter hletter
  have hsize : word (c :: after ++ rest) = (c :: after).length := by
    have hclosed := hrest.not (p := isLetterOrDigit) (by decide)
    rw [List.cons_append, word_cons hletter, run, ← List.cons_append, List.takeWhile_append_of_pos h.goesOn]
    have hnone := run_nil_of_head hclosed
    rw [run] at hnone
    rw [List.length_append, hnone, Nat.add_zero]
  refine ⟨by simp, by simp, c, after, rfl, Lexer.not_gap_of_word hword, fun s hs => ?_⟩
  have hloop : (s.brackets.head? == some Bracket.foreach) = false := by
    rw [hs.brackets]
    cases n <;> rfl
  rw [Lexer.tokenCut_word hword, Lexer.not_isDigit_of_isLetter hletter, if_neg Bool.false_ne_true, Lexer.wordCut,
    ← List.cons_append, hsize, List.take_left, beq_eq_false_iff_ne.2 hlambda, hloop]
  simp [h.plain, hs.brackets]

/-! ## Parentheses -/

/-- behind an opening parenthesis, blanks aside, what makes no other bracket and no cast of it -/
structure Starts (text : List Char) : Prop where
  nonempty : text ≠ []
  blank : ∀ c ∈ text.head?, isBlank c = false
  bracket : ∀ c ∈ text.head?, c ≠ '\x7b' ∧ c ≠ '[' ∧ c ≠ ':'
  cast : ∀ type ∈ Words.castTypes, startsWith type.toList text = true →
    ∃ c ∈ (text.drop type.length).head?, isLetterOrDigit c = true

namespace Starts

/-- what starts with no letter starts no type -/
theorem ofMark {c : Char} {after : List Char} (hblank : isBlank c = false) (hbracket : c ≠ '\x7b' ∧ c ≠ '[' ∧ c ≠ ':')
    (hletter : isLetter c = false) : Starts (c :: after) where
  nonempty := by simp
  blank := by simpa using hblank
  bracket := by simpa using hbracket
  cast type htype hstarts := by
    have hfirst : Words.castTypes.all (fun type => type.toList.head?.any isLetter) = true := by decide
    have htype := List.all_eq_true.1 hfirst type htype
    cases htext : type.toList with
    | nil => simp [htext] at htype
    | cons d more =>
      rw [htext] at hstarts htype
      by_cases hd : d = c
      · subst hd
        simp [hletter] at htype
      · rw [Lexer.startsWith_of_ne hd] at hstarts
        cases hstarts

/-- a name is no type, and goes on where a type that it starts with ends -/
theorem ofName {text rest : List Char} (h : NameText text) (hrest : Closed rest) : Starts (text ++ rest) := by
  obtain ⟨c, after, rfl, hletter⟩ := h.starts
  have hword := isLetterOrDigit_of_isLetter hletter
  have hne {d : Char} (hd : isLetterOrDigit d = false) : c ≠ d := by
    rintro rfl
    rw [hword] at hd
    cases hd
  refine ⟨by simp, by simpa using not_isBlank_of_isLetterOrDigit hword, ?_, ?_⟩
  · simpa using ⟨hne (by decide), hne (by decide), hne (by decide)⟩
  · intro type htype hstarts
    obtain ⟨behind, hbehind⟩ := startsWith_iff.1 hstarts
    have hletters : Words.castTypes.all (fun type => type.toList.all isLetterOrDigit) = true := by decide
    have htypes : Words.castTypes.all (fun type => Words.classify type.toList != .name) = true := by decide
    have hall := List.all_eq_true.1 (List.all_eq_true.1 hletters type htype)
    have hclassify := List.all_eq_true.1 htypes type htype
    rcases List.append_eq_append_iff.1 hbehind with ⟨more, htype, hmore⟩ | ⟨more, htext, hmore⟩
    · -- the type would go on behind the name, or be it
      cases more with
      | nil =>
        rw [List.append_nil] at htype
        rw [htype, h.plain] at hclassify
        cases hclassify
      | cons d more =>
        have hd := hrest.not (p := isLetterOrDigit) (by decide) d (by simp [hmore])
        rw [hall d (by simp [htype])] at hd
        cases hd
    · cases more with
      | nil =>
        rw [List.append_nil] at htext
        rw [← htext, h.plain] at hclassify
        cases hclassify
      | cons d more =>
        refine ⟨d, ?_, h.goesOn d (by simp [htext])⟩
        have hlength : type.length = type.toList.length := (String.length_toList).symm
        rw [htext, hlength, List.append_assoc, List.drop_left]
        rfl

end Starts

namespace Lexer

variable {gap text : List Char}

theorem castTail_eq_none (hgap : ∀ c ∈ gap, isGapOrLineFeed c = true) (h : Starts text) : castTail (gap ++ text) = none := by
  have hfront : run isBlank (gap ++ text) = gap.length := by
    have hblank : ∀ c ∈ gap, isBlank c = true := fun c hc => isBlank_of_isGapOrLineFeed (hgap c hc)
    have hnone := run_nil_of_head h.blank
    rw [run] at hnone ⊢
    rw [List.takeWhile_append_of_pos hblank, List.length_append, hnone, Nat.add_zero]
  unfold castTail
  simp only [hfront, List.drop_left]
  split
  · rfl
  · next type hfind =>
    obtain ⟨c, hc, hword⟩ := h.cast type (List.mem_of_find?_eq_some hfind) (by simpa using List.find?_some hfind)
    obtain ⟨more, hmore⟩ := List.head?_eq_some_iff.1 hc
    have hpast : (gap ++ text).drop (gap.length + type.length) = c :: more := by
      rw [← List.drop_drop, List.drop_left, hmore]
    have hrun : run isBlank (c :: more) = 0 := run_nil_of_head (by simpa using not_isBlank_of_isLetterOrDigit hword)
    have hne {d : Char} (hd : isLetterOrDigit d = false) : d ≠ c := by
      rintro rfl
      rw [hword] at hd
      cases hd
    simp only [hpast, hrun, Nat.add_zero]
    split
    · next heq => exact absurd (List.cons.inj heq).1.symm (hne (by decide))
    · rw [hpast, startsWith_of_ne (hne (by decide)), if_neg Bool.false_ne_true]

theorem openParenCut_starts (hgap : ∀ c ∈ gap, isGapOrLineFeed c = true) (h : Starts text) {last : Kind}
    (hlast : last ≠ .foreachWord) (brackets : List Bracket) : openParenCut last brackets (gap ++ text) =
      { kind := .parenStart, size := 1, brackets := .paren :: brackets } := by
  -- whatever blanks are skipped, a blank comes next or the text
  have hhead {n : Nat} (hn : n ≤ gap.length) {d : Char} (hd : isGapOrLineFeed d = false) (hne : ∀ c ∈ text.head?, c ≠ d) :
      startsWith [d] ((gap ++ text).drop n) = false := by
    rw [List.drop_append_of_le_length hn]
    cases hdrop : gap.drop n with
    | nil =>
      obtain ⟨c, after, rfl⟩ := List.exists_cons_of_ne_nil h.nonempty
      exact startsWith_of_ne (hne c rfl).symm
    | cons c more =>
      refine startsWith_of_ne ?_
      rintro rfl
      rw [hgap d (List.mem_of_mem_drop (by rw [hdrop]; exact List.mem_cons_self))] at hd
      cases hd
  have hblanks : run (fun c => c == ' ' || c == '\t') (gap ++ text) ≤ gap.length := by
    have hnone : run (fun c => c == ' ' || c == '\t') text = 0 := by
      refine run_nil_of_head fun c hc => ?_
      by_contra hspace
      have hblank := h.blank c hc
      simp only [Bool.not_eq_false, Bool.or_eq_true, beq_iff_eq] at hspace
      rcases hspace with rfl | rfl <;> exact absurd hblank (by decide)
    rw [run] at hnone ⊢
    rw [List.takeWhile_append]
    split_ifs with hwhole
    · rw [List.length_append, hnone, Nat.add_zero]
    · exact (List.takeWhile_sublist _).length_le
  have hbrace := hhead (Nat.zero_le _) (d := '\x7b') (by decide) fun c hc => (h.bracket c hc).1
  have hbracket := hhead (Nat.zero_le _) (d := '[') (by decide) fun c hc => (h.bracket c hc).2.1
  have hcolon := hhead hblanks (d := ':') (by decide) fun c hc => (h.bracket c hc).2.2
  rw [List.drop_zero] at hbrace hbracket
  have hcast : (if refusesCast last then none else castTail (gap ++ text)) = none := by
    rw [castTail_eq_none hgap h, ite_self]
  unfold openParenCut
  extract_lets blanks cast
  rw [hbrace, hbracket, hcolon, Bool.false_and]
  simp only [Bool.false_eq_true, if_false, cast, hcast, hlast]

end Lexer

/-- **An opening parenthesis** stays one before what it may enclose. -/
theorem cutsOff_parenStart {gap text : List Char} (hgap : ∀ c ∈ gap, isGapOrLineFeed c = true) (h : Starts text) (n : Nat) :
    CutsOff n (n + 1) .parenStart ['('] (gap ++ text) := by
  refine ⟨by simp, by simp, '(', [], rfl, by decide, fun s hs => ?_⟩
  have hcut : s.tokenCut '(' ([] ++ (gap ++ text)) = Lexer.openParenCut s.last s.brackets (gap ++ text) := rfl
  rw [hcut, Lexer.openParenCut_starts hgap h hs.last, hs.brackets]
  rfl

theorem cutsOff_parenEnd (rest : List Char) (n : Nat) : CutsOff (n + 1) n .parenEnd [')'] rest := by
  refine ⟨by simp, by simp, ')', [], rfl, by decide, fun s hs => ?_⟩
  have hcut : s.tokenCut ')' ([] ++ rest) = Lexer.closeParenCut s.brackets := rfl
  rw [hcut, hs.brackets]
  rfl

theorem cutsOff_colon {rest : List Char} (hrest : Closed rest) (n : Nat) : CutsOff n n .colon [':'] rest := by
  refine ⟨by simp, by simp, ':', [], rfl, by decide, fun s hs => ?_⟩
  have hcut : s.tokenCut ':' ([] ++ rest) = Lexer.colonCut s.brackets rest := rfl
  have hone : startsWith [':'] rest = false := by
    cases rest with
    | nil => rfl
    | cons c rest =>
      have hc := hrest.not (p := (· == ':')) (by decide) c rfl
      exact Lexer.startsWith_of_ne (Ne.symm (by simpa using hc))
  rw [hcut, hs.brackets]
  cases n <;> simp [Lexer.colonCut, hone, List.replicate_succ]

theorem cutsOff_question (rest : List Char) (n : Nat) : CutsOff n n .question ['?'] rest := by
  refine ⟨by simp, by simp, '?', [], rfl, by decide, fun s hs => ?_⟩
  rw [← hs.brackets]
  rfl

theorem cutsOff_semicolon (rest : List Char) (n : Nat) : CutsOff n n .semicolon [';'] rest := by
  refine ⟨by simp, by simp, ';', [], rfl, by decide, fun s hs => ?_⟩
  rw [← hs.brackets]
  rfl

/-! ## Operators -/

/-- the operators with their kinds -/
def operators : List (Kind × List Char) := Words.operators.map fun p => (p.2, p.1.toList)

/-- an operator, comment or arrow starts with the operator and the character after it -/
def goesOn (op : List Char) (c : Char) : Bool :=
  (["//", "/*", "->"] ++ Words.operators.map (·.1)).any fun long => startsWith (op ++ [c]) long.toList

theorem startsWith_of_goesOn {op : List Char} {c : Char} (h : goesOn op c = false) {long : String}
    (hlong : long ∈ ["//", "/*", "->"] ++ Words.operators.map (·.1)) : startsWith (op ++ [c]) long.toList = false := by
  by_contra hstarts
  rw [goesOn, List.any_eq_false] at h
  exact h long hlong (by simpa using hstarts)

/-- the characters that operators, comments and arrows are written with -/
def operatorMarks : List Char := ['>', '<', '&', '|', '+', '-', '^', '*', '%', '/', '=', '!', '~']

theorem mem_operatorMarks_of_long {long : String} (hlong : long ∈ ["//", "/*", "->"] ++ Words.operators.map (·.1)) {c : Char}
    (hc : c ∈ long.toList) : c ∈ operatorMarks := by
  have hall : (["//", "/*", "->"] ++ Words.operators.map (·.1)).all (fun long => long.toList.all operatorMarks.contains) =
      true := by decide
  simpa using List.all_eq_true.1 (List.all_eq_true.1 hall long hlong) c hc

theorem mem_operatorMarks {op : Kind × List Char} (hop : op ∈ operators) {c : Char} (hc : c ∈ op.2) :
    c ∈ operatorMarks := by
  obtain ⟨p, hp, rfl⟩ := List.mem_map.1 hop
  exact mem_operatorMarks_of_long (List.mem_append_right _ (List.mem_map_of_mem hp)) hc

/-- a class without marks -/
theorem not_of_mark {p : Char → Bool} (hnone : operatorMarks.all (!p ·) = true) {c : Char} (hc : c ∈ operatorMarks) :
    p c = false := by
  simpa using List.all_eq_true.1 hnone c hc

/-- operators go on with marks alone -/
theorem goesOn_of_unmarked {p : Char → Bool} (hnone : operatorMarks.all (!p ·) = true) {c : Char} (h : p c = true)
    (op : List Char) : goesOn op c = false := by
  rw [goesOn, List.any_eq_false]
  intro long hlong hstarts
  obtain ⟨rest, hrest⟩ := startsWith_iff.1 hstarts
  rw [not_of_mark hnone (mem_operatorMarks_of_long hlong (by simp [hrest]))] at h
  cases h

/-- what starts with an operator and more is the operator, or goes on with the character behind it -/
theorem startsWith_append {long op rest : List Char} (h : startsWith long (op ++ rest) = true)
    (hrest : ∀ c ∈ rest.head?, startsWith (op ++ [c]) long = false) : startsWith long op = true := by
  obtain ⟨behind, hbehind⟩ := startsWith_iff.1 h
  rcases List.append_eq_append_iff.1 hbehind with ⟨more, rfl, hmore⟩ | ⟨more, rfl, -⟩
  · cases more with
    | nil => exact startsWith_iff.2 ⟨[], by simp⟩
    | cons c more =>
      have hno := hrest c (by simp [hmore])
      rw [startsWith_iff.2 ⟨more, by simp⟩] at hno
      cases hno
  · exact startsWith_iff.2 ⟨more, rfl⟩

namespace Lexer

variable {op rest : List Char} {kind : Kind}

/-- the first operator that matches is the whole one -/
theorem operatorCut_mark (hop : (kind, op) ∈ operators) (hrest : ∀ c ∈ rest.head?, goesOn op c = false)
    (brackets : List Bracket) : operatorCut brackets (op ++ rest) = { kind, size := op.length, brackets } := by
  obtain ⟨⟨mark, kind⟩, hmem, heq⟩ := List.mem_map.1 hop
  cases heq
  have hfirst : Words.operators.all (fun p => decide (Words.operators.find? (fun q => startsWith q.1.toList p.1.toList) = some p)) =
      true := by decide
  have hself := of_decide_eq_true (List.all_eq_true.1 hfirst _ hmem)
  have hfind : Words.operators.find? (fun q => startsWith q.1.toList (mark.toList ++ rest)) = some (mark, kind) := by
    rw [← hself]
    refine List.find?_congr fun q hq => Bool.eq_iff_iff.2 ⟨fun hstarts => ?_, fun hstarts => ?_⟩
    · refine startsWith_append hstarts fun c hc => startsWith_of_goesOn (hrest c hc) ?_
      exact List.mem_append_right _ (List.mem_map_of_mem hq)
    · obtain ⟨more, hmore⟩ := startsWith_iff.1 hstarts
      exact startsWith_iff.2 ⟨more ++ rest, by rw [hmore, List.append_assoc]⟩
  unfold operatorCut
  rw [hfind]
  simp [String.length_toList]

/-- behind the marks that the lexer asks for first come operators -/
theorem tokenCut_mark {s : Lexer} {n : Nat} (hs : s.Idle n) {c : Char} {after : List Char}
    (hop : (kind, c :: after) ∈ operators) (hrest : ∀ d ∈ rest.head?, goesOn (c :: after) d = false)
    (hless : c = '<' → ∀ d ∈ rest.head?, isLetter d = false) :
    s.tokenCut c (after ++ rest) = operatorCut s.brackets (c :: after ++ rest) := by
  have hlong (long : String) (hlong : long ∈ ["//", "/*", "->"])
      (hnone : operators.all (fun p => !startsWith long.toList p.2) = true) :
      startsWith long.toList (c :: (after ++ rest)) = false := by
    by_contra hstarts
    have hop := List.all_eq_true.1 hnone _ hop
    have hstarts' : startsWith long.toList (c :: after ++ rest) = true := by simpa using hstarts
    have hwhole : startsWith long.toList (c :: after) = true :=
      startsWith_append hstarts' fun d hd => startsWith_of_goesOn (hrest d hd) (List.mem_append_left _ hlong)
    rw [hwhole] at hop
    cases hop
  have hline := hlong "//" (by simp) (by decide)
  have hblock := hlong "/*" (by simp) (by decide)
  have harrow := hlong "->" (by simp) (by decide)
  have hmark := mem_operatorMarks hop (c := c) (by simp)
  have hother {p : Char → Bool} (hnone : operatorMarks.all (!p ·) = true) : p c = false := not_of_mark hnone hmark
  have hindex : s.isFromEnd (after ++ rest) = false := by
    have hbracket : (s.brackets.head? == some Bracket.index) = false := by
      rw [hs.brackets]
      cases n <;> rfl
    rw [isFromEnd, hbracket]
    rfl
  have hstruct : (c == '<' && s.last == .parenStart && decide (0 < structType (c :: (after ++ rest)))) = false := by
    by_cases hc : c = '<'
    · subst hc
      have hhead : ∀ d ∈ (after ++ rest).head?, isLetter d = false := by
        cases after with
        | nil => exact hless rfl
        | cons d after =>
          rintro _ ⟨⟩
          exact not_of_mark (by decide) (mem_operatorMarks hop (by simp))
      have hword : word (after ++ rest) = 0 := by
        cases hz : after ++ rest with
        | nil => rfl
        | cons d z => simp [word, hhead d (by rw [hz]; rfl)]
      simp [structType, hword]
    · simp [hc]
  unfold tokenCut
  extract_lets ahead brackets mark
  rw [hline, hblock, harrow, hother (p := (· == '#')) (by decide), hother (p := (· == '@')) (by decide),
    hother (p := (· == '\x22')) (by decide), hother (p := (· == '\x27')) (by decide),
    hother (p := (· == '$')) (by decide), hother (p := Char.isDigit) (by decide),
    hother (p := isLetter) (by decide), hother (p := (· == '(')) (by decide),
    hother (p := (· == ')')) (by decide), hother (p := (· == '\x7b')) (by decide),
    hother (p := (· == '\x7d')) (by decide), hother (p := (· == '[')) (by decide),
    hother (p := (· == ']')) (by decide), hother (p := (· == ':')) (by decide),
    hother (p := (· == ';')) (by decide), hother (p := (· == ',')) (by decide),
    hother (p := (· == '?')) (by decide), hother (p := (· == '.')) (by decide), hindex, hstruct]
  simp only [Bool.false_eq_true, if_false, Bool.and_false]
  rfl

end Lexer

/-- **An operator is cut off whole** before what makes no longer one of it. -/
theorem cutsOff_operator {kind : Kind} {op rest : List Char} (hop : (kind, op) ∈ operators)
    (hrest : ∀ c ∈ rest.head?, goesOn op c = false) (hless : op.head? = some '<' → ∀ c ∈ rest.head?, isLetter c = false)
    (n : Nat) : CutsOff n n kind op rest := by
  have hkind : operators.all (fun p => decide (p.1 ≠ .endOfFile) && decide (p.1 ≠ .foreachWord) &&
      p.2.head?.any (!isGapOrLineFeed ·)) = true := by decide
  have hop' := List.all_eq_true.1 hkind _ hop
  simp only [Bool.and_eq_true, decide_eq_true_eq] at hop'
  obtain ⟨⟨hend, hloop⟩, hfirst⟩ := hop'
  cases op with
  | nil => cases hfirst
  | cons c after =>
    refine ⟨hend, hloop, c, after, rfl, by simpa using hfirst, fun s hs => ?_⟩
    rw [Lexer.tokenCut_mark hs hop hrest fun hc => hless (by rw [hc]; rfl), Lexer.operatorCut_mark hop hrest, hs.brackets]

end LpcStyle
