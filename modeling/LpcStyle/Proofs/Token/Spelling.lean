import Mathlib
import LpcStyle.Proofs.Text.Closing
import LpcStyle.Token.Stream

/-!
How the tokens of a kind are spelled. `Spelt` gives the texts that a kind allows; kinds that it does not name allow any.
Main statements:
- `classify_spelt`: a word is spelled as its kind says, and is a name if it has no kind of its own;
- `castText_of_castTail`: what is counted as a cast is one;
- `StrayEnd.not_spelt`: the end of a closure that stops at a blank is not spelled as one.
-/

namespace LpcStyle

open Text Pattern

/-! ## Runs of characters -/

namespace Pattern

theorem take_run (p : Char → Bool) (text : List Char) : text.take (run p text) = text.takeWhile p :=
  (List.prefix_iff_eq_take.1 (List.takeWhile_prefix p)).symm

theorem drop_run (p : Char → Bool) (text : List Char) : text.drop (run p text) = text.dropWhile p := by
  have h := List.take_append_drop (run p text) text
  rw [take_run] at h
  exact List.append_cancel_left (h.trans List.takeWhile_append_dropWhile.symm)

theorem of_mem_take_run {p : Char → Bool} {text : List Char} {c : Char} (h : c ∈ text.take (run p text)) :
    p c = true := by
  rw [take_run] at h
  exact List.all_eq_true.1 List.all_takeWhile c h

/-- a run goes on as long as it can -/
theorem run_maximal {p : Char → Bool} {text : List Char} {c : Char} (h : c ∈ (text.drop (run p text)).head?) :
    p c = false := by
  have hd := List.head?_dropWhile_not p text
  rw [← drop_run, Option.mem_def.1 h] at hd
  exact hd

theorem isBlank_of_isGapOrLineFeed {c : Char} (h : isGapOrLineFeed c = true) : isBlank c = true := by
  simp only [isGapOrLineFeed, isGap, Bool.or_eq_true, beq_iff_eq] at h
  rcases h with (((rfl | rfl) | rfl) | rfl) | rfl <;> decide

theorem isBlank_of_isGap {c : Char} (h : isGap c = true) : isBlank c = true :=
  isBlank_of_isGapOrLineFeed (by simp [isGapOrLineFeed, h])

/-- blanks lie below the letters, digits and marks or above them -/
theorem isBlank_bounds {c : Char} (h : isBlank c = true) : c.toNat ≤ 32 ∨ 133 ≤ c.toNat := by
  simp only [isBlank, Bool.or_eq_true, Bool.and_eq_true, beq_iff_eq, decide_eq_true_eq] at h
  rcases h with (((((((((rfl | h) | rfl) | rfl) | rfl) | h) | rfl) | rfl) | rfl) | rfl) | rfl
  case inl.inl.inl.inl.inl.inl.inl.inl.inl.inr =>
    have : c.toNat ≤ '\r'.toNat := h.2
    have h13 : '\r'.toNat = 13 := rfl
    omega
  case inl.inl.inl.inl.inl.inr =>
    have : '\u2000'.toNat ≤ c.toNat := h.1
    have h8192 : '\u2000'.toNat = 8192 := rfl
    omega
  all_goals decide

theorem isLetterOrDigit_bounds {c : Char} (h : isLetterOrDigit c = true) : 48 ≤ c.toNat ∧ c.toNat ≤ 122 := by
  simp only [isLetterOrDigit, Char.isAlphanum, Char.isAlpha, Char.isUpper, Char.isLower, Char.isDigit, Bool.or_eq_true,
    Bool.and_eq_true, beq_iff_eq, decide_eq_true_eq, ge_iff_le, UInt32.le_iff_toNat_le] at h
  change c = '_' ∨ ((65 ≤ c.toNat ∧ c.toNat ≤ 90) ∨ (97 ≤ c.toNat ∧ c.toNat ≤ 122)) ∨ 48 ≤ c.toNat ∧ c.toNat ≤ 57 at h
  rcases h with rfl | h
  · decide
  · omega

/-- letters, digits and underscores are no blanks -/
theorem not_isBlank_of_isLetterOrDigit {c : Char} (h : isLetterOrDigit c = true) : isBlank c = false := by
  by_contra hb
  have hblank := isBlank_bounds (by simpa using hb)
  have hword := isLetterOrDigit_bounds h
  omega

theorem isLetterOrDigit_of_isLetter {c : Char} (h : isLetter c = true) : isLetterOrDigit c = true := by
  simp only [isLetter, isLetterOrDigit, Char.isAlphanum, Bool.or_eq_true] at h ⊢
  exact h.imp_right Or.inl

/-- a word is as long as its letters and digits go on -/
theorem word_cons {c : Char} (h : isLetter c = true) (after : List Char) :
    word (c :: after) = run isLetterOrDigit (c :: after) := by
  simp [word, h]

theorem take_word_cons {c : Char} (h : isLetter c = true) (after : List Char) :
    (c :: after).take (word (c :: after)) = c :: after.takeWhile isLetterOrDigit := by
  rw [word_cons h, take_run, List.takeWhile_cons, isLetterOrDigit_of_isLetter h, if_pos rfl]

end Pattern

/-- every blank of the text is one that the lexer skips: a space, tab, carriage return, form feed or line feed -/
def PlainBlanks (text : List Char) : Prop := ∀ c ∈ text, isBlank c = true → isGapOrLineFeed c = true

instance (text : List Char) : Decidable (PlainBlanks text) :=
  List.decidableBAll (fun c => isBlank c = true → isGapOrLineFeed c = true) text

theorem PlainBlanks.drop {text : List Char} (h : PlainBlanks text) (n : Nat) : PlainBlanks (text.drop n) :=
  fun c hc => h c (List.mem_of_mem_drop hc)

/-! ## Spelling -/

/-- kinds with one spelling -/
@[simp] def Kind.spelling? : Kind → Option String
  | .ifWord => some "if"
  | .elseWord => some "else"
  | .forWord => some "for"
  | .foreachWord => some "foreach"
  | .whileWord => some "while"
  | .doWord => some "do"
  | .switchWord => some "switch"
  | .caseWord => some "case"
  | .defaultWord => some "default"
  | .returnWord => some "return"
  | .breakWord => some "break"
  | .continueWord => some "continue"
  | .inheritWord => some "inherit"
  | .parenStart => some "("
  | .parenEnd | .lambdaEnd => some ")"
  | .arrayStart => some "(\x7b"
  | .arrayEnd => some "\x7d)"
  | .mappingStart => some "(["
  | .mappingEnd => some "])"
  | .lambdaStart => some "lambda("
  | .indexStart => some "["
  | .indexEnd => some "]"
  | .leftBrace => some "\x7b"
  | .rightBrace => some "\x7d"
  | .semicolon => some ";"
  | .comma => some ","
  | .colon => some ":"
  | .doubleColon => some "::"
  | .question => some "?"
  | .arrow => some "->"
  | .dot => some "."
  | .ellipsis => some "..."
  | .range => some ".."
  | .fromEnd => some "<"
  | .star => some "*"
  | _ => none

/-- a cast: a type and at most one star in parentheses, with blanks around each -/
structure CastText (type star text : List Char) : Prop where
  known : Words.isAmong Words.castTypes type = true
  atMostOne : star = [] ∨ star = ['*']
  layout : ∃ front middle back : List Char, (∀ c ∈ front, isBlank c = true) ∧ (∀ c ∈ middle, isBlank c = true) ∧
    (∀ c ∈ back, isBlank c = true) ∧ text = '(' :: (front ++ type ++ middle ++ star ++ back) ++ [')']

/-- a name: a word without a meaning of its own -/
structure NameText (text : List Char) : Prop where
  starts : ∃ c after, text = c :: after ∧ isLetter c = true
  goesOn : ∀ c ∈ text, isLetterOrDigit c = true
  plain : Words.classify text = .name

/-- the texts that a kind allows -/
@[simp] def Spelt (kind : Kind) (text : List Char) : Prop :=
  match kind with
  | .blankLines => ∀ c ∈ text, isBlank c = true
  | .blockComment => ∃ inner, text = marked inner ∧ Unclosed inner
  | .name => NameText text
  | .unaryOp => text = ['!'] ∨ text = ['~']
  | .foreachIn => text = "in".toList ∨ text = ":".toList
  | .closureStart => ∃ blanks, (∀ c ∈ blanks, isBlank c = true) ∧ text = '(' :: blanks ++ [':']
  | .closureEnd => ∃ blanks, (∀ c ∈ blanks, isBlank c = true) ∧ text = ':' :: blanks ++ [')']
  | .typeCast => ∃ type star, CastText type star text
  | kind => ∀ spelling ∈ kind.spelling?, text = spelling.toList

/-- a closure's end whose parenthesis is looked for behind all blanks, and taken behind the skipped ones only: at another
blank `c` it stops, and the parenthesis is still ahead -/
structure StrayEnd (kind : Kind) (text ahead : List Char) : Prop where
  kind : kind = .closureEnd
  taken : ∃ gap c, text = ':' :: gap ++ [c] ∧ (∀ d ∈ gap, isGapOrLineFeed d = true) ∧ isBlank c = true ∧
    isGapOrLineFeed c = false
  behind : ∃ blanks rest, (∀ d ∈ blanks, isBlank d = true) ∧ ahead = blanks ++ ')' :: rest

/-- a closure's end that stops at a blank is not spelled as one -/
theorem StrayEnd.not_spelt {kind : Kind} {text ahead : List Char} (h : StrayEnd kind text ahead) : ¬Spelt kind text := by
  rintro hspelt
  obtain rfl := h.kind
  obtain ⟨gap, c, rfl, -, hblank, -⟩ := h.taken
  obtain ⟨blanks, -, hclose⟩ := hspelt
  have hlast := congrArg List.getLast? hclose
  simp only [List.getLast?_concat, Option.some.injEq] at hlast
  subst hlast
  exact absurd hblank (by decide)

theorem startsWith_iff {front text : List Char} : startsWith front text = true ↔ ∃ rest, text = front ++ rest := by
  rw [startsWith, List.isPrefixOf_iff_prefix]
  constructor
  · rintro ⟨rest, h⟩
    exact ⟨rest, h.symm⟩
  · rintro ⟨rest, h⟩
    exact ⟨rest, h.symm⟩

theorem take_of_startsWith {front text : List Char} (h : startsWith front text = true) :
    text.take front.length = front := by
  obtain ⟨rest, rfl⟩ := startsWith_iff.1 h
  exact List.take_left

theorem take_one_of_startsWith {c : Char} {text : List Char} (h : startsWith [c] text = true) : text.take 1 = [c] :=
  take_of_startsWith h

/-- the words with a fixed meaning are spelled as their kinds say, and all others are names -/
theorem classify_spelt {c : Char} (h : isLetter c = true) {after : List Char}
    (hafter : ∀ d ∈ after, isLetterOrDigit d = true) : Spelt (Words.classify (c :: after)) (c :: after) := by
  by_cases hname : Words.classify (c :: after) = .name
  · rw [hname]
    exact ⟨⟨c, after, rfl, h⟩, List.forall_mem_cons.2 ⟨isLetterOrDigit_of_isLetter h, hafter⟩, hname⟩
  revert hname
  simp only [Words.classify]
  split
  · simp
  · split
    · simp
    · split
      · next spelling kind hfind =>
        have htext := List.find?_some hfind
        have hmem := List.mem_of_find?_eq_some hfind
        simp only [beq_iff_eq] at htext
        simp only [Words.keywords, List.mem_cons, Prod.mk.injEq, List.not_mem_nil, or_false] at hmem
        rcases hmem with h | h | h | h | h | h | h | h | h | h | h | h | h <;> obtain ⟨rfl, rfl⟩ := h <;>
          simp [← htext]
      · split
        · simp
        · exact fun hname => absurd rfl hname

/-- what `castTail` counts is a cast without its opening parenthesis -/
theorem castText_of_castTail {ahead : List Char} {n : Nat} (h : castTail ahead = some n) :
    ∃ type star, CastText type star ('(' :: ahead.take n) := by
  rcases hfind : Words.castTypes.find? (startsWith ·.toList (ahead.drop (run isBlank ahead))) with _ | type
  · simp [castTail, hfind] at h
  have hstarts := List.find?_some hfind
  have htype := take_of_startsWith hstarts
  have hknown : Words.isAmong Words.castTypes type.toList = true :=
    List.any_eq_true.2 ⟨type, List.mem_of_find?_eq_some hfind, by simp⟩
  rw [String.length_toList] at htype
  simp only [castTail, hfind] at h
  generalize hpast : run isBlank ahead + type.length = past at h
  have htake : ahead.take past = ahead.take (run isBlank ahead) ++ type.toList := by
    rw [← hpast, List.take_add, htype]
  generalize hmiddle : run isBlank (ahead.drop past) = middle at h
  have hblank : ∀ c ∈ (ahead.drop past).take middle, isBlank c = true := by
    rw [← hmiddle]
    exact fun c hc => of_mem_take_run hc
  -- the star and the blanks after it, if there is one
  obtain ⟨star, back, hstar, hback, hpart, hclose, rfl⟩ : ∃ star back : List Char, (star = [] ∨ star = ['*']) ∧
      (∀ c ∈ back, isBlank c = true) ∧ (ahead.drop (past + middle)).take (star ++ back).length = star ++ back ∧
      startsWith [')'] (ahead.drop (past + middle + (star ++ back).length)) = true ∧
      n = past + middle + (star ++ back).length + 1 := by
    by_cases hd : ∃ rest, ahead.drop (past + middle) = '*' :: rest
    · obtain ⟨rest, hrest⟩ := hd
      have hlength : (['*'] ++ rest.take (run isBlank rest)).length = 1 + run isBlank rest := by
        rw [take_run, List.length_append, List.length_singleton, run]
      simp only [hrest, Option.ite_none_right_eq_some, Option.some.injEq] at h
      refine ⟨['*'], rest.take (run isBlank rest), .inr rfl, fun c hc => of_mem_take_run hc, ?_, ?_, ?_⟩
      · rw [hlength, hrest, Nat.add_comm, List.take_succ_cons]
        rfl
      · rw [hlength, ← Nat.add_assoc]
        exact h.1
      · rw [hlength, ← Nat.add_assoc]
        exact h.2.symm
    · split at h
      · next rest hrest => exact absurd ⟨rest, hrest⟩ hd
      · simp only [Option.ite_none_right_eq_some, Option.some.injEq] at h
        exact ⟨[], [], .inl rfl, by simp, by simp, by simpa using h.1, by simpa using h.2.symm⟩
  refine ⟨type.toList, star, hknown, hstar, ahead.take (run isBlank ahead), (ahead.drop past).take middle, back,
    fun c hc => of_mem_take_run hc, hblank, hback, ?_⟩
  rw [List.take_add, take_one_of_startsWith hclose, List.take_add, hpart, List.take_add, htake]
  simp

/-- the text that a cut takes is spelled as its kind says -/
def Cut.Spells (cut : Cut) (ahead : List Char) : Prop := Spelt cut.kind (ahead.take cut.size)

/-- the cut of a closure's end that stops before the parenthesis -/
def Cut.Strays (cut : Cut) (ahead : List Char) : Prop :=
  cut.slack = 0 ∧ StrayEnd cut.kind (ahead.take cut.size) (ahead.drop cut.size)

end LpcStyle
