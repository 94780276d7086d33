import Mathlib.Tactic
import LpcStyle.Proofs.Token.Spelling

/-!
Numbers before other tokens. A number that was cut off whole before some text is cut off whole before every text that closes
it: a blank, a parenthesis, a semicolon or a sign. Main statements: `NumberText.number_closed` and
`isNumeral_of_mem_number`.
-/

namespace LpcStyle

open Text Pattern

/-- characters that no name or number goes on with -/
def closers : List Char := [' ', '\t', '\r', '\x0c', '\n', '(', ')', ';', '+', '-']

/-- no name or number goes on there -/
def Closed (rest : List Char) : Prop := ∀ c ∈ rest.head?, c ∈ closers

theorem mem_closers_of_gap {c : Char} (h : isGapOrLineFeed c = true) : c ∈ closers := by
  simp only [isGapOrLineFeed, isGap, Bool.or_eq_true, beq_iff_eq] at h
  rcases h with (((rfl | rfl) | rfl) | rfl) | rfl <;> decide

/-- whatever fails for every closing character fails for the first one -/
theorem Closed.not {p : Char → Bool} (hp : closers.all (!p ·) = true) {rest : List Char} (h : Closed rest) :
    ∀ c ∈ rest.head?, p c = false := fun c hc => by simpa using List.all_eq_true.1 hp c (h c hc)

namespace Pattern

variable {w y rest : List Char}

theorem run_nil_of_head {p : Char → Bool} (h : ∀ c ∈ rest.head?, p c = false) : run p rest = 0 := by
  cases rest with
  | nil => rfl
  | cons c rest => simp [run, h c rfl]

/-- a run that ends inside the text ends there whatever comes behind the text -/
theorem run_swap {p : Char → Bool} (h : run p (w ++ y) ≤ w.length) (hrest : ∀ c ∈ rest.head?, p c = false) :
    run p (w ++ rest) = run p (w ++ y) := by
  induction w with
  | nil =>
    have hzero : run p y = 0 := by simpa using h
    rw [List.nil_append, List.nil_append, hzero, run_nil_of_head hrest]
  | cons c w ih =>
    by_cases hc : p c = true
    · have hlater : run p (w ++ y) ≤ w.length := by simpa [run, hc] using h
      simpa [run, hc] using ih hlater
    · simp [run, hc]

theorem wholePart_of_ne {c : Char} (h : c ≠ '0') (after : List Char) :
    wholePart (c :: after) = run Char.isDigit (c :: after) := by
  unfold wholePart
  split
  · next heq => exact absurd (List.cons.inj heq).1 h
  · rfl

theorem wholePart_swap {c : Char} (h : wholePart (c :: w ++ y) ≤ (c :: w).length) (hrest : Closed rest) :
    wholePart (c :: w ++ rest) = wholePart (c :: w ++ y) := by
  have hdigit := hrest.not (p := Char.isDigit) (by decide)
  have hhex := hrest.not (p := isHexDigit) (by decide)
  by_cases hc : c = '0'
  · subst hc
    cases w with
    | nil =>
      -- a lone zero, which no letter makes a prefix
      have hletter := hrest.not (p := fun d => d == 'b' || d == 'o' || (d == 'x' || d == 'X')) (by decide)
      have hone : wholePart ('0' :: rest) = 1 := by
        cases rest with
        | nil => rfl
        | cons d rest =>
          have hd := hletter d rfl
          simp only [Bool.or_eq_false_iff] at hd
          simp [wholePart, hd, run_nil_of_head hdigit]
      have hpos : 0 < wholePart ('0' :: y) := by
        cases y with
        | nil => simp [wholePart, run, Char.isDigit]
        | cons d y =>
          simp only [wholePart]
          split_ifs <;> omega
      simp only [List.cons_append, List.nil_append, List.length_singleton] at h ⊢
      omega
    | cons d w =>
      simp only [List.cons_append, wholePart, List.length_cons] at h ⊢
      split_ifs at h ⊢
      · rw [run_swap (y := y) (by omega) hdigit]
      · rw [run_swap (y := y) (by omega) hhex]
      · have hswap := run_swap (w := d :: w) (y := y) (p := Char.isDigit)
            (by simp only [List.cons_append, List.length_cons]; omega) hdigit
        simpa using hswap
  · rw [List.cons_append, List.cons_append, wholePart_of_ne hc, wholePart_of_ne hc] at *
    exact run_swap (w := c :: w) h hdigit

theorem fraction_swap (h : fraction (w ++ y) ≤ w.length) (hrest : Closed rest) :
    fraction (w ++ rest) = fraction (w ++ y) := by
  have hdigit := hrest.not (p := Char.isDigit) (by decide)
  have hpoint := hrest.not (p := (· == '.')) (by decide)
  have hother {c : Char} (hc : c ≠ '.') (after : List Char) : fraction (c :: after) = 0 := by
    unfold fraction
    split
    · next heq => exact absurd (List.cons.inj heq).1 hc
    · rfl
  cases w with
  | nil =>
    have hnone : fraction rest = 0 := by
      cases rest with
      | nil => rfl
      | cons c rest => exact hother (by simpa using hpoint c rfl) rest
    simp only [List.nil_append, List.length_nil] at h ⊢
    omega
  | cons c w =>
    by_cases hc : c = '.'
    · subst hc
      cases w with
      | nil =>
        have hnone : fraction ('.' :: rest) = 0 := by
          cases rest with
          | nil => rfl
          | cons d rest => simp [fraction, hdigit d rfl]
        have hmany : fraction ('.' :: y) ≤ 1 → fraction ('.' :: y) = 0 := by
          cases y with
          | nil => simp [fraction]
          | cons d y =>
            by_cases hd : d.isDigit = true
            · simp [fraction, hd, run]
            · simp [fraction, hd]
        simp only [List.cons_append, List.nil_append, List.length_singleton] at h ⊢
        rw [hnone, hmany h]
      | cons d w =>
        simp only [List.cons_append, fraction, List.length_cons] at h ⊢
        split_ifs at h ⊢ with hd
        · have hswap := run_swap (w := d :: w) (p := Char.isDigit) (y := y)
              (by simpa using Nat.le_of_succ_le_succ (by omega)) hdigit
          simpa using hswap
        · rfl
    · rw [List.cons_append, List.cons_append, hother hc, hother hc]

/-- how many characters the sign of an exponent takes -/
def signSize : List Char → Nat
  | c :: _ => if c == '-' || c == '+' then 1 else 0
  | [] => 0

theorem exponent_cons (e : Char) (after : List Char) : exponent (e :: after) =
    if (e == 'e' || e == 'E') = true ∧ 0 < run Char.isDigit (after.drop (signSize after)) then
      1 + signSize after + run Char.isDigit (after.drop (signSize after)) else 0 := by
  have hunfold : exponent (e :: after) = if e == 'e' || e == 'E' then
      match after.drop (signSize after) with
      | c :: digits => if c.isDigit then 1 + signSize after + run Char.isDigit (c :: digits) else 0
      | [] => 0
    else 0 := rfl
  rw [hunfold]
  by_cases he : (e == 'e' || e == 'E') = true
  · rw [if_pos he]
    cases after.drop (signSize after) with
    | nil => simp [run]
    | cons c digits =>
      by_cases hc : c.isDigit = true
      · simp [run, hc, he]
      · simp [run, hc]
  · rw [if_neg he, if_neg (by simp [he])]

theorem exponent_swap (h : exponent (w ++ y) = w.length) (hrest : Closed rest) : exponent (w ++ rest) = w.length := by
  have hdigit := hrest.not (p := Char.isDigit) (by decide)
  have hletter := hrest.not (p := fun c => c == 'e' || c == 'E') (by decide)
  cases w with
  | nil =>
    cases rest with
    | nil => rfl
    | cons c rest =>
      have hc := hletter c rfl
      rw [List.nil_append, exponent_cons, hc]
      rfl
  | cons e w =>
    rw [List.cons_append, exponent_cons] at h ⊢
    split_ifs at h with hexponent
    -- an exponent of no length would leave something of the text
    obtain ⟨he, hpos⟩ := hexponent
    cases w with
    | nil =>
      simp only [List.nil_append, List.length_singleton] at h hpos
      omega
    | cons c w =>
      -- the sign is one of the text itself, so only the digits go on
      have hsign (z : List Char) : signSize (c :: w ++ z) = signSize [c] := rfl
      have hone : signSize [c] ≤ 1 := by
        simp only [signSize]
        split_ifs <;> simp
      have hdrop (z : List Char) : (c :: w ++ z).drop (signSize [c]) = (c :: w).drop (signSize [c]) ++ z :=
        List.drop_append_of_le_length (by simp only [List.length_cons]; omega)
      rw [hsign, hdrop, List.length_cons] at h
      rw [hsign, hdrop] at hpos
      have hlength : ((c :: w).drop (signSize [c])).length = (c :: w).length - signSize [c] := List.length_drop
      have hrun := run_swap (y := y) (by rw [hlength]; omega) hdigit
      rw [hsign, hdrop, hrun, if_pos ⟨he, hpos⟩, List.length_cons, h]

theorem run_le (p : Char → Bool) (text : List Char) : run p text ≤ text.length := (List.takeWhile_sublist p).length_le

/-- a number takes no more than there is -/
theorem number_le (text : List Char) : number text ≤ text.length := by
  have hwhole (text : List Char) : wholePart text ≤ text.length := by
    unfold wholePart
    split
    · next c rest =>
      have := run_le Char.isDigit rest
      have := run_le isHexDigit rest
      have := run_le Char.isDigit (c :: rest)
      simp only [List.length_cons] at *
      split_ifs <;> omega
    · exact run_le _ _
  have hfraction (text : List Char) : fraction text ≤ text.length := by
    unfold fraction
    split
    · next c rest =>
      have := run_le Char.isDigit (c :: rest)
      simp only [List.length_cons] at *
      split_ifs <;> omega
    · omega
  have hexponent (text : List Char) : exponent text ≤ text.length := by
    cases text with
    | nil => rfl
    | cons e after =>
      rw [exponent_cons]
      have := run_le Char.isDigit (after.drop (signSize after))
      rw [List.length_drop] at this
      split_ifs with h
      · rw [List.length_cons]
        omega
      · omega
  unfold number
  have := hwhole text
  have := hfraction (text.drop (wholePart text))
  have := hexponent (text.drop (wholePart text + fraction (text.drop (wholePart text))))
  simp only [List.length_drop] at *
  omega

/-- what numbers are made of -/
def isNumeral (c : Char) : Bool := isLetterOrDigit c || c == '.' || c == '-' || c == '+'

theorem isNumeral_of_isHexDigit {c : Char} (h : isHexDigit c = true) : isNumeral c = true := by
  simp only [isHexDigit, Char.isDigit, Bool.or_eq_true, Bool.and_eq_true, decide_eq_true_eq, ge_iff_le, Char.le_def,
    UInt32.le_iff_toNat_le] at h
  change ((48 ≤ c.toNat ∧ c.toNat ≤ 57) ∨ (97 ≤ c.toNat ∧ c.toNat ≤ 102)) ∨ (65 ≤ c.toNat ∧ c.toNat ≤ 70) at h
  have hword : isLetterOrDigit c = true := by
    simp only [isLetterOrDigit, Char.isAlphanum, Char.isAlpha, Char.isUpper, Char.isLower, Char.isDigit, Bool.or_eq_true,
      Bool.and_eq_true, beq_iff_eq, decide_eq_true_eq, ge_iff_le, UInt32.le_iff_toNat_le]
    change c = '_' ∨ ((65 ≤ c.toNat ∧ c.toNat ≤ 90) ∨ (97 ≤ c.toNat ∧ c.toNat ≤ 122)) ∨ 48 ≤ c.toNat ∧ c.toNat ≤ 57
    omega
  simp [isNumeral, hword]

theorem isNumeral_of_isDigit {c : Char} (h : c.isDigit = true) : isNumeral c = true :=
  isNumeral_of_isHexDigit (by simp [isHexDigit, h])

/-- **A number is made of letters, digits, points and signs.** -/
theorem isNumeral_of_mem_number (text : List Char) : ∀ c ∈ text.take (number text), isNumeral c = true := by
  have hdigits (text : List Char) : ∀ c ∈ text.take (run Char.isDigit text), isNumeral c = true :=
    fun c hc => isNumeral_of_isDigit (of_mem_take_run hc)
  have hwhole (text : List Char) : ∀ c ∈ text.take (wholePart text), isNumeral c = true := by
    unfold wholePart
    split
    · next d rest =>
      split_ifs with hd hd
      · rw [Nat.add_comm, List.take_succ_cons, List.take_succ_cons, List.forall_mem_cons, List.forall_mem_cons]
        refine ⟨by decide, ?_, hdigits rest⟩
        simp only [Bool.or_eq_true, beq_iff_eq] at hd
        rcases hd with rfl | rfl <;> decide
      · rw [Nat.add_comm, List.take_succ_cons, List.take_succ_cons, List.forall_mem_cons, List.forall_mem_cons]
        refine ⟨by decide, ?_, fun c hc => isNumeral_of_isHexDigit (of_mem_take_run hc)⟩
        simp only [Bool.or_eq_true, beq_iff_eq] at hd
        rcases hd with rfl | rfl <;> decide
      · rw [Nat.add_comm, List.take_succ_cons, List.forall_mem_cons]
        exact ⟨by decide, hdigits _⟩
    · exact hdigits _
  have hfraction (text : List Char) : ∀ c ∈ text.take (fraction text), isNumeral c = true := by
    unfold fraction
    split
    · split_ifs
      · rw [Nat.add_comm, List.take_succ_cons, List.forall_mem_cons]
        exact ⟨by decide, hdigits _⟩
      · simp
    · simp
  have hsign (text : List Char) : ∀ c ∈ text.take (signSize text), isNumeral c = true := by
    cases text with
    | nil => simp
    | cons d rest =>
      by_cases hd : (d == '-' || d == '+') = true
      · simp only [Bool.or_eq_true, beq_iff_eq] at hd
        rcases hd with rfl | rfl <;> simp [signSize] <;> decide
      · simp [signSize, hd]
  have hexponent (text : List Char) : ∀ c ∈ text.take (exponent text), isNumeral c = true := by
    cases text with
    | nil => simp
    | cons e after =>
      rw [exponent_cons]
      split_ifs with h
      · rw [Nat.add_assoc, Nat.add_comm, List.take_succ_cons, List.forall_mem_cons, List.take_add]
        refine ⟨?_, fun c hc => ?_⟩
        · have he := h.1
          simp only [Bool.or_eq_true, beq_iff_eq] at he
          rcases he with rfl | rfl <;> decide
        · exact (List.mem_append.1 hc).elim (hsign _ c) (hdigits _ c)
      · simp
  intro c hc
  unfold number at hc
  dsimp only at hc
  rw [List.take_add, List.take_add, List.mem_append, List.mem_append] at hc
  rcases hc with (hc | hc) | hc
  · exact hwhole _ c hc
  · exact hfraction _ c hc
  · exact hexponent _ c hc

end Pattern

/-- a number: it starts with a digit and is cut off whole before some text -/
structure NumberText (text : List Char) : Prop where
  starts : ∃ c after, text = c :: after ∧ c.isDigit = true
  whole : ∃ y, number (text ++ y) = text.length

/-- so it has no blanks in it -/
theorem NumberText.solid {text : List Char} (h : NumberText text) : ∀ c ∈ text, isBlank c = false := by
  intro c hc
  obtain ⟨y, hy⟩ := h.whole
  have hnumeral := isNumeral_of_mem_number (text ++ y) c (by rw [hy, List.take_left]; exact hc)
  simp only [isNumeral, Bool.or_eq_true, beq_iff_eq] at hnumeral
  rcases hnumeral with ((hword | rfl) | rfl) | rfl
  · exact not_isBlank_of_isLetterOrDigit hword
  · decide
  · decide
  · decide

theorem NumberText.number_closed {text rest : List Char} (h : NumberText text) (hrest : Closed rest) :
    number (text ++ rest) = text.length := by
  obtain ⟨c, after, rfl, -⟩ := h.starts
  obtain ⟨y, hy⟩ := h.whole
  unfold number at hy ⊢
  dsimp only at hy ⊢
  have hwhole := wholePart_swap (c := c) (w := after) (y := y) (by omega) hrest
  have hdrop {n : Nat} (hn : n ≤ (c :: after).length) (z : List Char) : (c :: after ++ z).drop n = (c :: after).drop n ++ z :=
    List.drop_append_of_le_length hn
  generalize wholePart (c :: after ++ y) = whole at hy hwhole
  rw [hwhole]
  rw [hdrop (by omega)] at hy ⊢
  have hfraction := fraction_swap (w := (c :: after).drop whole) (y := y) (by rw [List.length_drop]; omega) hrest
  generalize fraction ((c :: after).drop whole ++ y) = decimals at hy hfraction
  rw [hfraction]
  rw [hdrop (by omega)] at hy ⊢
  have hlength : ((c :: after).drop (whole + decimals)).length = (c :: after).length - (whole + decimals) := List.length_drop
  rw [exponent_swap (y := y) (by omega) hrest]
  omega

end LpcStyle
