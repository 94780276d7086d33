import Mathlib.Data.List.TakeWhile
import Mathlib.Tactic
import LpcStyle.Layout.Lines

/-!
Sieves: what is left of a text when all its blanks and commas, and perhaps some other characters, are taken out.
- An operation that only moves, adds or drops blanks does not change the sifted text: trimming, splitting into words and
  lines, joining by blanks (`sift_trim`, `sift_words`, `sift_join`).
- The last pass over laid-out text is such an operation (`sift_finish`).
-/

namespace LpcStyle.Text

/-- which characters of a text count; blanks and commas never do -/
structure Sieve where
  passes : Char → Bool
  not_blank : ∀ {c : Char}, isBlank c = true → passes c = false
  not_comma : passes ',' = false

namespace Sieve

variable (v : Sieve)

/-- the characters of a text that count -/
def sift (text : List Char) : List Char := text.filter v.passes

@[simp] theorem sift_nil : v.sift [] = [] := rfl

@[simp] theorem sift_append (a b : List Char) : v.sift (a ++ b) = v.sift a ++ v.sift b := List.filter_append ..

theorem sift_cons (c : Char) (text : List Char) : v.sift (c :: text) = v.sift [c] ++ v.sift text :=
  v.sift_append [c] text

theorem sift_eq_nil {text : List Char} (h : ∀ c ∈ text, v.passes c = false) : v.sift text = [] :=
  List.filter_eq_nil_iff.2 fun c hc => by simp [h c hc]

theorem sift_blanks {text : List Char} (h : ∀ c ∈ text, isBlank c = true) : v.sift text = [] :=
  v.sift_eq_nil fun c hc => v.not_blank (h c hc)

@[simp] theorem sift_comma : v.sift [','] = [] := v.sift_eq_nil (by simp [v.not_comma])

@[simp] theorem sift_space : v.sift [' '] = [] := v.sift_blanks (List.forall_mem_singleton.2 rfl)

@[simp] theorem sift_lineFeed : v.sift ['\n'] = [] := v.sift_blanks (List.forall_mem_singleton.2 rfl)

theorem sift_replicate {c : Char} (h : isBlank c = true) (n : Nat) : v.sift (List.replicate n c) = [] :=
  v.sift_blanks fun _ hd => (List.eq_of_mem_replicate hd) ▸ h

/-! ## Trimming -/

theorem sift_dropWhile {p : Char → Bool} (hp : ∀ c, p c = true → v.passes c = false) (text : List Char) :
    v.sift (text.dropWhile p) = v.sift text := by
  have h : v.sift (text.takeWhile p) = [] :=
    v.sift_eq_nil fun c hc => hp c (List.mem_takeWhile_imp hc)
  conv_rhs => rw [← List.takeWhile_append_dropWhile (p := p) (l := text)]
  rw [sift_append, h, List.nil_append]

theorem sift_dropEndWhile {p : Char → Bool} (hp : ∀ c, p c = true → v.passes c = false) (text : List Char) :
    v.sift (dropEndWhile p text) = v.sift text := by
  have h := v.sift_dropWhile hp text.reverse
  simp only [sift, List.filter_reverse] at h
  simp only [sift, dropEndWhile, List.filter_reverse, h, List.reverse_reverse]

theorem sift_trimStart (text : List Char) : v.sift (trimStart text) = v.sift text :=
  v.sift_dropWhile (fun _ => v.not_blank) text

theorem sift_trimEnd (text : List Char) : v.sift (trimEnd text) = v.sift text :=
  v.sift_dropEndWhile (fun _ => v.not_blank) text

@[simp] theorem sift_trim (text : List Char) : v.sift (trim text) = v.sift text := by
  rw [trim, sift_trimEnd, sift_trimStart]

/-! ## Pieces of a text -/

/-- splitting at characters that do not count loses nothing -/
theorem flatMap_sift_splitOn {p : Char → Bool} (hp : ∀ c, p c = true → v.passes c = false) (text : List Char) :
    (splitOn p text).flatMap v.sift = v.sift text := by
  induction text with
  | nil => rfl
  | cons c rest ih =>
    rw [sift_cons]
    simp only [splitOn]
    split
    · next h => exact absurd h (splitOn_ne_nil _ _)
    · next piece pieces h =>
      rw [h, List.flatMap_cons] at ih
      split
      · next hc =>
        have hdrop : v.sift [c] = [] := v.sift_eq_nil (by simp [hp c hc])
        simp [hdrop, ih]
      · rw [List.flatMap_cons, v.sift_cons c piece, List.append_assoc, ih]

/-- joining by characters that do not count adds nothing -/
theorem sift_join {separator : List Char} (h : v.sift separator = []) (pieces : List (List Char)) :
    v.sift (join separator pieces) = pieces.flatMap v.sift := by
  induction pieces with
  | nil => rfl
  | cons piece pieces ih =>
    cases pieces with
    | nil => simp [join]
    | cons next pieces => simp [join_cons, h, ih]

theorem flatMap_sift_filter (pieces : List (List Char)) :
    (pieces.filter (!·.isEmpty)).flatMap v.sift = pieces.flatMap v.sift := by
  induction pieces with
  | nil => rfl
  | cons piece pieces ih => cases piece <;> simp [ih]

theorem flatMap_sift_words (text : List Char) : (words text).flatMap v.sift = v.sift text := by
  rw [words, flatMap_sift_filter, v.flatMap_sift_splitOn fun _ => v.not_blank]

/-! ## The last pass -/

theorem sift_tabbed (tabWidth : Nat) (line : List Char) : v.sift (Layout.tabbed tabWidth line) = v.sift line := by
  have hs : v.sift (line.takeWhile (· == ' ')) = [] :=
    v.sift_blanks fun c hc => by
      have : c = ' ' := by simpa using List.mem_takeWhile_imp hc
      rw [this]
      decide
  have hl : line.takeWhile (· == ' ') ++ line.drop (line.takeWhile (· == ' ')).length = line :=
    List.prefix_iff_eq_append.1 (List.takeWhile_prefix _)
  rw [Layout.tabbed, sift_append, sift_append, v.sift_replicate (by decide), v.sift_replicate (by decide)]
  conv_rhs => rw [← hl, sift_append, hs]
  rfl

theorem sift_finishLine (useTabs : Bool) (tabWidth : Nat) (line : List Char) :
    v.sift (Layout.finishLine useTabs tabWidth line) = v.sift line := by
  rw [Layout.finishLine]
  split
  · rw [sift_tabbed, sift_trimEnd]
  · rw [sift_trimEnd]

/-- **The last pass moves blanks only**: whatever counts in the laid-out text counts in the finished one. -/
theorem sift_finish (useTabs : Bool) (tabWidth : Nat) (text : List Char) :
    v.sift (Layout.finish useTabs tabWidth text) = v.sift text := by
  have hlf : ∀ c : Char, (c == '\n') = true → v.passes c = false := fun c hc =>
    v.not_blank ((beq_iff_eq.1 hc) ▸ by decide)
  have hbody : v.sift (dropEndWhile (· == '\n') (join ['\n'] ((lines text).map
      (Layout.finishLine useTabs tabWidth)))) = v.sift text := by
    rw [v.sift_dropEndWhile hlf, v.sift_join v.sift_lineFeed, List.flatMap_map]
    simp only [sift_finishLine]
    exact v.flatMap_sift_splitOn hlf text
  simp only [Layout.finish]
  split
  · next h => rw [← hbody, List.isEmpty_iff.1 h]
  · rw [sift_append, hbody, sift_lineFeed, List.append_nil]

end Sieve

end LpcStyle.Text
