import Mathlib.Tactic
import LpcStyle.Text.Blank

/-!
Words of a text that is put together of parts with blanks between them. Main statement: `words_gap`.
-/

namespace LpcStyle.Text

/-- a text is split at a character that it is split at, and on both sides of it -/
theorem splitOn_append_cons {p : Char → Bool} {c : Char} (hc : p c = true) (a b : List Char) :
    splitOn p (a ++ c :: b) = splitOn p a ++ splitOn p b := by
  induction a with
  | nil =>
    cases hb : splitOn p b with
    | nil => exact absurd hb (splitOn_ne_nil p b)
    | cons piece pieces => simp [splitOn, hb, hc]
  | cons d a ih =>
    cases ha : splitOn p a with
    | nil => exact absurd ha (splitOn_ne_nil p a)
    | cons piece pieces =>
      rw [ha, List.cons_append] at ih
      simp only [List.cons_append, splitOn, ih, ha]
      split <;> rfl

theorem words_append_cons {c : Char} (hc : isBlank c = true) (a b : List Char) :
    words (a ++ c :: b) = words a ++ words b := by
  rw [words, splitOn_append_cons hc, List.filter_append, words, words]

theorem words_blanks {gap : List Char} (hgap : ∀ c ∈ gap, isBlank c = true) (b : List Char) :
    words (gap ++ b) = words b := by
  induction gap with
  | nil => rfl
  | cons c gap ih =>
    obtain ⟨hc, hgap⟩ := List.forall_mem_cons.1 hgap
    exact (words_append_cons hc [] (gap ++ b)).trans (ih hgap)

/-- a text without blanks is one word -/
theorem words_of_solid {a : List Char} (h : ∀ c ∈ a, isBlank c = false) (hne : a ≠ []) : words a = [a] := by
  have hsplit : splitOn isBlank a = [a] := by
    clear hne
    induction a with
    | nil => rfl
    | cons c a ih =>
      obtain ⟨hc, ha⟩ := List.forall_mem_cons.1 h
      simp [splitOn, ih ha, hc]
  simp [words, hsplit, hne]

/-- **Blanks between two parts of a text part their words.** -/
theorem words_gap {gap : List Char} (hgap : ∀ c ∈ gap, isBlank c = true) (hne : gap ≠ []) (a b : List Char) :
    words (a ++ gap ++ b) = words a ++ words b := by
  obtain ⟨c, gap, rfl⟩ := List.exists_cons_of_ne_nil hne
  obtain ⟨hc, hgap⟩ := List.forall_mem_cons.1 hgap
  rw [List.append_assoc, List.cons_append, words_append_cons hc, words_blanks hgap]

end LpcStyle.Text
