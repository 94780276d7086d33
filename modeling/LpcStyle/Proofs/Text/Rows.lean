import Mathlib.Data.List.TakeWhile
import Mathlib.Tactic
import LpcStyle.Layout.Lines

/-!
Rows of a text: what lines, trimming and the last pass make of them. Main statement: `finish_rows`.
-/

namespace LpcStyle

open Text

namespace Text

/-! ## Trimming -/

theorem dropEndWhile_append {p : Char → Bool} (front : List Char) {back : List Char} (h : ∀ c ∈ back, p c = true) :
    dropEndWhile p (front ++ back) = dropEndWhile p front := by
  rw [dropEndWhile, List.reverse_append, List.dropWhile_append_of_pos (by simpa using h), dropEndWhile]

theorem trimEnd_concat (front : List Char) {c : Char} (h : isBlank c = false) : trimEnd (front ++ [c]) = front ++ [c] := by
  simp [trimEnd, dropEndWhile, h]

/-- no character of the text is blank, by evaluation -/
theorem plain_of_all {text : List Char} (h : text.all (!isBlank ·) = true) : ∀ c ∈ text, isBlank c = false := by
  simpa using h

/-- blanks around a text do not matter to trimming -/
theorem trim_blanks {gap gap' : List Char} (text : List Char) (hgap : ∀ c ∈ gap, isBlank c = true)
    (hgap' : ∀ c ∈ gap', isBlank c = true) : trim (gap ++ text ++ gap') = trim text := by
  rw [trim, trimStart, List.append_assoc, List.dropWhile_append_of_pos hgap, trim, trimStart]
  by_cases hall : ∀ c ∈ text, isBlank c = true
  · have hnone : text.dropWhile isBlank = [] := List.dropWhile_eq_nil_iff.2 hall
    have hnone' : gap'.dropWhile isBlank = [] := List.dropWhile_eq_nil_iff.2 hgap'
    rw [List.dropWhile_append_of_pos hall, hnone, hnone']
  · have hsome : text.dropWhile isBlank ≠ [] := fun hnone => hall (List.dropWhile_eq_nil_iff.1 hnone)
    rw [List.dropWhile_append, if_neg (by simpa using hsome)]
    exact dropEndWhile_append _ hgap'

/-- a text that neither starts nor ends with a blank -/
def Trimmed (text : List Char) : Prop :=
  (∀ c ∈ text.head?, isBlank c = false) ∧ ∀ c ∈ text.getLast?, isBlank c = false

theorem dropWhile_eq_self {p : Char → Bool} {text : List Char} (h : ∀ c ∈ text.head?, p c = false) :
    text.dropWhile p = text := by
  cases text with
  | nil => rfl
  | cons c rest => simp [h c rfl]

theorem Trimmed.trim_eq {text : List Char} (h : Trimmed text) : trim text = text := by
  rw [trim, trimStart, dropWhile_eq_self h.1, trimEnd, dropEndWhile, dropWhile_eq_self (by simpa using h.2),
    List.reverse_reverse]

theorem head?_dropWhile {p : Char → Bool} (text : List Char) : ∀ c ∈ (text.dropWhile p).head?, p c = false := by
  intro c hc
  have hne : text.dropWhile p ≠ [] := by
    intro hnil
    simp [hnil] at hc
  have hhead := List.head_dropWhile_not p hne
  rw [List.head?_eq_some_head hne] at hc
  exact Option.some.inj hc ▸ hhead

theorem trim_front (text : List Char) : trim text <+: trimStart text := by
  have hsuffix := List.dropWhile_suffix (l := (trimStart text).reverse) isBlank
  simpa [trim, trimEnd, dropEndWhile] using List.reverse_prefix.2 hsuffix

theorem trim_within (text : List Char) : trim text <:+: text :=
  (trim_front text).isInfix.trans (List.dropWhile_suffix _).isInfix

theorem trimmed_trim (text : List Char) : Trimmed (trim text) := by
  constructor
  · -- what is dropped at the end leaves the first character, if any is left
    intro c hc
    refine head?_dropWhile (p := isBlank) text c ?_
    cases htrim : trim text with
    | nil => simp [htrim] at hc
    | cons d rest =>
      obtain ⟨back, hback⟩ := trim_front text
      rw [htrim] at hback hc
      change c ∈ (trimStart text).head?
      rw [← hback]
      exact hc
  · intro c hc
    have hlast : c ∈ ((trimStart text).reverse.dropWhile isBlank).head? := by
      simpa [trim, trimEnd, dropEndWhile] using hc
    exact head?_dropWhile _ c hlast

/-! ## Lines -/

theorem lines_append {line rest : List Char} (h : '\n' ∉ line) : lines (line ++ '\n' :: rest) = line :: lines rest := by
  induction line with
  | nil =>
    simp only [lines, List.nil_append, splitOn]
    split
    · next hrest => exact absurd hrest (splitOn_ne_nil _ _)
    · next hrest => simp [hrest]
  | cons c line ih =>
    obtain ⟨hc, hline⟩ : '\n' ≠ c ∧ '\n' ∉ line := by simpa using h
    have htail := ih hline
    simp only [lines] at htail ⊢
    simp [splitOn, htail, hc.symm]

theorem lines_of_not_mem {line : List Char} (h : '\n' ∉ line) : lines line = [line] := by
  induction line with
  | nil => rfl
  | cons c line ih =>
    obtain ⟨hc, hline⟩ : '\n' ≠ c ∧ '\n' ∉ line := by simpa using h
    have htail := ih hline
    simp only [lines] at htail ⊢
    simp [splitOn, htail, hc.symm]

/-- rows that are joined by line feeds are the lines of the result -/
theorem lines_join {rows : List (List Char)} (hne : rows ≠ []) (h : ∀ row ∈ rows, '\n' ∉ row) :
    lines (join ['\n'] rows) = rows := by
  induction rows with
  | nil => exact absurd rfl hne
  | cons row rows ih =>
    obtain ⟨hrow, hrows⟩ := List.forall_mem_cons.1 h
    cases rows with
    | nil => exact lines_of_not_mem hrow
    | cons next rows =>
      rw [join_cons _ _ (by simp), List.append_assoc, List.singleton_append, lines_append hrow, ih (by simp) hrows]

theorem within_join {rows : List (List Char)} {row : List Char} (h : row ∈ rows) (separator : List Char) :
    row <:+: join separator rows := by
  induction rows with
  | nil => simp at h
  | cons first rows ih =>
    cases rows with
    | nil =>
      obtain rfl : row = first := by simpa using h
      exact List.infix_rfl
    | cons next rows =>
      rw [join_cons _ _ (by simp), List.append_assoc]
      rcases List.mem_cons.1 h with rfl | h
      · exact (List.prefix_append _ _).isInfix
      · exact (ih h).trans ((List.suffix_append _ _).trans (List.suffix_append _ _)).isInfix

theorem within_of_mem_lines {text line : List Char} (h : line ∈ lines text) : line <:+: text := by
  conv_rhs => rw [← join_lines text]
  exact within_join h _

theorem join_concat {rows : List (List Char)} (hne : rows ≠ []) (row : List Char) :
    join ['\n'] (rows ++ [row]) = join ['\n'] rows ++ '\n' :: row := by
  induction rows with
  | nil => exact absurd rfl hne
  | cons first rows ih =>
    cases rows with
    | nil => simp [join]
    | cons next rows =>
      rw [List.cons_append, join_cons _ _ (by simp), ih (by simp), join_cons _ _ (List.cons_ne_nil next rows)]
      simp

end Text

namespace Layout

/-- indentation by tabs leaves all but the leading spaces as it is -/
theorem tabbed_append (tabWidth : Nat) (front : List Char) {back : List Char} (h : back.head? ≠ some ' ') :
    tabbed tabWidth (front ++ back) = tabbed tabWidth front ++ back := by
  have hback : back.takeWhile (· == ' ') = [] := by
    cases back with
    | nil => rfl
    | cons c back =>
      have hc : c ≠ ' ' := by simpa using h
      simp [hc]
  have hspaces : (front ++ back).takeWhile (· == ' ') = front.takeWhile (· == ' ') := by
    rw [List.takeWhile_append]
    split
    · next hall => rw [hback, List.append_nil, (List.takeWhile_sublist _).eq_of_length hall]
    · rfl
  have hlength : (front.takeWhile (· == ' ')).length ≤ front.length := (List.takeWhile_sublist _).length_le
  simp only [tabbed, hspaces]
  rw [List.drop_append_of_le_length hlength]
  simp

/-- a row that ends with a character still ends with it when it is finished -/
theorem finishLine_concat (useTabs : Bool) (tabWidth : Nat) (front : List Char) {c : Char} (h : isBlank c = false) :
    ∃ front', finishLine useTabs tabWidth (front ++ [c]) = front' ++ [c] := by
  rw [finishLine, trimEnd_concat front h]
  split
  · refine ⟨_, tabbed_append tabWidth front ?_⟩
    rintro hspace
    obtain rfl : c = ' ' := by simpa using hspace
    exact absurd h (by decide)
  · exact ⟨front, rfl⟩

/-- **The last pass over rows** finishes each of them, if the last one ends with a character that is not blank. -/
theorem finish_rows (useTabs : Bool) (tabWidth : Nat) {rows : List (List Char)} {front : List Char} {c : Char}
    (hc : isBlank c = false) (h : ∀ row ∈ rows ++ [front ++ [c]], '\n' ∉ row) :
    finish useTabs tabWidth (join ['\n'] (rows ++ [front ++ [c]]) ++ ['\n']) =
      join ['\n'] ((rows ++ [front ++ [c]]).map (finishLine useTabs tabWidth)) ++ ['\n'] := by
  have hempty : finishLine useTabs tabWidth [] = [] := by
    simp [finishLine, tabbed, trimEnd, dropEndWhile]
  have hlines : lines (join ['\n'] (rows ++ [front ++ [c]]) ++ ['\n']) = rows ++ [front ++ [c]] ++ [[]] := by
    rw [← join_concat (by simp) [], lines_join (by simp)]
    exact List.forall_mem_append.2 ⟨h, by simp⟩
  obtain ⟨front', hlast⟩ := finishLine_concat useTabs tabWidth front hc
  have hend : ∃ body, join ['\n'] ((rows ++ [front ++ [c]]).map (finishLine useTabs tabWidth)) = body ++ [c] := by
    rw [List.map_append, List.map_singleton, hlast]
    cases rows with
    | nil => exact ⟨front', rfl⟩
    | cons row rows => exact ⟨_, by rw [join_concat (by simp), ← List.cons_append, ← List.append_assoc]⟩
  obtain ⟨body, hbody⟩ := hend
  have hne : (c == '\n') = false := by
    by_contra hc'
    obtain rfl : c = '\n' := by simpa using hc'
    exact absurd hc (by decide)
  rw [finish, hlines, List.map_append, List.map_singleton, hempty, join_concat (by simp), hbody]
  simp [dropEndWhile, hne]

end Layout

end LpcStyle
