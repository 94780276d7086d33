import Mathlib.Tactic
import LpcStyle.Proofs.Text.Rows

/-!
The last pass over a text, part by part. It changes blanks only, and those before a character that is not blank or after
one are its own business: `finishLines_front`, `finishLines_back`. So what it makes of a part that starts and ends with
such characters does not depend on the text around it: `finish_within`.
-/

namespace LpcStyle

open Text

namespace Text

/-- dropping stops at a character that stays -/
theorem dropEndWhile_append_of_mem {p : Char → Bool} (front : List Char) {back : List Char}
    (h : ∃ c ∈ back, p c = false) : dropEndWhile p (front ++ back) = front ++ dropEndWhile p back := by
  have hsome : back.reverse.dropWhile p ≠ [] := by
    rw [Ne, List.dropWhile_eq_nil_iff]
    obtain ⟨c, hc, hblank⟩ := h
    intro hall
    simp [hall c (by simpa using hc)] at hblank
  rw [dropEndWhile, List.reverse_append, List.dropWhile_append, if_neg (by simpa using hsome), dropEndWhile,
    List.reverse_append, List.reverse_reverse]

theorem dropEndWhile_append_of_getLast {p : Char → Bool} {front : List Char} (back : List Char)
    (h : ∀ c ∈ front.getLast?, p c = false) : dropEndWhile p (front ++ back) = front ++ dropEndWhile p back := by
  by_cases hback : ∃ c ∈ back, p c = false
  · exact dropEndWhile_append_of_mem front hback
  · have hall : ∀ c ∈ back, p c = true := by simpa using hback
    have hnone : dropEndWhile p back = [] := by simpa [dropEndWhile] using hall
    rw [hnone, List.append_nil, dropEndWhile_append front hall, dropEndWhile, dropWhile_eq_self (by simpa using h),
      List.reverse_reverse]

/-- a text is one line, or a line and more after it -/
theorem line_cases (text : List Char) : '\n' ∉ text ∨ ∃ line rest, text = line ++ '\n' :: rest ∧ '\n' ∉ line := by
  by_cases h : '\n' ∈ text
  · exact .inr (List.eq_append_cons_of_mem h)
  · exact .inl h

/-- induction over the lines of a text -/
theorem line_induction {motive : List Char → Prop} (line : ∀ line, '\n' ∉ line → motive line)
    (more : ∀ line rest, '\n' ∉ line → motive rest → motive (line ++ '\n' :: rest)) (text : List Char) : motive text := by
  induction hlength : text.length using Nat.strong_induction_on generalizing text with
  | _ n ih =>
    rcases line_cases text with h | ⟨front, rest, rfl, h⟩
    · exact line text h
    · exact more front rest h (ih rest.length (by rw [← hlength]; simp; omega) rest rfl)

end Text

namespace Layout

/-- the lines of a text, each finished -/
def finishLines (useTabs : Bool) (tabWidth : Nat) (text : List Char) : List Char :=
  join ['\n'] ((lines text).map (finishLine useTabs tabWidth))

/-- leading spaces as tabs, where tabs are wanted -/
def indented (useTabs : Bool) (tabWidth : Nat) (line : List Char) : List Char :=
  if useTabs && 0 < tabWidth then tabbed tabWidth line else line

variable (useTabs : Bool) (tabWidth : Nat)

/-! ## One line -/

theorem finishLine_eq (line : List Char) : finishLine useTabs tabWidth line = indented useTabs tabWidth (trimEnd line) := by
  rw [finishLine, indented]

theorem indented_nil : indented useTabs tabWidth [] = [] := by
  simp [indented, tabbed]

theorem indented_front (front : List Char) {back : List Char} (h : back.head? ≠ some ' ') :
    indented useTabs tabWidth (front ++ back) = indented useTabs tabWidth front ++ back := by
  simp only [indented]
  split
  · exact tabbed_append tabWidth front h
  · rfl

theorem indented_solid {line : List Char} (h : line.head? ≠ some ' ') : indented useTabs tabWidth line = line := by
  simpa [indented_nil] using indented_front useTabs tabWidth [] h

/-- only the spaces before the first other character count -/
theorem indented_back {front : List Char} (h : ∃ c ∈ front, c ≠ ' ') (back : List Char) :
    indented useTabs tabWidth (front ++ back) = indented useTabs tabWidth front ++ back := by
  have hspaces : front.takeWhile (· == ' ') ++ front.dropWhile (· == ' ') = front := List.takeWhile_append_dropWhile
  have hne : front.dropWhile (· == ' ') ≠ [] := by
    obtain ⟨c, hc, hspace⟩ := h
    rw [Ne, List.dropWhile_eq_nil_iff]
    intro hall
    exact hspace (by simpa using hall c hc)
  obtain ⟨c, solid, hsolid⟩ := List.exists_cons_of_ne_nil hne
  have hc : c ≠ ' ' := by
    have hhead := head?_dropWhile (p := (· == ' ')) front c (by simp [hsolid])
    simpa using hhead
  have hhead (tail : List Char) : (c :: solid ++ tail).head? ≠ some ' ' := by simpa using hc
  rw [← hspaces, hsolid, List.append_assoc, indented_front _ _ _ (hhead back)]
  have hself := indented_front useTabs tabWidth (front.takeWhile (· == ' ')) (hhead [])
  rw [List.append_nil] at hself
  rw [hself, List.append_assoc]

theorem not_blank_ne_space {c : Char} (h : isBlank c = false) : c ≠ ' ' := by
  rintro rfl
  exact absurd h (by decide)

theorem finishLine_front (front : List Char) {c : Char} (h : isBlank c = false) (back : List Char) :
    finishLine useTabs tabWidth (front ++ c :: back) = indented useTabs tabWidth front ++ trimEnd (c :: back) := by
  have hhead : (trimEnd (c :: back)).head? ≠ some ' ' := by
    rw [trimEnd, ← List.singleton_append, dropEndWhile_append_of_getLast back (by simpa using h)]
    simpa using not_blank_ne_space h
  rw [finishLine_eq, trimEnd, dropEndWhile_append_of_mem front ⟨c, List.mem_cons_self, h⟩]
  exact indented_front _ _ _ hhead

theorem finishLine_back {front : List Char} (hne : front ≠ []) (h : ∀ c ∈ front.getLast?, isBlank c = false)
    (back : List Char) :
    finishLine useTabs tabWidth (front ++ back) = finishLine useTabs tabWidth front ++ trimEnd back := by
  have hsolid : ∃ c ∈ front, c ≠ ' ' :=
    ⟨front.getLast hne, List.getLast_mem hne, not_blank_ne_space (h _ (List.getLast?_eq_some_getLast hne))⟩
  have hself : trimEnd front = front := by
    simpa [trimEnd, dropEndWhile] using dropEndWhile_append_of_getLast [] h
  rw [finishLine_eq, trimEnd, dropEndWhile_append_of_getLast back h, indented_back _ _ hsolid, finishLine_eq, hself]
  rfl

/-! ## All lines -/

theorem finishLines_line {line : List Char} (h : '\n' ∉ line) :
    finishLines useTabs tabWidth line = finishLine useTabs tabWidth line := by
  rw [finishLines, lines_of_not_mem h, List.map_singleton, join]

theorem finishLines_append {line : List Char} (h : '\n' ∉ line) (rest : List Char) :
    finishLines useTabs tabWidth (line ++ '\n' :: rest) =
      finishLine useTabs tabWidth line ++ '\n' :: finishLines useTabs tabWidth rest := by
  have hne : (lines rest).map (finishLine useTabs tabWidth) ≠ [] := by simp [lines, splitOn_ne_nil]
  rw [finishLines, lines_append h, List.map_cons, join_cons _ _ hne, finishLines, List.append_assoc]
  rfl

theorem lineFeed_not_mem {front back : List Char} (hfront : '\n' ∉ front) (hback : '\n' ∉ back) : '\n' ∉ front ++ back := by
  simp [hfront, hback]

/-- before a character that is not blank, a line only takes its indentation -/
theorem finishLines_line_front {front : List Char} (hfront : '\n' ∉ front) {c : Char} (h : isBlank c = false)
    (back : List Char) : finishLines useTabs tabWidth (front ++ c :: back) =
      indented useTabs tabWidth front ++ finishLines useTabs tabWidth (c :: back) := by
  have hline (line : List Char) : finishLine useTabs tabWidth (c :: line) = trimEnd (c :: line) := by
    simpa [indented_nil] using finishLine_front useTabs tabWidth [] h line
  rcases line_cases (c :: back) with hback | ⟨line, rest, hsplit, hmem⟩
  · rw [finishLines_line _ _ (lineFeed_not_mem hfront hback), finishLines_line _ _ hback, hline, finishLine_front _ _ _ h]
  · cases line with
    | nil =>
      obtain rfl : c = '\n' := by simpa using congrArg List.head? hsplit
      exact absurd h (by decide)
    | cons d line =>
      obtain ⟨rfl, rfl⟩ : c = d ∧ back = line ++ '\n' :: rest := by simpa using hsplit
      rw [← List.cons_append, ← List.append_assoc, finishLines_append _ _ (lineFeed_not_mem hfront hmem),
        finishLines_append _ _ hmem, hline, finishLine_front _ _ _ h, List.append_assoc]

/-- **What comes before a character that is not blank** has no say in what is made of the text from it on. -/
theorem finishLines_front (front : List Char) {c : Char} (h : isBlank c = false) (back : List Char) :
    ∃ front', finishLines useTabs tabWidth (front ++ c :: back) = front' ++ finishLines useTabs tabWidth (c :: back) := by
  induction front using line_induction with
  | line line hline => exact ⟨_, finishLines_line_front useTabs tabWidth hline h back⟩
  | more line rest hline ih =>
    obtain ⟨front', hfront⟩ := ih
    refine ⟨finishLine useTabs tabWidth line ++ '\n' :: front', ?_⟩
    rw [List.append_assoc, List.cons_append, finishLines_append _ _ hline, hfront]
    simp

/-- **What comes after a character that is not blank** has no say in what is made of the text up to it. -/
theorem finishLines_back {front : List Char} (hne : front ≠ []) (h : ∀ c ∈ front.getLast?, isBlank c = false)
    (back : List Char) :
    ∃ back', finishLines useTabs tabWidth (front ++ back) = finishLines useTabs tabWidth front ++ back' := by
  induction front using line_induction with
  | line line hline =>
    rw [finishLines_line _ _ hline]
    rcases line_cases back with hback | ⟨first, rest, rfl, hfirst⟩
    · exact ⟨_, by rw [finishLines_line _ _ (lineFeed_not_mem hline hback), finishLine_back _ _ hne h]⟩
    · refine ⟨trimEnd first ++ '\n' :: finishLines useTabs tabWidth rest, ?_⟩
      rw [← List.append_assoc, finishLines_append _ _ (lineFeed_not_mem hline hfirst), finishLine_back _ _ hne h,
        List.append_assoc]
  | more line rest hline ih =>
    have hrest : rest ≠ [] := by
      rintro rfl
      exact absurd (h '\n' (by simp)) (by decide)
    have hlast : (line ++ '\n' :: rest).getLast? = rest.getLast? := by
      rw [List.getLast?_append, List.getLast?_cons_of_ne_nil hrest]
      simp [List.getLast?_eq_some_getLast hrest]
    obtain ⟨back', hback⟩ := ih hrest (by rwa [hlast] at h)
    refine ⟨back', ?_⟩
    rw [List.append_assoc, List.cons_append, finishLines_append _ _ hline, hback, finishLines_append _ _ hline]
    simp

/-- the last character stays the last one if it is not blank -/
theorem finishLines_concat (front : List Char) {c : Char} (h : isBlank c = false) :
    ∃ front', finishLines useTabs tabWidth (front ++ [c]) = front' ++ [c] := by
  obtain ⟨front', hfront⟩ := finishLines_front useTabs tabWidth front h []
  have hne : c ≠ '\n' := by
    rintro rfl
    exact absurd h (by decide)
  have hself : finishLines useTabs tabWidth [c] = [c] := by
    rw [finishLines_line _ _ (by simpa using hne.symm), finishLine_eq,
      indented_solid _ _ (by simp [trimEnd, dropEndWhile, h, not_blank_ne_space h])]
    simp [trimEnd, dropEndWhile, h]
  exact ⟨front', by rw [hfront, hself]⟩

/-- **A part without blanks at its ends is finished by itself**, wherever it stands in a text. -/
theorem finish_within {part text : List Char} (hpart : Trimmed part) (h : part <:+: text) :
    finishLines useTabs tabWidth part <:+: finish useTabs tabWidth text := by
  obtain ⟨before, after, rfl⟩ := h
  obtain rfl | ⟨front, c, rfl⟩ := List.eq_nil_or_concat' part
  · simp [finishLines, lines, splitOn, join, finishLine_eq, trimEnd, dropEndWhile, indented_nil]
  have hc : isBlank c = false := hpart.2 c (by simp)
  obtain ⟨d, rest, hd⟩ := List.exists_cons_of_ne_nil (show front ++ [c] ≠ [] by simp)
  have hblank : isBlank d = false := hpart.1 d (by simp [hd])
  obtain ⟨before', hbefore⟩ := finishLines_front useTabs tabWidth before hblank (rest ++ after)
  have hne : front ++ [c] ≠ [] := by simp
  obtain ⟨after', hafter⟩ := finishLines_back useTabs tabWidth hne (by simpa using hc) after
  obtain ⟨front', hfront⟩ := finishLines_concat useTabs tabWidth front hc
  have hwhole : finishLines useTabs tabWidth (before ++ (front ++ [c]) ++ after) = before' ++ (front' ++ [c]) ++ after' := by
    rw [List.append_assoc, hd, List.cons_append, hbefore, ← List.cons_append, ← hd, hafter, hfront]
    simp
  have hline : (c == '\n') = false := by
    by_contra hline
    obtain rfl : c = '\n' := by simpa using hline
    exact absurd hc (by decide)
  have hbody : dropEndWhile (· == '\n') (finishLines useTabs tabWidth (before ++ (front ++ [c]) ++ after)) =
      before' ++ (front' ++ [c]) ++ dropEndWhile (· == '\n') after' := by
    rw [hwhole]
    exact dropEndWhile_append_of_getLast after' (by simpa using hline)
  rw [hfront, finish, ← finishLines, hbody, if_neg (by simp)]
  exact ⟨before', dropEndWhile (· == '\n') after' ++ ['\n'], by simp⟩

end Layout

end LpcStyle
