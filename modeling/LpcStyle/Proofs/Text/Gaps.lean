import Mathlib.Tactic
import LpcStyle.Proofs.Text.Finish
import LpcStyle.Proofs.Token.Spelling

/-!
What the last pass makes of the blanks between two parts of a text. They stay blanks that are skipped between tokens, as many
of them line feeds as before, and none of them comes or goes where there was none: `finishLines_gap`.
-/

namespace LpcStyle

open Text Pattern

/-- blanks that are skipped between tokens in place of others, with as many line feeds -/
structure Recast (gap gap' : List Char) : Prop where
  blank : ∀ c ∈ gap', isGapOrLineFeed c = true
  nil_iff : gap' = [] ↔ gap = []
  count : gap'.count '\n' = gap.count '\n'

/-- nothing is left of blanks -/
theorem trimEnd_gap {gap : List Char} (h : ∀ c ∈ gap, isGapOrLineFeed c = true) : trimEnd gap = [] := by
  have hall : ∀ c ∈ gap, isBlank c = true := fun c hc => isBlank_of_isGapOrLineFeed (h c hc)
  simpa [trimEnd, dropEndWhile] using hall

/-- and nothing is cut from a text that ends otherwise -/
theorem trimEnd_solid {x : List Char} (h : ∀ c ∈ x.getLast?, isBlank c = false) : trimEnd x = x := by
  simpa [trimEnd, dropEndWhile] using dropEndWhile_append_of_getLast [] h

namespace Layout

variable (useTabs : Bool) (tabWidth : Nat)

/-- indentation is made of blanks that are skipped -/
theorem indented_gap {gap : List Char} (h : ∀ c ∈ gap, isGapOrLineFeed c = true) (hline : '\n' ∉ gap) :
    (∀ c ∈ indented useTabs tabWidth gap, isGapOrLineFeed c = true) ∧ '\n' ∉ indented useTabs tabWidth gap := by
  have hmem {c : Char} (hc : c ∈ indented useTabs tabWidth gap) : c = '\t' ∨ c = ' ' ∨ c ∈ gap := by
    unfold indented at hc
    split at hc
    · simp only [tabbed, List.mem_append] at hc
      rcases hc with (hc | hc) | hc
      · exact .inl (List.eq_of_mem_replicate hc)
      · exact .inr (.inl (List.eq_of_mem_replicate hc))
      · exact .inr (.inr (List.mem_of_mem_drop hc))
    · exact .inr (.inr hc)
  refine ⟨fun c hc => ?_, fun hc => ?_⟩
  · rcases hmem hc with rfl | rfl | hc
    · decide
    · decide
    · exact h c hc
  · rcases hmem hc with hc | hc | hc
    · cases hc
    · cases hc
    · exact hline hc

/-- blanks at the start of a text -/
theorem finishLines_leading {gap : List Char} (hgap : ∀ c ∈ gap, isGapOrLineFeed c = true) {c : Char}
    (h : isBlank c = false) (back : List Char) : ∃ gap', (∀ d ∈ gap', isGapOrLineFeed d = true) ∧ gap'.count '\n' = gap.count '\n' ∧
      finishLines useTabs tabWidth (gap ++ c :: back) = gap' ++ finishLines useTabs tabWidth (c :: back) := by
  induction gap using line_induction with
  | line line hline =>
    obtain ⟨hindent, hnone⟩ := indented_gap useTabs tabWidth hgap hline
    refine ⟨indented useTabs tabWidth line, hindent, ?_, finishLines_line_front useTabs tabWidth hline h back⟩
    rw [List.count_eq_zero.2 hnone, List.count_eq_zero.2 hline]
  | more line rest hline ih =>
    obtain ⟨gap', hgap', hcount, hfinish⟩ := ih fun d hd => hgap d (by simp [hd])
    refine ⟨'\n' :: gap', List.forall_mem_cons.2 ⟨by decide, hgap'⟩, ?_, ?_⟩
    · rw [List.count_append, List.count_eq_zero.2 hline, List.count_cons_self, List.count_cons_self, hcount, Nat.zero_add]
    · -- a line of blanks is left empty
      have hblank : trimEnd line = [] := trimEnd_gap fun d hd => hgap d (by simp [hd])
      rw [List.append_assoc, List.cons_append, finishLines_append _ _ hline, hfinish, finishLine_eq, hblank, indented_nil]
      simp

/-- lines are finished apart from each other -/
theorem finishLines_newline (front back : List Char) : finishLines useTabs tabWidth (front ++ '\n' :: back) =
    finishLines useTabs tabWidth front ++ '\n' :: finishLines useTabs tabWidth back := by
  induction front using line_induction with
  | line line hline => rw [finishLines_append _ _ hline, finishLines_line _ _ hline]
  | more line rest hline ih =>
    rw [List.append_assoc, List.cons_append, finishLines_append _ _ hline, ih, finishLines_append _ _ hline,
      List.append_assoc, List.cons_append]

/-- **Two parts are finished apart from each other**, and so is the gap between them. The first part ends and the second
starts with a character that is not blank. -/
theorem finishLines_gap {part gap : List Char} (hne : part ≠ []) (hpart : ∀ c ∈ part.getLast?, isBlank c = false)
    (hgap : ∀ c ∈ gap, isGapOrLineFeed c = true) {c : Char} (h : isBlank c = false) (back : List Char) :
    ∃ gap', Recast gap gap' ∧ finishLines useTabs tabWidth (part ++ gap ++ c :: back) =
      finishLines useTabs tabWidth part ++ gap' ++ finishLines useTabs tabWidth (c :: back) := by
  -- the last line of the part
  induction part using line_induction with
  | line line hline =>
    have hsolid : ∃ d ∈ line, d ≠ ' ' :=
      ⟨line.getLast hne, List.getLast_mem hne, not_blank_ne_space (hpart _ (List.getLast?_eq_some_getLast hne))⟩
    rcases line_cases gap with hfeed | ⟨first, rest, rfl, hfirst⟩
    · refine ⟨gap, ⟨hgap, Iff.rfl, rfl⟩, ?_⟩
      rw [finishLines_line_front _ _ (lineFeed_not_mem hline hfeed) h, indented_back _ _ hsolid, finishLines_line _ _ hline,
        finishLine_eq, trimEnd_solid hpart]
    · obtain ⟨gap', hgap', hcount, hfinish⟩ :=
        finishLines_leading useTabs tabWidth (show ∀ d ∈ rest, _ from fun d hd => hgap d (by simp [hd])) h back
      refine ⟨'\n' :: gap', ⟨List.forall_mem_cons.2 ⟨by decide, hgap'⟩, by simp, ?_⟩, ?_⟩
      · rw [List.count_append, List.count_eq_zero.2 hfirst, List.count_cons_self, List.count_cons_self, hcount, Nat.zero_add]
      · have hblank : trimEnd first = [] := trimEnd_gap fun d hd => hgap d (by simp [hd])
        rw [← List.append_assoc, List.append_assoc, List.cons_append, finishLines_append _ _ (lineFeed_not_mem hline hfirst),
          finishLine_back _ _ hne hpart, hblank, hfinish, finishLines_line _ _ hline]
        simp
  | more line rest hline ih =>
    have hrest : rest ≠ [] := by
      rintro rfl
      exact absurd (hpart '\n' (by simp)) (by decide)
    have hlast : (line ++ '\n' :: rest).getLast? = rest.getLast? := by
      rw [List.getLast?_append, List.getLast?_cons_of_ne_nil hrest]
      simp [List.getLast?_eq_some_getLast hrest]
    obtain ⟨gap', hgap', hfinish⟩ := ih hrest (by rwa [hlast] at hpart)
    refine ⟨gap', hgap', ?_⟩
    have hassoc : line ++ '\n' :: rest ++ gap ++ c :: back = line ++ '\n' :: (rest ++ gap ++ c :: back) := by simp
    rw [hassoc, finishLines_append _ _ hline, hfinish, finishLines_append _ _ hline]
    simp

end Layout

end LpcStyle
