import Mathlib.Tactic
import LpcStyle.Proofs.Grammar.Places

/-!
What can be wrong with a token, and how long tokens are. A fault shows in the kind of its token, so what the grammar
takes for its kind alone is sound. Main statements:
- `fault_ofText`: a token of a text that has a fault is of no known kind;
- `firm_ofText`: a token of a kind that the grammar measures by is not empty;
- `ascends_ofText`, `slice_ofText`: the tokens of a text, its end included, come in order and select their own text.
-/

namespace LpcStyle

open Text Pattern

/-- kinds of tokens that are never empty -/
def Kind.isFirm : Kind → Bool
  | .directiveKey | .directiveArgument | .directiveLineBreak | .directiveEnd | .textBlockBody | .textBlockEnd
  | .unknown | .endOfFile => false
  | _ => true

/-! ## Faults -/

/-- a cut with a fault says so in its kind, the end of the file aside -/
def Cut.Honest (cut : Cut) : Prop := cut.fault ≠ none → cut.kind = .unknown ∨ cut.kind = .endOfFile

namespace Cut.Honest

theorem clean {cut : Cut} (h : cut.fault = none) : cut.Honest := fun hfault => absurd h hfault

end Cut.Honest

namespace Lexer

theorem faulty_honest (brackets : List Bracket) (fault : Fault) (size : Nat) : (faulty brackets fault size).Honest :=
  fun _ => .inl rfl

theorem TokenCase.honest {brackets : List Bracket} {ahead : List Char} {cut : Cut} (h : TokenCase brackets ahead cut) :
    cut.Honest := by
  cases h with
  | fault => exact faulty_honest _ _ _
  | _ => exact .clean rfl

theorem cut_honest (s : Lexer) : s.cut.Honest := by
  have hcase := s.cut_cases
  generalize s.cut = cut at hcase ⊢
  cases hcase with
  | endOfFile => exact fun _ => .inr rfl
  | token hmode hahead htoken => exact htoken.honest
  | line hmode hline =>
    cases hline with
    | comment hmark => exact (blockCommentCut_cases s.brackets _ hmark).honest
    | _ => exact .clean rfl
  | unclosed => exact faulty_honest _ _ _
  | _ => exact .clean rfl

/-- what is cut off is faulty by itself, never for want of progress -/
theorem cut_fault_ne (s : Lexer) : s.cut.fault ≠ some .stalled := by
  have htoken {brackets : List Bracket} {ahead : List Char} {cut : Cut} (h : TokenCase brackets ahead cut) :
      cut.fault ≠ some .stalled := by
    cases h with
    | fault fault hsize hgoes => simpa [faulty] using hgoes
    | _ => simp
  have hcase := s.cut_cases
  generalize s.cut = cut at hcase ⊢
  cases hcase with
  | endOfFile => simp only; split <;> simp
  | token hmode hahead h =>
    have hgoes := htoken h
    exact hgoes
  | line hmode hline =>
    cases hline with
    | comment hmark =>
      have hgoes := htoken (blockCommentCut_cases s.brackets _ hmark)
      exact hgoes
    | _ => simp
  | unclosed => simp [faulty]
  | _ => simp

/-- a call breaks off exactly where its mark says so -/
theorem fault_issue_iff (s : Lexer) : s.issue.1.fault = some .stalled ↔ ¬s.Advances := by
  by_cases hadvances : s.Advances
  · rw [issue_of_advances hadvances]
    exact iff_of_false s.cut_fault_ne (not_not.2 hadvances)
  · rw [issue_of_not_advances hadvances]
    exact iff_of_true rfl hadvances

/-! ## Length -/

/-- what a cut of a firm kind takes is not empty -/
def Firm (s : Lexer) (cut : Cut) : Prop := cut.kind.isFirm = true → 0 < cut.size ∧ s.rest.drop cut.gap ≠ []

theorem cut_firm {s : Lexer} (hcredit : s.credit ≤ 1) : s.Firm s.cut := by
  have hcase := s.cut_cases
  generalize s.cut = cut at hcase ⊢
  cases hcase with
  | blankLines hmode hshut hfeeds =>
    intro _
    obtain ⟨hgap, hlength⟩ := gap_pos_of_lines hcredit hfeeds
    exact ⟨hgap, by simpa using List.length_pos_iff.1 hlength⟩
  | token hmode hahead htoken => exact fun _ => ⟨htoken.advances.size, by simp [hahead]⟩
  | line hmode hline =>
    cases hline with
    | comment hmark =>
      obtain ⟨rest, hahead⟩ := startsWith_iff.1 hmark
      exact fun _ => ⟨(blockCommentCut_cases s.brackets _ hmark).advances.size, by simp [hahead]⟩
    | _ => exact fun h => absurd h (by simp [Kind.isFirm])
  | _ => exact fun h => absurd h (by simp [faulty, Kind.isFirm])

theorem firm_step {s : Lexer} (hcredit : s.credit ≤ 1) (h : s.step.1.kind.isFirm = true) : s.step.1.text ≠ [] := by
  obtain ⟨hsize, hne⟩ := cut_firm hcredit h
  intro htext
  change (s.rest.drop s.cut.gap).take s.cut.size = [] at htext
  rcases List.take_eq_nil_iff.1 htext with hzero | hnil
  · omega
  · exact hne hnil

end Lexer

namespace Stream

/-- **A fault shows in the kind of its token**, the end of the file aside. -/
theorem fault_ofText (text : List Char) : ∀ t ∈ (ofText text).ahead, t.fault ≠ none → t.kind = .unknown := by
  have hall : ∀ t ∈ (ofText text).ahead, t.fault ≠ none → t.kind = .unknown ∨ t.kind = .endOfFile :=
    forall_ofText_of_step (fun s => s.cut_honest) text
  exact fun t ht hfault => (hall t ht hfault).resolve_right (ne_endOfFile_ofText text t ht)

/-- where a call breaks off there is no token -/
theorem fault_ne_stalled_ofText (text : List Char) : ∀ t ∈ (ofText text).ahead, t.fault ≠ some .stalled :=
  forall_ofText_of_step (fun s => s.cut_fault_ne) text

/-- **Tokens of firm kinds are not empty.** -/
theorem firm_ofText (text : List Char) : ∀ t ∈ (ofText text).ahead, t.kind.isFirm = true → t.span.start < t.span.stop := by
  intro t ht hfirm
  rw [(tiled_ofText text).stop_eq t ht]
  have hall : ∀ t ∈ (ofText text).ahead, t.kind.isFirm = true → t.text ≠ [] := forall_ofText (P := fun s => s.credit ≤ 1)
    (fun s hcredit => ⟨Lexer.firm_step hcredit, s.credit_step_le⟩) (Nat.zero_le 1)
  have := byteLength_pos_of_ne_nil (hall t ht hfirm)
  omega

end Stream

/-! ## Order -/

/-- tokens that come one after the other from an offset on -/
def Ascends : Nat → List Token → Prop
  | _, [] => True
  | edge, t :: ts => edge ≤ t.span.start ∧ t.span.start ≤ t.span.stop ∧ Ascends t.span.stop ts

namespace Ascends

variable {edge lower : Nat} {ts us : List Token}

theorem weaken (h : Ascends edge ts) (hle : lower ≤ edge) : Ascends lower ts := by
  cases ts with
  | nil => trivial
  | cons t ts => exact ⟨hle.trans h.1, h.2⟩

theorem start_le (h : Ascends edge ts) {t : Token} (ht : t ∈ ts) : edge ≤ t.span.start := by
  induction ts generalizing edge with
  | nil => cases ht
  | cons u ts ih =>
    obtain ⟨hstart, hordered, hrest⟩ := h
    rcases List.mem_cons.1 ht with rfl | ht
    · exact hstart
    · exact hstart.trans (hordered.trans (ih hrest ht))

theorem right (h : Ascends edge (ts ++ us)) : Ascends edge us := by
  induction ts generalizing edge with
  | nil => exact h
  | cons t ts ih => exact ih (h.2.2.weaken (h.1.trans h.2.1))

end Ascends

/-- a token selects its text -/
theorem Tiled.slice?_token {whole : Prop} {text : List Char} {t : Token} {ts : List Token} (h : Tiled whole 0 text ts) (ht : t ∈ ts) :
    slice? text t.span = some t.text := by
  obtain ⟨front, back, rfl⟩ := List.append_of_mem ht
  obtain ⟨before, after, rfl, htail⟩ := h.right
  cases htail with
  | @token _ gap rest _ _ blank span apart tail =>
    exact slice?_eq_some_iff.2 ⟨before ++ gap, rest, by simp, by simp [span], by simp [span]⟩

namespace Lexer

/-- the token at the end of a text is empty and stands behind all of it -/
theorem eof_step {s : Lexer} (h : s.step.1.kind = .endOfFile) :
    s.step.1.text = [] ∧ s.step.1.span = .empty (s.offset + byteLength s.rest) := by
  have hnone : s.rest.drop s.cut.gap = [] := s.cut_sound.stop h
  have hall : s.rest.take s.cut.gap = s.rest := by
    rw [List.take_of_length_le (List.drop_eq_nil_iff.1 hnone)]
  simp [step, hnone, hall, Span.empty]

/-- nothing is cut off before what is read already -/
theorem issue_start (s : Lexer) : s.offset ≤ s.issue.1.span.start ∧ s.issue.1.span.start ≤ s.issue.1.span.stop := by
  by_cases hadvances : s.Advances
  · rw [issue_of_advances hadvances]
    exact ⟨Nat.le_add_right _ _, Nat.le_add_right _ _⟩
  · rw [issue_of_not_advances hadvances]
    exact ⟨le_rfl, le_rfl⟩

end Lexer

namespace Stream

theorem ascends_read (fuel : Nat) (s : Lexer) : Ascends s.offset (read fuel s).closed := by
  induction fuel generalizing s with
  | zero => exact ⟨s.issue_start.1, s.issue_start.2, trivial⟩
  | succ fuel ih =>
    have hstart := s.issue_start
    simp only [read]
    split
    · exact ⟨hstart.1, hstart.2, trivial⟩
    · next hkind =>
      rw [Lexer.issue_of_ne hkind] at hstart ⊢
      exact ⟨hstart.1, hstart.2, (ih s.step.2).weaken (Nat.le_add_right _ _)⟩

/-- what closes the tokens is empty and stands behind what they are cut off of, which is all unless a call breaks off -/
theorem eof_span_read {fuel : Nat} {s : Lexer} (h : (read fuel s).eof.kind = .endOfFile) :
    ∃ part rest, s.rest = part ++ rest ∧ (read fuel s).eof.text = [] ∧
      (read fuel s).eof.span = .empty (s.offset + byteLength part) ∧ (¬(read fuel s).Stalled → rest = []) := by
  have hend {s : Lexer} (h : s.issue.1.kind = .endOfFile) : ∃ part rest, s.rest = part ++ rest ∧ s.issue.1.text = [] ∧
      s.issue.1.span = .empty (s.offset + byteLength part) ∧ (¬Stalled ⟨[], s.issue.1⟩ → rest = []) := by
    by_cases hadvances : s.Advances
    · rw [Lexer.issue_of_advances hadvances] at h ⊢
      exact ⟨s.rest, [], by simp, (s.eof_step h).1, (s.eof_step h).2, fun _ => rfl⟩
    · rw [Lexer.issue_of_not_advances hadvances]
      exact ⟨[], s.rest, rfl, rfl, rfl, fun hgoes => absurd rfl hgoes⟩
  induction fuel generalizing s with
  | zero => exact hend h
  | succ fuel ih =>
    simp only [read] at h ⊢
    split at h
    · next hkind =>
      rw [if_pos hkind]
      exact hend hkind
    · next hkind =>
      rw [if_neg hkind]
      rw [Lexer.issue_of_ne hkind] at h ⊢
      obtain ⟨part, rest, hrest, htext, hspan, hwhole⟩ := ih h
      have hsplit := s.take_append_step
      rw [hrest, ← List.append_assoc] at hsplit
      refine ⟨_, rest, hsplit.symm, htext, hspan.trans ?_, hwhole⟩
      congr 1
      simp only [byteLength_append, Lexer.step]
      omega

/-- **What closes the tokens of a text** is empty. It stands behind all of the text, unless a call breaks off. -/
theorem eof_span_ofText (text : List Char) : ∃ part rest, text = part ++ rest ∧ (ofText text).eof.text = [] ∧
    (ofText text).eof.span = .empty (byteLength part) ∧ (¬(ofText text).Stalled → rest = []) := by
  have heof := eof_ofText text
  unfold ofText at heof ⊢
  simpa using eof_span_read heof

theorem eof_start_ofText (text : List Char) : (ofText text).eof.span.start = (ofText text).eof.span.stop := by
  obtain ⟨part, rest, -, -, hspan, -⟩ := eof_span_ofText text
  rw [hspan]
  rfl

/-- **The tokens of a text come in order**, and what closes them last. -/
theorem ascends_ofText (text : List Char) : Ascends 0 (ofText text).closed := by
  unfold ofText
  exact ascends_read _ { rest := text }

/-- **A token selects its own text**, and so does what closes them. -/
theorem slice_ofText (text : List Char) : ∀ t ∈ (ofText text).closed, slice? text t.span = some t.text := by
  intro t ht
  rcases List.mem_append.1 ht with hahead | heof
  · exact (tiled_ofText text).slice?_token hahead
  · obtain rfl := List.mem_singleton.1 heof
    obtain ⟨part, rest, htext, hnone, hspan, -⟩ := eof_span_ofText text
    rw [hnone, hspan]
    exact slice?_eq_some_iff.2 ⟨part, rest, by simpa using htext, rfl, rfl⟩

end Stream

end LpcStyle
