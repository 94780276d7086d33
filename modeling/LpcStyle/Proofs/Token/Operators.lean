import Mathlib.Tactic
import LpcStyle.Proofs.Token.Whole
import LpcStyle.Proofs.Token.Tiling

/-!
The numbers and operators of a text. A number is cut off whole, and an assignment operator is one of the list of operators.
Main statement: `exact_ofText`.
-/

namespace LpcStyle

open Text Pattern

/-- kinds of which not every text is allowed, though the grammar does not look at it -/
def Kind.isExact : Kind → Bool
  | .number | .assignOp => true
  | _ => false

/-- the text of a token of such a kind -/
structure Exact (kind : Kind) (text : List Char) : Prop where
  number : kind = .number → NumberText text
  assign : kind = .assignOp → (kind, text) ∈ operators

theorem Exact.other {kind : Kind} (h : kind.isExact = false) (text : List Char) : Exact kind text := by
  constructor <;> rintro rfl <;> cases h

/-- what a cut takes is exact -/
def Cut.TakesExact (cut : Cut) (ahead : List Char) : Prop := Exact cut.kind (ahead.take cut.size)

namespace Cut.TakesExact

variable {ahead : List Char}

theorem other {cut : Cut} (h : cut.kind.isExact = false) : cut.TakesExact ahead := Exact.other h _

theorem ite {p : Prop} [Decidable p] {a b : Cut} (ha : p → a.TakesExact ahead) (hb : ¬p → b.TakesExact ahead) :
    (if p then a else b).TakesExact ahead := by
  by_cases h : p
  · rw [if_pos h]
    exact ha h
  · rw [if_neg h]
    exact hb h

end Cut.TakesExact

namespace Lexer

variable {ahead after : List Char} {brackets : List Bracket}

/-! ## Cuts of other kinds -/

theorem isExact_classify (word : List Char) : (Words.classify word).isExact = false := by
  unfold Words.classify
  split
  · rfl
  · split
    · rfl
    · split
      · next entry kind hfind =>
        have hall : Words.keywords.all (fun p => !p.2.isExact) = true := by decide
        simpa using List.all_eq_true.1 hall _ (List.mem_of_find?_eq_some hfind)
      · split <;> rfl

theorem isExact_wordCut : (wordCut brackets ahead).kind.isExact = false := by
  unfold wordCut
  dsimp only
  split_ifs
  · rfl
  · rfl
  · exact isExact_classify _

theorem isExact_hashCut (s : Lexer) : (s.hashCut ahead).kind.isExact = false := by
  unfold hashCut
  dsimp only
  split_ifs <;> rfl

theorem isExact_quoteCut : (quoteCut brackets after).kind.isExact = false := by
  unfold quoteCut
  dsimp only
  split
  · split_ifs <;> rfl
  · split_ifs <;> rfl
  · split_ifs <;> rfl

theorem isExact_openParenCut (last : Kind) : (openParenCut last brackets after).kind.isExact = false := by
  unfold openParenCut
  dsimp only
  split_ifs
  all_goals first | rfl | (split <;> rfl)

theorem isExact_closeParenCut : (closeParenCut brackets).kind.isExact = false := by
  unfold closeParenCut
  split <;> rfl

theorem isExact_closeBraceCut : (closeBraceCut brackets after).kind.isExact = false := by
  unfold closeBraceCut
  split
  · split <;> rfl
  · rfl

theorem isExact_closeBracketCut : (closeBracketCut brackets after).kind.isExact = false := by
  unfold closeBracketCut
  split
  · rfl
  · split <;> rfl
  · rfl

theorem isExact_colonCut : (colonCut brackets after).kind.isExact = false := by
  unfold colonCut
  split
  · rfl
  · split
    · split <;> rfl
    · rfl
    · rfl

/-! ## Cuts -/

theorem operatorCut_exact : (operatorCut brackets ahead).TakesExact ahead := by
  unfold operatorCut
  split
  · next op kind hfind =>
    have htext : ahead.take op.length = op.toList := by
      rw [← String.length_toList]
      exact take_of_startsWith (by simpa using List.find?_some hfind)
    have hkinds : Words.operators.all (fun p => p.2 != .number) = true := by decide
    have hkind := List.all_eq_true.1 hkinds _ (List.mem_of_find?_eq_some hfind)
    refine ⟨fun hnumber => ?_, fun _ => ?_⟩
    · rw [show kind = .number from hnumber] at hkind
      cases hkind
    · rw [htext]
      exact List.mem_map.2 ⟨_, List.mem_of_find?_eq_some hfind, rfl⟩
  · exact .other rfl

theorem numberCut_exact {c : Char} (h : c.isDigit = true) :
    ({ kind := .number, size := number (c :: after), brackets } : Cut).TakesExact (c :: after) := by
  refine ⟨fun _ => ⟨?_, (c :: after).drop (number (c :: after)), ?_⟩, by simp⟩
  · obtain ⟨n, hn⟩ := Nat.exists_eq_succ_of_ne_zero (number_pos h after).ne'
    exact ⟨c, after.take n, by rw [hn]; rfl, h⟩
  · rw [List.take_append_drop, List.length_take, Nat.min_eq_left (number_le _)]

/-- **The cut of a token** takes a whole number or an operator, or something of another kind. -/
theorem tokenCut_exact (s : Lexer) (c : Char) : (s.tokenCut c after).TakesExact (c :: after) := by
  unfold tokenCut
  extract_lets ahead brackets mark
  refine .ite (fun _ => .other rfl) fun _ => .ite (fun _ => .other ?_) fun _ => ?_
  · rcases blockCommentCut_kind brackets ahead with h | h <;> rw [h] <;> rfl
  refine .ite (fun _ => .other (isExact_hashCut s)) fun _ => .ite (fun _ => ?_) fun _ => .ite (fun _ => ?_) fun _ => ?_
  · split <;> exact .other rfl
  · split <;> exact .other rfl
  refine .ite (fun _ => .other isExact_quoteCut) fun _ => ?_
  refine .ite (fun _ => .ite (fun _ => .other rfl) fun _ => .other rfl) fun _ => ?_
  refine .ite (fun hc => numberCut_exact hc) fun _ => .ite (fun _ => .other isExact_wordCut) fun _ => ?_
  -- brackets
  refine .ite (fun _ => .other (isExact_openParenCut _)) fun _ => .ite (fun _ => .other isExact_closeParenCut) fun _ => ?_
  refine .ite (fun _ => .other rfl) fun _ => .ite (fun _ => .other isExact_closeBraceCut) fun _ => ?_
  refine .ite (fun _ => .other rfl) fun _ => ?_
  refine .ite (fun _ => .other isExact_closeBracketCut) fun _ => .ite (fun _ => .other isExact_colonCut) fun _ => ?_
  -- marks
  refine .ite (fun _ => .other rfl) fun _ => .ite (fun _ => .other rfl) fun _ => .ite (fun _ => .other rfl) fun _ => ?_
  refine .ite (fun _ => .other ?_) fun _ => .ite (fun _ => .other rfl) fun _ => ?_
  · split_ifs <;> rfl
  exact .ite (fun _ => .other rfl) fun _ => .ite (fun _ => .other rfl) fun _ => operatorCut_exact

theorem cut_exact (s : Lexer) : s.cut.TakesExact (s.rest.drop s.cut.gap) := by
  by_cases hmode : s.mode = .file
  · rw [cut_of_file hmode]
    unfold fileCut
    dsimp only
    split
    · exact .other rfl
    · split
      · exact .other rfl
      · next c after hahead =>
        dsimp only [Cut.TakesExact]
        rw [hahead]
        exact tokenCut_exact _ c
  · have hcase := s.cut_cases
    generalize s.cut = cut at hcase ⊢
    cases hcase with
    | token hfile => exact absurd hfile hmode
    | line hline hcase =>
      cases hcase with
      | comment =>
        refine .other ?_
        rcases blockCommentCut_kind s.brackets (s.rest.drop (run isGap s.rest)) with h | h <;> simp only [h] <;> rfl
      | _ => exact .other rfl
    | _ => exact .other rfl

theorem step_exact (s : Lexer) : Exact s.step.1.kind s.step.1.text := s.cut_exact

end Lexer

namespace Stream

/-- **The numbers of a text are whole**, and its assignment operators are those of the list of operators. -/
theorem exact_ofText (text : List Char) : ∀ t ∈ (ofText text).ahead, Exact t.kind t.text :=
  forall_ofText_of_step (fun s => s.step_exact) text

/-- a token that ends no closure is spelled as its kind says -/
theorem spelt_ofText_of_ne (text : List Char) : ∀ t ∈ (ofText text).ahead, t.kind ≠ .closureEnd → Spelt t.kind t.text :=
  forall_ofText_of_step (fun s hkind => s.spelt_step_iff.2 fun hstray => hkind hstray.kind) text

end Stream

end LpcStyle
