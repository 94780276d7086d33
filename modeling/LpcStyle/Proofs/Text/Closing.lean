import Mathlib.Tactic
import LpcStyle.Proofs.Text.Rows

/-!
The marks of a block comment. A text without a star before a slash holds no closing mark, so between the marks of a comment
it goes on to the last of them. Main statements:
- `closed_of_find`, `find_closing`: the first closing mark is the one behind such a text;
- `unclosed_join`: rows without a closing mark have none together.
-/

namespace LpcStyle.Text

/-- no star is followed by a slash -/
def Unclosed (text : List Char) : Prop := text.IsChain fun a b => ¬(a = '*' ∧ b = '/')

/-- a comment between its marks -/
def marked (inner : List Char) : List Char := "/*".toList ++ inner ++ "*/".toList

namespace Unclosed

theorem append {front back : List Char} (hfront : Unclosed front) (hback : Unclosed back)
    (h : front.getLast? ≠ some '*' ∨ back.head? ≠ some '/') : Unclosed (front ++ back) := by
  refine List.isChain_append.2 ⟨hfront, hback, ?_⟩
  rintro x hx y hy ⟨rfl, rfl⟩
  rcases h with h | h
  · exact h hx
  · exact h hy

theorem within {text part : List Char} (h : Unclosed text) (hpart : part <:+: text) : Unclosed part := by
  obtain ⟨front, back, rfl⟩ := hpart
  exact h.left_of_append.right_of_append

end Unclosed

/-- without a star there is no closing mark -/
theorem unclosed_of_not_mem {text : List Char} (h : '*' ∉ text) : Unclosed text := by
  refine List.isChain_iff_forall_rel_of_append_cons_cons.2 ?_
  rintro a b front back hsplit ⟨rfl, rfl⟩
  exact h (hsplit ▸ by simp)

theorem unclosed_join {rows : List (List Char)} (h : ∀ row ∈ rows, Unclosed row) : Unclosed (join ['\n'] rows) := by
  induction rows with
  | nil => exact .nil
  | cons row rows ih =>
    obtain ⟨hrow, hrows⟩ := List.forall_mem_cons.1 h
    cases rows with
    | nil => exact hrow
    | cons next rows =>
      rw [join_cons _ _ (by simp), List.append_assoc]
      refine hrow.append (.append (.singleton _) (ih hrows) (.inl (by simp))) (.inr (by simp))

theorem trimmed_marked (inner : List Char) : Trimmed (marked inner) := by
  refine ⟨by simpa [marked] using by decide, ?_⟩
  rw [marked, List.getLast?_append_of_ne_nil _ (by simp)]
  simpa using by decide

/-! ## Finding the closing mark -/

/-- where no closing mark starts, a star has no slash behind it -/
theorem not_closing {c : Char} {rest : List Char} (h : ¬startsWith "*/".toList (c :: rest) = true) :
    ∀ d ∈ rest.head?, ¬(c = '*' ∧ d = '/') := by
  rintro d hd ⟨rfl, rfl⟩
  obtain ⟨tail, rfl⟩ : ∃ tail, rest = '/' :: tail := by
    cases rest with
    | nil => simp at hd
    | cons e tail => exact ⟨tail, by simpa using hd⟩
  exact h (by simp [startsWith])

/-- the first closing mark after a text without one stands at its end -/
theorem find_closing {inner : List Char} (h : Unclosed inner) (back : List Char) :
    find (startsWith "*/".toList) (inner ++ "*/".toList ++ back) = some inner.length := by
  induction inner with
  | nil => rfl
  | cons c inner ih =>
    have hno : startsWith "*/".toList (c :: (inner ++ "*/".toList ++ back)) = false := by
      cases inner with
      | nil => simp [startsWith, List.isPrefixOf_cons_cons]
      | cons d inner =>
        have hcd := (List.isChain_cons_cons.1 h).1
        rw [Bool.eq_false_iff]
        intro hmark
        simp only [startsWith, String.reduceToList, List.cons_append, List.isPrefixOf_cons_cons, Bool.and_eq_true,
          beq_iff_eq] at hmark
        exact hcd ⟨hmark.1.symm, hmark.2.1.symm⟩
    rw [List.cons_append, List.cons_append, find, hno, ih h.tail]
    simp

/-- up to the first closing mark there is none -/
theorem closed_of_find {text : List Char} {n : Nat} (h : find (startsWith "*/".toList) text = some n) :
    ∃ inner back, text = inner ++ "*/".toList ++ back ∧ Unclosed inner ∧ inner.length = n := by
  induction text generalizing n with
  | nil => simp [find, startsWith] at h
  | cons c text ih =>
    simp only [find] at h
    split at h
    · next hmark =>
      obtain rfl : 0 = n := Option.some.inj h
      obtain ⟨back, hback⟩ := List.isPrefixOf_iff_prefix.1 hmark
      exact ⟨[], back, by simpa using hback.symm, .nil, rfl⟩
    · next hno =>
      obtain ⟨m, hm, rfl⟩ := Option.map_eq_some_iff.1 h
      obtain ⟨inner, back, rfl, hopen, rfl⟩ := ih hm
      refine ⟨c :: inner, back, by simp, hopen.cons fun d hd => not_closing hno d ?_, rfl⟩
      cases inner with
      | nil => simp at hd
      | cons e inner => simpa using hd

theorem unclosed_of_not_contains {inner : List Char} (h : contains "*/".toList inner = false) : Unclosed inner := by
  induction inner with
  | nil => exact .nil
  | cons c inner ih =>
    simp only [contains, find] at h ih
    split at h
    · simp at h
    · next hno => exact (ih (by simpa using h)).cons (not_closing hno)

end LpcStyle.Text
