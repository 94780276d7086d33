import Mathlib.Tactic
import LpcStyle.Proofs.Grammar.Echo.Statement
import LpcStyle.Proofs.Grammar.Typeset
import LpcStyle.Proofs.Token.Operators
import LpcStyle.Proofs.Tree.Parts

/-!
Terms of a source text. What a text writes is made of names, numbers and operators that the lexer knows
(`Writes.sound`), and the source text of a node starts with its first token (`Writes.slice_eq_append`).
-/

namespace LpcStyle

open Text Pattern Grammar

/-- names, numbers and operators are such -/
def Term.Sound : Term → Prop
  | .name w => NameText w ∧ w ≠ "lambda".toList
  | .number w => NumberText w
  | .unit => True
  | .paren e => e.Sound
  | .call e => e.Sound
  | .apply e a => e.Sound ∧ a.Sound
  | .step e op => e.Sound ∧ op ∈ steps
  | .sign op e => op ∈ signs ∧ e.Sound
  | .binary l op r => l.Sound ∧ op ∈ operators ∧ r.Sound
  | .ternary t c a => t.Sound ∧ c.Sound ∧ a.Sound

/-- the first token of a term says something -/
theorem Term.Sound.front {e : Term} (h : e.Sound) : ∃ t ts, e.spelled = t :: ts ∧ t.2 ≠ [] := by
  have hfront {e : Term} (h : ∃ t ts, e.spelled = t :: ts ∧ t.2 ≠ []) (us : List (Kind × List Char)) :
      ∃ t ts, e.spelled ++ us = t :: ts ∧ t.2 ≠ [] := by
    obtain ⟨t, ts, hspelled, hne⟩ := h
    exact ⟨t, ts ++ us, by rw [hspelled]; rfl, hne⟩
  induction e with
  | name w => exact ⟨_, _, rfl, (Plain.ofName h.1).nonempty⟩
  | number w => exact ⟨_, _, rfl, (Plain.ofNumber h).nonempty⟩
  | unit => exact ⟨_, _, rfl, by simp⟩
  | paren e => exact ⟨_, _, rfl, by simp⟩
  | call e ih => exact hfront (ih h) _
  | apply e a ih => exact hfront (ih h.1) _
  | step e op ih => exact hfront (ih h.1) _
  | sign op e => exact ⟨_, _, rfl, (plain_mark (mem_operators_of_signs h.1)).nonempty⟩
  | binary l op r ih => exact hfront (ih h.1) _
  | ternary t c a ih => exact hfront (ih h.1) _

/-! ## Operators -/

theorem mem_operators_of_joining {t : Token} (h : Joining t) (hexact : Exact t.kind t.text) : t.spelling ∈ operators := by
  rcases h with hrank | ⟨hkind, -⟩
  · obtain ⟨rank, hrank⟩ := Option.isSome_iff_exists.1 hrank
    obtain ⟨text, hmem, htext⟩ := mem_ranks hrank
    have hall : ranks.all (fun entry => operators.contains (entry.1, entry.2.1.toList)) = true := by decide
    have hentry := List.all_eq_true.1 hall _ hmem
    rw [Token.spelling, htext]
    simpa using hentry
  · exact hexact.assign hkind

theorem mem_steps_of_isStep {t : Token} (h : isStep t = true) : t.spelling ∈ steps := by
  simp only [isStep, Bool.and_eq_true, decide_eq_true_eq, Bool.or_eq_true, beq_iff_eq] at h
  obtain ⟨hkind, htext | htext⟩ := h <;> rw [Token.spelling, hkind, htext] <;> decide

/-- an operator before its operand is a sign, unless it is `&` -/
theorem mem_signs_of_isPrefixOperator {t : Token} (h : isPrefixOperator t = true) (hspelt : Spelt t.kind t.text)
    (hand : t.text ≠ ['&']) : t.spelling ∈ signs := by
  unfold isPrefixOperator at h
  split at h
  · next hkind =>
    rw [hkind] at hspelt
    rcases hspelt with htext | htext <;> rw [Token.spelling, hkind, htext] <;> decide
  · have hstep := mem_steps_of_isStep h
    have hall : steps.all (signs.contains ·) = true := by decide
    simpa using List.all_eq_true.1 hall _ hstep
  · next hkind =>
    simp only [Bool.or_eq_true, beq_iff_eq] at h
    rcases h with (htext | htext) | htext
    · rw [Token.spelling, hkind, htext]
      decide
    · rw [Token.spelling, hkind, htext]
      decide
    · exact absurd htext hand
  · cases h

/-! ## Terms of a text -/

/-- `&` stands before no operand in the node -/
def Node.RefersNowhere (n : Node) : Prop := ∀ k : Node, k.Inside n → ∀ op a, k.shape = .unary op a → op.text ≠ ['&']

theorem Node.RefersNowhere.part {span : Span} {shape : Shape Node} {suffix : Option Comment}
    (h : (Node.mk span shape suffix).RefersNowhere) : ∀ k ∈ shape.parts, k.RefersNowhere :=
  fun _ hk m hm => h m (.part hk hm)

/-- what the names, numbers and operators of a text are -/
structure Legitimate (text : List Char) : Prop where
  spelt : ∀ k, Spelt (place text k).kind (place text k).text
  exact : ∀ k, Exact (place text k).kind (place text k).text
  noLambda : ∀ k, (place text k).kind = .name → (place text k).text ≠ "lambda".toList

variable {text : List Char} {i j : Nat} {n : Node} {e : Term}

theorem place_mem_closed (text : List Char) (k : Nat) : place text k ∈ (Stream.ofText text).closed := by
  by_cases hk : k < (row text).length
  · exact List.mem_append_left _ (place_mem hk)
  · have hend : place text k = (Stream.ofText text).eof := by simp [place, List.getD, Nat.le_of_not_lt hk]
    rw [hend, Stream.closed]
    simp

/-- a token that ends no closure is spelled as its kind says -/
theorem spelt_place (text : List Char) (k : Nat) (h : (place text k).kind ≠ .closureEnd) :
    Spelt (place text k).kind (place text k).text := by
  by_cases hkind : (place text k).kind = .endOfFile
  · simp [hkind]
  · exact Stream.spelt_ofText_of_ne text _ (place_mem (lt_length_of_place hkind)) h

theorem exact_place (text : List Char) (k : Nat) : Exact (place text k).kind (place text k).text := by
  by_cases hkind : (place text k).kind = .endOfFile
  · exact .other (by rw [hkind]; rfl) _
  · exact Stream.exact_ofText text _ (place_mem (lt_length_of_place hkind))

theorem spelled_of_spelling {t : Token} {kind : Kind} {w : List Char} (h : t.spelling = (kind, w)) :
    t.kind = kind ∧ t.text = w := Prod.mk.inj h

namespace Writes

/-- **A term of a text** is made of names, numbers and operators that the lexer knows. -/
theorem sound (hlegitimate : Legitimate text) (h : Writes (place text) i j n e) (hn : n.RefersNowhere) : e.Sound := by
  induction h with
  | @name i w hspells =>
    obtain ⟨hkind, rfl⟩ := spelled_of_spelling hspells
    have hspelt := hlegitimate.spelt i
    rw [hkind] at hspelt
    exact ⟨hspelt, hlegitimate.noLambda i hkind⟩
  | @number i w hspells =>
    obtain ⟨hkind, rfl⟩ := spelled_of_spelling hspells
    exact (hlegitimate.exact i).number hkind
  | unit => trivial
  | paren _ _ _ ih => exact ih (hn.part _ (by simp [Shape.parts]))
  | call _ _ _ ih => exact ih (hn.part _ (by simp [Shape.parts]))
  | apply _ _ _ _ ih iharg =>
    exact ⟨ih (hn.part _ (by simp [Shape.parts])), iharg (hn.part _ (by simp [Shape.parts]))⟩
  | step _ hop hspells ih =>
    subst hspells
    exact ⟨ih (hn.part _ (by simp [Shape.parts])), mem_steps_of_isStep hop⟩
  | @sign i j n e op hop hspells _ ih =>
    subst hspells
    have hand : (place text i).text ≠ ['&'] := hn _ .self (.ofToken (place text i)) n rfl
    exact ⟨mem_signs_of_isPrefixOperator hop (hlegitimate.spelt i) hand, ih (hn.part _ (by simp [Shape.parts]))⟩
  | @binary i j k l r e e' op h hop hspells h' ih ih' =>
    subst hspells
    have hparts : l ∈ (joint (place text j) l r).parts ∧ r ∈ (joint (place text j) l r).parts := by
      unfold joint
      split_ifs <;> simp [Shape.parts]
    exact ⟨ih (hn.part _ hparts.1), mem_operators_of_joining hop (hlegitimate.exact j), ih' (hn.part _ hparts.2)⟩
  | ternary _ _ _ _ _ iht ihc iha =>
    exact ⟨iht (hn.part _ (by simp [Shape.parts])), ihc (hn.part _ (by simp [Shape.parts])),
      iha (hn.part _ (by simp [Shape.parts]))⟩

/-- where no token is `&`, it stands before no operand -/
theorem refersNowhere {tok : Nat → Token} (h : Writes tok i j n e) (hand : ∀ k, (tok k).text ≠ ['&']) : n.RefersNowhere := by
  -- the operator of a node itself, and those of its parts
  have hmk {span : Span} {shape : Shape Node} (hown : ∀ op a, shape = .unary op a → op.text ≠ ['&'])
      (hparts : ∀ k ∈ shape.parts, k.RefersNowhere) : (Node.mk span shape none).RefersNowhere := by
    intro k hk op a hshape
    cases hk with
    | self => exact hown op a hshape
    | part hm hk => exact hparts _ hm k hk op a hshape
  induction h with
  | name => exact hmk (by simp) (by simp [Shape.parts])
  | number => exact hmk (by simp) (by simp [Shape.parts])
  | unit => exact hmk (by simp) (by simp [Shape.parts])
  | paren _ _ _ ih => exact hmk (by simp) (by simpa [Shape.parts] using ih)
  | call _ _ _ ih => exact hmk (by simp) (by simpa [Shape.parts] using ih)
  | apply _ _ _ _ ih iharg => exact hmk (by simp) (by simpa [Shape.parts] using ⟨ih, iharg⟩)
  | step _ _ _ ih => exact hmk (by simp) (by simpa [Shape.parts] using ih)
  | @sign i _ _ _ _ _ _ _ ih =>
    refine hmk (fun op a hshape => ?_) (by simpa [Shape.parts] using ih)
    cases hshape
    exact hand i
  | binary _ _ _ _ ih ih' =>
    refine hmk ?_ ?_ <;> unfold joint <;> split_ifs
    · simp
    · simp
    · simp
    · simpa [Shape.parts] using ⟨ih, ih'⟩
    · simpa [Shape.parts] using ⟨ih, ih'⟩
    · simpa [Shape.parts] using ⟨ih, ih'⟩
  | ternary _ _ _ _ _ iht ihc iha => exact hmk (by simp) (by simpa [Shape.parts] using ⟨iht, ihc, iha⟩)

/-- a node reaches from its first token to its last one -/
theorem span_eq {tok : Nat → Token} (h : Writes tok i j n e) :
    n.span = ⟨(tok i).span.start, (tok (j - 1)).span.stop⟩ := by
  have hself {s : Span} {m : Node} (h : m.span = s) : m.start = s.start ∧ m.stop = s.stop := by
    subst h
    exact ⟨rfl, rfl⟩
  induction h with
  | name => rfl
  | number => rfl
  | unit => rfl
  | paren => rfl
  | call _ _ _ ih => exact congrArg (Span.mk · _) (hself ih).1
  | apply _ _ _ _ ih => exact congrArg (Span.mk · _) (hself ih).1
  | step _ _ _ ih => exact congrArg (Span.mk · _) (hself ih).1
  | sign _ _ _ ih => exact congrArg (Span.mk _) (hself ih).2
  | binary _ _ _ _ ih ih' => exact congrArg₂ Span.mk (hself ih).1 (hself ih').2
  | ternary _ _ _ _ _ iht _ iha => exact congrArg₂ Span.mk (hself iht).1 (hself iha).2

end Writes

/-- the source text from a token on starts with it -/
theorem slice_places (hquiet : Quiet text) (hij : i ≤ j) (hj : j < (row text).length) :
    ∃ rest, slice text ⟨(place text i).span.start, (place text j).span.stop⟩ = (place text i).text ++ rest := by
  rcases Nat.eq_or_lt_of_le hij with rfl | hij
  · exact ⟨[], by rw [List.append_nil]; exact slice_place hquiet hj⟩
  have htiled := tiled_row hquiet
  rw [row_eq_append (Nat.lt_trans hij hj)] at htiled
  obtain ⟨before, after, htext, ht⟩ := htiled.right
  have hmem : place text j ∈ (row text).drop (i + 1) := by
    refine List.mem_iff_getElem?.2 ⟨j - (i + 1), ?_⟩
    rw [List.getElem?_drop, Nat.add_sub_cancel' hij, place_of_lt hj]
  generalize place text i = t at ht ⊢
  generalize place text j = u at hmem ⊢
  cases ht with
  | @token _ gap rest _ _ blank span apart tail =>
    obtain ⟨part, after, rfl, hstop⟩ := tail.stop_of_mem hmem
    have hsplit : text = before ++ gap ++ (t.text ++ part) ++ after := by simpa using htext
    refine ⟨part, ?_⟩
    conv_lhs => rw [hsplit]
    refine Tiled.slice_append (by simp [span]) ?_
    rw [← hstop]
    simp [span, Nat.add_assoc]

/-- **The source text of a term** starts with its first token. -/
theorem Writes.slice_eq_append (hquiet : Quiet text) (h : Writes (place text) i j n e) (hj : j ≤ (row text).length) :
    ∃ rest, slice text n.span = (place text i).text ++ rest := by
  have hlt := h.lt
  rw [h.span_eq]
  exact slice_places hquiet (by omega) (by omega)

end LpcStyle
