import Mathlib.Tactic
import LpcStyle.Proofs.Grammar.Bracketed

/-!
Expressions. What follows an operand is read by loops around it, and each round covers the tokens of the one before it
and more: `Reads.growing`. Main statement: `reads_expression`.
-/

namespace LpcStyle

open Text LpcStyle.Parser

variable {σ : Source} {rules : Rules} {a : List Token}

/-- **Loops around an operand** cover what they started with and all that they took. -/
theorem Reads.growing {step : Node → Parser (Node ⊕ Node)} {operand : Node} {front : List Token}
    (h : operand.Covers σ front) (hstep : ∀ (left : Node) (front b : List Token), left.Covers σ front →
      Reads σ b (step left) fun x c => Grown σ front b (x.elim id id) c) :
    Reads σ a (Parser.loop operand step) (Grown σ front a) := by
  refine .loop (Grown σ front a) (.refl h) ?_
  rintro left b ⟨ts, rfl, hleft⟩
  refine (hstep left _ b hleft).mono fun x c hx => ?_
  cases x with
  | inl n => exact .trans rfl hx
  | inr n => exact .trans rfl hx

namespace Grammar

/-! ## Operands -/

theorem reads_atName : Reads σ a atName fun x b => b = a ∧ (x = true → (σ.next a).kind ≠ .endOfFile) := by
  unfold atName
  refine .peek_bind (.pure ⟨rfl, fun h heof => ?_⟩)
  simp [heof] at h

theorem reads_name : Reads σ a name (Spanned σ a) := by
  unfold name
  refine .bind reads_atName ?_
  rintro x b ⟨rfl, hx⟩
  cases x with
  | false => exact .wanted
  | true =>
    refine .takeSome_bind (hx rfl) ?_
    rintro t c rfl
    exact .pure ⟨[t], rfl, .leaf rfl rfl rfl⟩

/-- a token that is a node of its own -/
theorem reads_whole {shape : Shape Node} {k : Kind} (hnext : (σ.next a).kind = k) (hk : k ≠ .endOfFile)
    (ink : Shape.ink σ.text (σ.next a).span shape = (σ.next a).ink) (own : shape.isDirective = false)
    (parts : shape.parts = []) : Reads σ a (do let _ ← take; return leaf (σ.next a) shape) (Spanned σ a) := by
  refine .takeSome_bind (hnext ▸ hk) ?_
  rintro t b rfl
  exact .pure ⟨[t], rfl, .leaf ink.symm own parts⟩

theorem reads_primary (ok : rules.Sound σ) : Reads σ a (primary rules) (Spanned σ a) := by
  unfold primary
  refine .peek_bind ?_
  dsimp only
  split
  · next hk => exact reads_whole hk (by simp) rfl rfl rfl
  · next hk => exact reads_whole hk (by simp) rfl rfl rfl
  · next hk => exact reads_whole hk (by simp) rfl rfl rfl
  · next hk => exact reads_whole hk (by simp) rfl rfl rfl
  · exact reads_name
  · split
    · exact reads_name
    · exact .wanted
  · next hk => exact reads_whole hk (by simp) rfl rfl rfl
  · next hk => exact reads_whole hk (by simp) rfl rfl rfl
  · next hk => exact reads_whole hk (by simp) rfl rfl rfl
  · next hk =>
    refine .takeMark_bind rfl hk ?_
    rintro colons b rfl - hcolons
    refine .bind reads_name ?_
    rintro member c ⟨ts, rfl, hmember⟩
    refine .build ⟨colons :: ts, rfl, .ofShape ?_ rfl ?_ rfl (hmember.stop_cons _)⟩
    · simp [Shape.ink, hcolons, hmember.ink]
    · simp [Shape.parts, hmember.free]
  · exact reads_textBlock
  · exact reads_paren ok
  · exact reads_array ok
  · exact reads_mapping ok
  · exact reads_inlineClosure ok
  · exact reads_lambda ok
  · exact .wanted

theorem reads_call (ok : rules.Sound σ) {callee : Node} {front : List Token} (hcallee : callee.Covers σ front) :
    Reads σ a (call rules callee) (Grown σ front a) := by
  unfold call
  refine .mark_bind rfl ?_
  rintro start b rfl - hstart
  refine .bind (reads_delimited rfl fun a => (ok.argument a).mono fun _ _ => Spanned.stated) ?_
  rintro ⟨args, close⟩ c ⟨⟨ts, rfl, hargs⟩, hclose⟩
  refine .build ⟨start :: ts ++ [close], by simp, .ofShape ?_ rfl ?_ (hcallee.start_append _) ?_⟩
  · simp [Shape.ink, hcallee.ink, hstart, hargs.ink, hclose]
  · simpa [Shape.parts, hcallee.free] using hargs.free
  · rw [← List.append_assoc]
    exact Node.stop_concat _ _

theorem reads_member (ok : rules.Sound σ) {object : Node} {front : List Token} (hobject : object.Covers σ front)
    (hk : (σ.next a).kind = .arrow ∨ (σ.next a).kind = .dot) : Reads σ a (member rules object) (Grown σ front a) := by
  unfold member
  have hdot : ∃ k m, (σ.next a).kind = k ∧ k.mark? = some m ∧ m = if k = .dot then mark "." else mark "->" := by
    rcases hk with hk | hk
    · exact ⟨_, _, hk, rfl, rfl⟩
    · exact ⟨_, _, hk, rfl, rfl⟩
  obtain ⟨k, m, hnext, hm, hink⟩ := hdot
  refine .takeMark_bind hm hnext ?_
  rintro t b rfl rfl ht
  -- whichever form the property has, the object and the property are put together in the same way
  have hjoin {property : Node} {c : List Token} (hproperty : Spanned σ b property c) :
      Reads σ c (build object.start property.stop (.member object property (decide (t.kind = .dot))))
        (Grown σ front (t :: b)) := by
    obtain ⟨ts, rfl, hproperty⟩ := hproperty
    refine .build ⟨t :: ts, rfl, .ofShape ?_ rfl ?_ (hobject.start_append _) ?_⟩
    · simp [Shape.ink, hobject.ink, ht, hink, hproperty.ink]
    · simp [Shape.parts, hobject.free, hproperty.free]
    · rw [List.append_cons]
      exact hproperty.stop_append _
  refine .at_bind ?_
  split
  · exact .bind (reads_paren ok) fun _ _ => hjoin
  refine .bind reads_name ?_
  rintro property c ⟨ts, rfl, hproperty⟩
  refine .at_bind ?_
  split
  · exact .bind (reads_call ok hproperty) fun _ _ h => hjoin (h.spanned rfl)
  · exact hjoin ⟨ts, rfl, hproperty⟩

theorem reads_trailers (ok : rules.Sound σ) {operand : Node} {front : List Token} (hoperand : operand.Covers σ front) :
    Reads σ a (trailers rules operand) (Grown σ front a) := by
  unfold trailers
  refine .growing hoperand fun left front b hleft => .peek_bind ?_
  split
  · split
    · exact .bind (reads_call ok hleft) fun _ _ h => .pure h
    · exact .pure (.refl hleft)
  · exact .bind (reads_index ok hleft) fun _ _ h => .pure h
  · next hk => exact .bind (reads_member ok hleft (.inl hk)) fun _ _ h => .pure h
  · next hk => exact .bind (reads_member ok hleft (.inr hk)) fun _ _ h => .pure h
  · next hk =>
    split
    · refine .takeMark_bind rfl hk ?_
      rintro colons c rfl - hcolons
      refine .bind reads_name ?_
      rintro member d ⟨ts, rfl, hmember⟩
      refine .build_bind (.pure ⟨colons :: ts, rfl, .ofShape ?_ rfl ?_ (hleft.start_append _) ?_⟩)
      · simp [Shape.ink, hleft.ink, hcolons, hmember.ink]
      · simp [Shape.parts, hleft.free, hmember.free]
      · rw [List.append_cons]
        exact hmember.stop_append _
    · exact .pure (.refl hleft)
  · next hk =>
    split
    · refine .takeSome_bind (by simp [hk]) ?_
      rintro step c rfl
      refine .build_bind (.pure ⟨[step], rfl, .ofShape ?_ rfl ?_ (hleft.start_append _) (Node.stop_concat _ _)⟩)
      · simp [Shape.ink, hleft.ink]
      · simp [Shape.parts, hleft.free]
    · exact .pure (.refl hleft)
  · next hk =>
    refine .takeMark_bind rfl hk ?_
    rintro dots c rfl - hdots
    refine .build_bind (.pure ⟨[dots], rfl, .ofShape ?_ rfl ?_ (hleft.start_append _) (Node.stop_concat _ _)⟩)
    · simp [Shape.ink, hleft.ink, hdots]
    · simp [Shape.parts, hleft.free]
  · exact .pure (.refl hleft)

/-- a primary with all that follows it -/
theorem reads_trailed (ok : rules.Sound σ) : Reads σ a (primary rules >>= trailers rules) (Spanned σ a) := by
  refine .bind (reads_primary ok) ?_
  rintro operand b ⟨ts, rfl, hoperand⟩
  exact (reads_trailers ok hoperand).mono fun _ _ h => h.spanned rfl

theorem reads_operand (ok : rules.Sound σ) : Reads σ a (operand rules) (Spanned σ a) := by
  unfold operand
  refine .known_mem fun hmem => .peek_bind ?_
  split
  · next hk =>
    refine .takeSome_bind (by simp [hk]) ?_
    rintro cast b rfl
    refine .bind (ok.operand b) ?_
    rintro argument c ⟨ts, rfl, hargument⟩
    refine .build ⟨cast :: ts, rfl, .ofShape ?_ rfl ?_ rfl (hargument.stop_cons _)⟩
    · simp [Shape.ink, σ.cast_ink (hmem cast List.mem_cons_self) hk, hargument.ink]
    · simp [Shape.parts, hargument.free]
  split
  · next hop =>
    refine .takeSome_bind (ne_endOfFile_of_isPrefixOperator hop) ?_
    rintro op b rfl
    refine .bind (ok.operand b) ?_
    rintro argument c ⟨ts, rfl, hargument⟩
    refine .build ⟨op :: ts, rfl, .ofShape ?_ rfl ?_ rfl (hargument.stop_cons _)⟩
    · simp [Shape.ink, hargument.ink]
    · simp [Shape.parts, hargument.free]
  · exact reads_trailed ok

/-! ## Operators between operands -/

/-- pieces of strings stand side by side without a token between them -/
theorem reads_joined (ok : rules.Sound σ) {operand : Node} {front : List Token} (hoperand : operand.Covers σ front) :
    Reads σ a (joined rules operand) (Grown σ front a) := by
  unfold joined
  refine .growing hoperand fun left front b hleft => .peekKind_bind ?_
  split
  · refine .bind (reads_primary ok) ?_
    rintro piece c ⟨ts, rfl, hpiece⟩
    refine .bind (reads_trailers ok hpiece) ?_
    rintro right d ⟨us, rfl, hright⟩
    refine .build_bind (.pure ⟨ts ++ us, by simp, .ofShape ?_ rfl ?_ (hleft.start_append _) (hright.stop_append _)⟩)
    · have hink := hright.ink
      simp only [inkOf_append] at hink
      simp [Shape.ink, hleft.ink, hink]
    · simp [Shape.parts, hleft.free, hright.free]
  · exact .pure (.refl hleft)

theorem reads_tighter (ok : rules.Sound σ) (rank : Nat) {right : Node} {front : List Token}
    (hright : right.Covers σ front) : Reads σ a (tighter rules rank right) (Grown σ front a) := by
  unfold tighter
  refine .growing hright fun left front b hleft => .peek_bind ?_
  split
  · split
    · exact .bind (ok.climb hleft _ b) fun _ _ h => .pure h
    · exact .pure (.refl hleft)
  · exact .pure (.refl hleft)

theorem reads_climb (ok : rules.Sound σ) {left : Node} {front : List Token} (hleft : left.Covers σ front) (min : Nat) :
    Reads σ a (climb rules left min) (Grown σ front a) := by
  unfold climb
  refine .growing hleft fun left front b hleft => .peek_bind ?_
  split
  swap
  · exact .pure (.refl hleft)
  next rank hrank =>
  split
  swap
  · exact .pure (.refl hleft)
  refine .takeSome_bind (ne_endOfFile_of_rank hrank) ?_
  rintro op c rfl
  refine .bind (ok.operand c) ?_
  rintro first d ⟨ts, rfl, hfirst⟩
  refine .bind (reads_joined ok hfirst) ?_
  rintro second e ⟨us, rfl, hsecond⟩
  refine .bind (reads_tighter ok rank hsecond) ?_
  rintro right f ⟨vs, rfl, hright⟩
  refine .build_bind (.pure ⟨op :: ts ++ us ++ vs, by simp, .ofShape ?_ ?_ ?_ (hleft.start_append _) ?_⟩)
  · have hink := hright.ink
    simp only [inkOf_append] at hink
    split <;> simp [Shape.ink, hleft.ink, ← hink]
  · split <;> rfl
  · split <;> simp [Shape.parts, hleft.free, hright.free]
  · have hstop := hright.stop_append (front ++ [op])
    simpa using hstop

/-! ## Whole expressions -/

theorem reads_ternary (ok : rules.Sound σ) {test : Node} {front : List Token} (htest : test.Covers σ front) :
    Reads σ a (ternary rules test) (Grown σ front a) := by
  unfold ternary
  refine .eatMark_bind rfl (fun _ => .pure (.refl htest)) ?_
  rintro question b rfl - hquestion
  refine .bind (ok.expression b) ?_
  rintro consequent c ⟨ts, rfl, hconsequent⟩
  refine .mark_bind rfl ?_
  rintro colon d rfl - hcolon
  refine .bind (ok.expression d) ?_
  rintro alternate e ⟨us, rfl, halternate⟩
  refine .build ⟨question :: ts ++ colon :: us, by simp, .ofShape ?_ rfl ?_ (htest.start_append _) ?_⟩
  · simp [Shape.ink, htest.ink, hquestion, hconsequent.ink, hcolon, halternate.ink]
  · simp [Shape.parts, htest.free, hconsequent.free, halternate.free]
  · have hstop := halternate.stop_append (front ++ question :: ts ++ [colon])
    simpa using hstop

theorem reads_assignment (ok : rules.Sound σ) {left : Node} {front : List Token} (hleft : left.Covers σ front) :
    Reads σ a (assignment rules left) (Grown σ front a) := by
  unfold assignment
  refine .peek_bind ?_
  split
  · next hk =>
    simp only [Bool.and_eq_true, decide_eq_true_eq] at hk
    refine .takeSome_bind (by simp [hk.1]) ?_
    rintro op b rfl
    refine .bind (ok.expression b) ?_
    rintro right c ⟨ts, rfl, hright⟩
    refine .build ⟨op :: ts, rfl, .ofShape ?_ rfl ?_ (hleft.start_append _) ?_⟩
    · simp [Shape.ink, hleft.ink, hright.ink]
    · simp [Shape.parts, hleft.free, hright.free]
    · rw [List.append_cons]
      exact hright.stop_append _
  · exact .pure (.refl hleft)

theorem reads_afterOperand (ok : rules.Sound σ) {left : Node} {front : List Token} (hleft : left.Covers σ front) :
    Reads σ a (afterOperand rules left) (Grown σ front a) := by
  unfold afterOperand
  refine .bind (reads_joined ok hleft) ?_
  rintro first b ⟨ts, rfl, hfirst⟩
  refine .bind (reads_climb ok hfirst 0) ?_
  rintro second c ⟨us, rfl, hsecond⟩
  refine .bind (reads_ternary ok hsecond) ?_
  rintro third d ⟨vs, rfl, hthird⟩
  refine (reads_assignment ok hthird).mono fun n e hn => ?_
  exact .trans rfl (.trans rfl (.trans rfl hn))

/-- **An expression covers the tokens it is read from.** -/
theorem reads_expression (ok : rules.Sound σ) : Reads σ a (expression rules) (Spanned σ a) := by
  unfold expression
  refine .bind (reads_operand ok) ?_
  rintro left b ⟨ts, rfl, hleft⟩
  exact (reads_afterOperand ok hleft).mono fun _ _ h => h.spanned rfl

theorem reads_expressionFrom (ok : rules.Sound σ) {left : Node} {front : List Token} (hleft : left.Covers σ front) :
    Reads σ a (expressionFrom rules left) (Grown σ front a) := by
  unfold expressionFrom
  refine .bind (reads_trailers ok hleft) ?_
  rintro first b ⟨ts, rfl, hfirst⟩
  exact (reads_afterOperand ok hfirst).mono fun _ _ h => .trans rfl h

end Grammar

end LpcStyle
