import Mathlib.Tactic
import LpcStyle.Proofs.Grammar.Typeset.Sound
import LpcStyle.Proofs.Layout.Layouts
import LpcStyle.Proofs.Style.Ink

/-!
The layouts of terms. Every layout of a printed node that writes a term is a text of that term (`Writes.typeset`), and two
nodes that write the same term are printed alike, though they stand in different texts (`Writes.bare_eq`).
-/

namespace LpcStyle

open Text

namespace Doc

variable {flat : Bool} {t : List Char}

/-- a line end and its indentation -/
theorem wideGap_newline (n : Nat) : WideGap ('\n' :: List.replicate n ' ') where
  blank := by
    refine List.forall_mem_cons.2 ⟨by decide, fun c hc => ?_⟩
    rw [List.eq_of_mem_replicate hc]
    decide
  oneLineFeed := by
    rw [List.count_cons_self, List.count_eq_zero.2 fun hc => absurd (List.eq_of_mem_replicate hc) (by decide)]
  nonempty := by simp

theorem wideGap_space {gap : List Char} (h : Gap gap) : WideGap (' ' :: gap) where
  blank := List.forall_mem_cons.2 ⟨by decide, h.blank⟩
  oneLineFeed := by simpa using h.oneLineFeed
  nonempty := by simp

theorem Lays.wideGap (h : line.Lays flat t) : WideGap t := by
  rcases lays_line.1 h with ⟨-, rfl⟩ | ⟨-, n, rfl⟩
  · exact wideGap_space gap_nil
  · exact wideGap_newline n

theorem Lays.gap (h : softline.Lays flat t) : Gap t := by
  rcases lays_softline.1 h with ⟨-, rfl⟩ | ⟨-, n, rfl⟩
  · exact gap_nil
  · exact (wideGap_newline n).toGap

end Doc

namespace Style

open Doc

variable {env : Env} {flat : Bool} {t : List Char}

/-! ## Operands -/

/-- a printed node that is printed the same as an operand, an argument and a part in parentheses -/
structure Printed.Operand (p : Printed) : Prop where
  slot : p.slot.isStatement = false
  suffix : p.node.suffix = none
  collection : p.shape.isCollection = false
  directive : p.shape.isDirective = false

namespace Printed.Operand

variable {p : Printed}

theorem full (h : p.Operand) : p.full = p.bare := by
  simp [Printed.full, Printed.suffix, h.slot, h.suffix]

theorem commaList (h : p.Operand) (separator : Doc) : commaList separator [p] = p.bare := by
  simp [Style.commaList, listItems, listItem, Doc.join, Printed.suffix, h.suffix, h.directive]

end Printed.Operand

theorem lays_bracketed {body : Doc} (h : (env.bracketed "(" body ")").Lays flat t) :
    ∃ flat' g x g', body.Lays flat' x ∧ Gap g ∧ Gap g' ∧ t = ['('] ++ g ++ (x ++ g' ++ [')']) := by
  obtain ⟨flat', -, hwhole⟩ := h.ungroup
  obtain ⟨_, rfl, hfront⟩ := lays_andThen_lit.1 hwhole
  obtain ⟨_, g', rfl, hopen, hg'⟩ := lays_andThen.1 hfront
  obtain ⟨_, rfl, hindent⟩ := lays_lit_andThen.1 hopen
  obtain ⟨g, x, rfl, hg, hx⟩ := lays_andThen.1 (lays_nested.1 hindent)
  exact ⟨flat', g, x, g', hx, hg.gap, hg'.gap, by simp⟩

theorem lays_paren {p : Printed} (hp : p.Operand) (h : (paren env [p]).Lays flat t) :
    ∃ flat' g x g', p.bare.Lays flat' x ∧ Gap g ∧ Gap g' ∧ t = ['('] ++ g ++ (x ++ g' ++ [')']) := by
  rw [paren, List.isEmpty_cons, if_neg Bool.false_ne_true, hp.commaList] at h
  exact lays_bracketed h

theorem lays_call {callee : Doc} {p : Printed} (hp : p.Operand) (h : (call env callee [p]).Lays flat t) :
    ∃ flat' x g y g', callee.Lays flat x ∧ p.bare.Lays flat' y ∧ Gap g ∧ Gap g' ∧
      t = x ++ (['('] ++ g ++ (y ++ g' ++ [')'])) := by
  rw [call, if_neg (by simp [hp.collection]), hp.commaList] at h
  obtain ⟨x, _, rfl, hx, hargument⟩ := lays_andThen.1 h
  obtain ⟨flat', g, y, g', hy, hg, hg', rfl⟩ := lays_bracketed hargument
  exact ⟨flat', x, g, y, g', hx, hy, hg, hg', rfl⟩

theorem lays_binaryish {isLogical : Bool} {slot : Slot} {left right : Printed} (hleft : left.Operand)
    (hright : right.Operand) {op : List Char}
    (h : (binaryish isLogical slot left right (Doc.lit " " ++ Doc.word op)).Lays flat t) :
    ∃ flat₁ flat₂ x g y, left.bare.Lays flat₁ x ∧ right.bare.Lays flat₂ y ∧ WideGap g ∧
      t = x ++ [' '] ++ (op ++ g ++ y) := by
  -- a group makes no difference to what may be laid out
  have hite {c : Bool} {d : Doc} {flat : Bool} {t : List Char} (h : (if c then d.grouped else d).Lays flat t) :
      ∃ flat', d.Lays flat' t := by
    cases c with
    | false => exact ⟨flat, h⟩
    | true =>
      obtain ⟨flat', -, h⟩ := h.ungroup
      exact ⟨flat', h⟩
  obtain ⟨_, hwhole⟩ := hite h
  obtain ⟨x, _, rfl, hleft', hrest⟩ := lays_andThen.1 hwhole
  obtain ⟨flat₁, -, hx⟩ := hleft'.ungroup
  obtain ⟨flat₂, hrest'⟩ := hite hrest
  obtain ⟨_, y, rfl, hspaced, hy⟩ := lays_andThen.1 hrest'
  obtain ⟨_, g, rfl, hmark, hg⟩ := lays_andThen.1 hspaced
  obtain ⟨_, rfl, hop⟩ := lays_lit_andThen.1 hmark
  obtain rfl := lays_word.1 hop
  rw [hleft.full] at hx
  rw [hright.full] at hy
  exact ⟨flat₁, flat₂, x, g, y, hx, hy, hg.wideGap, by simp⟩

theorem lays_assignment {left : Doc} {right : Printed} (hright : right.Operand) {op : List Char}
    (h : (assignment env left (Doc.word op) (some right)).Lays flat t) :
    ∃ flat' x g y, left.Lays flat x ∧ right.bare.Lays flat' y ∧ WideGap g ∧ t = x ++ [' '] ++ (op ++ g ++ y) := by
  obtain ⟨_, _, rfl, hfront, hvalue⟩ := lays_andThen.1 h
  obtain ⟨_, _, rfl, hleft, hop⟩ := lays_andThen.1 hfront
  obtain ⟨x, rfl, hx⟩ := lays_andThen_lit.1 hleft
  obtain rfl := lays_word.1 hop
  rw [value, if_neg (by simp [hright.collection]), hright.full] at hvalue
  obtain ⟨flat', -, hindent⟩ := hvalue.ungroup
  obtain ⟨g, y, rfl, hg, hy⟩ := lays_andThen.1 (lays_nested.1 hindent)
  exact ⟨flat', x, g, y, hx, hy, hg.wideGap, by simp⟩

theorem lays_ternary {test consequent alternate : Doc} (h : (ternary env test consequent alternate).Lays flat t) :
    ∃ flat' x g₁ y g₃ z, test.Lays flat' x ∧ consequent.Lays flat' y ∧ alternate.Lays flat' z ∧ WideGap g₁ ∧
      WideGap g₃ ∧ t = x ++ g₁ ++ (['?'] ++ [' '] ++ (y ++ g₃ ++ ([':'] ++ [' '] ++ z))) := by
  obtain ⟨flat', -, hwhole⟩ := h.ungroup
  obtain ⟨_, _, rfl, htest, hbranches⟩ := lays_andThen.1 hwhole
  obtain ⟨x, rfl, hx⟩ := lays_andThen_lit.1 htest
  obtain ⟨_, z, rfl, hcolon, hz⟩ := lays_andThen.1 (lays_nested.1 hbranches)
  obtain ⟨_, rfl, hline⟩ := lays_andThen_lit.1 hcolon
  obtain ⟨_, g₃, rfl, hfirst, hg₃⟩ := lays_andThen.1 hline
  obtain ⟨_, y, rfl, hquestion, hy⟩ := lays_andThen.1 hfirst
  obtain ⟨g, rfl, hg⟩ := lays_andThen_lit.1 hquestion
  exact ⟨flat', x, ' ' :: g, y, g₃, z, hx, hy, hz, wideGap_space hg.gap, hg₃.wideGap, by simp⟩

theorem lays_signed {op : List Char} {argument : Printed} (hargument : argument.Operand)
    (h : (unary env op argument).Lays flat t) : ∃ g x, argument.bare.Lays flat x ∧ Gap g ∧ t = op ++ g ++ x ∧
      ∀ c ∈ ['-', '+'], op = [c] → startsWith op (slice env.source argument.node.span) = true → g ≠ [] := by
  obtain ⟨_, x, rfl, hsign, hx⟩ := lays_andThen.1 h
  obtain ⟨g, rfl, hg⟩ := lays_word_andThen.1 hsign
  rw [hargument.full] at hx
  split_ifs at hg with hspace
  · rw [lays_lit] at hg
    exact ⟨g, x, hx, hg ▸ (wideGap_space gap_nil).toGap, rfl, fun _ _ _ _ => by simp [hg]⟩
  · rw [lays_nil] at hg
    refine ⟨g, x, hx, hg ▸ gap_nil, rfl, fun c hc hop hstarts => absurd ?_ hspace⟩
    subst hop
    simpa [hstarts] using hc

/-! ## Operands in two texts -/

/-- operands that are printed the same, as forms of one kind -/
structure Printed.Twin (p q : Printed) : Prop where
  left : p.Operand
  right : q.Operand
  bare : p.bare = q.bare
  logical : p.shape.isLogical = q.shape.isLogical
  binary : p.shape.isBinary = q.shape.isBinary

theorem Printed.Twin.full {p q : Printed} (h : p.Twin q) : p.full = q.full := by
  rw [h.left.full, h.right.full, h.bare]

section

variable {env' : Env} (hoptions : env.options = env'.options) {p q p' q' : Printed}

theorem binaryish_twin (isLogical : Bool) (slot : Slot) (op : Doc) (h : p.Twin p') (h' : q.Twin q') :
    binaryish isLogical slot p q op = binaryish isLogical slot p' q' op := by
  simp only [binaryish, h.full, h'.full, h.logical, h.binary, h'.logical, h'.binary]

include hoptions

theorem indent_eq (d : Doc) : env.indent d = env'.indent d := by
  rw [Env.indent, Env.indent, hoptions]

theorem bracketed_eq (front : String) (d : Doc) (back : String) : env.bracketed front d back = env'.bracketed front d back := by
  rw [Env.bracketed, Env.bracketed, indent_eq hoptions]

theorem paren_twin (h : p.Twin q) : paren env [p] = paren env' [q] := by
  simp only [paren, List.isEmpty_cons, h.left.commaList, h.right.commaList, h.bare, bracketed_eq hoptions]

theorem assignment_twin (op : Doc) (h : p.Twin p') (h' : q.Twin q') :
    assignment env p.full op (some q) = assignment env' p'.full op (some q') := by
  simp only [assignment, value, h.full, h'.left.collection, h'.right.collection, h'.full, indent_eq hoptions]

theorem call_twin (h : p.Twin p') (h' : q.Twin q') : call env p.full [q] = call env' p'.full [q'] := by
  simp only [call, h.full, h'.left.collection, h'.right.collection, h'.left.commaList, h'.right.commaList, h'.bare, h'.full,
    bracketed_eq hoptions]

theorem ternary_twin {r r' : Printed} (h : p.Twin p') (h' : q.Twin q') (h'' : r.Twin r') :
    ternary env p.full q.full r.full = ternary env' p'.full q'.full r'.full := by
  simp only [ternary, h.full, h'.full, h''.full, indent_eq hoptions]

omit hoptions

theorem call_unit_twin (h : p.Twin q) : call env p.full [] = call env' q.full [] := by
  simp only [call, h.full]

theorem step_twin (op : Doc) (h : p.Twin q) : assignment env p.full op none = assignment env' q.full op none := by
  simp only [assignment, h.full]

theorem unary_twin (op : List Char) (h : p.Twin q)
    (hstarts : ∀ c, startsWith [c] (slice env.source p.node.span) = startsWith [c] (slice env'.source q.node.span)) :
    unary env op p = unary env' op q := by
  have hspace : ((op == ['-'] || op == ['+']) && startsWith op (slice env.source p.node.span)) =
      ((op == ['-'] || op == ['+']) && startsWith op (slice env'.source q.node.span)) := by
    by_cases hop : op = ['-'] ∨ op = ['+']
    · rcases hop with rfl | rfl <;> rw [hstarts]
    · have hnone : (op == ['-'] || op == ['+']) = false := by simpa using hop
      rw [hnone, Bool.false_and, Bool.false_and]
  simp only [unary, hspace, h.full]

end

end Style

/-! ## Terms -/

/-- only the front of a text counts for what it starts with -/
theorem startsWith_front {c : Char} {front : List Char} (h : front ≠ []) (rest rest' : List Char) :
    startsWith [c] (front ++ rest) = startsWith [c] (front ++ rest') := by
  obtain ⟨d, more, rfl⟩ := List.exists_cons_of_ne_nil h
  simp [startsWith, List.isPrefixOf]

namespace Writes

open Style

variable {text text' : List Char} {tok tok' : Nat → Token} {i j i' j' : Nat} {n n' l r l' r' : Node} {e a : Term}
  {env env' : Env} {p p' : Place} {flat : Bool} {t : List Char}

/-- a term is printed as an operand wherever it is no statement -/
theorem operand (h : Writes tok i j n e) (hslot : p.slot.isStatement = false) : (print env p n).Operand where
  slot := by cases n; exact hslot
  suffix := by rw [node_print]; exact h.suffix
  collection := by
    rw [Printed.shape, node_print]
    cases h <;> first | rfl | (simp only [Node.shape, joint]; split_ifs <;> rfl)
  directive := by
    rw [Printed.shape, node_print]
    cases h <;> first | rfl | (simp only [Node.shape, joint]; split_ifs <;> rfl)

/-- an operator between two terms is laid out with gaps on both sides, whatever form it makes of them -/
theorem lays_joint (h : Writes tok i j l e) (h' : Writes tok i' j' r a) (op : Token) (span : Span)
    (ht : (layout env p span (joint op l r)).Lays flat t) : ∃ p₁ p₂ flat₁ flat₂ x g y,
      (print env p₁ l).bare.Lays flat₁ x ∧ (print env p₂ r).bare.Lays flat₂ y ∧ WideGap g ∧
        t = x ++ [' '] ++ (op.text ++ g ++ y) := by
  unfold joint at ht
  split_ifs at ht
  · simp only [layout] at ht
    obtain ⟨flat₁, flat₂, x, g, y, hx, hy, hg, rfl⟩ := lays_binaryish (h.operand rfl) (h'.operand rfl) ht
    exact ⟨_, _, flat₁, flat₂, x, g, y, hx, hy, hg, rfl⟩
  · simp only [layout, print?_eq_map, Option.map_some] at ht
    obtain ⟨flat', x, g, y, hx, hy, hg, rfl⟩ := lays_assignment (h'.operand rfl) ht
    rw [(h.operand rfl).full] at hx
    exact ⟨_, _, flat, flat', x, g, y, hx, hy, hg, rfl⟩
  · simp only [layout, Bool.false_eq_true, if_false] at ht
    obtain ⟨flat₁, flat₂, x, g, y, hx, hy, hg, rfl⟩ := lays_binaryish (h.operand rfl) (h'.operand rfl) ht
    exact ⟨_, _, flat₁, flat₂, x, g, y, hx, hy, hg, rfl⟩

/-- **Every layout of a term is a text of it.** -/
theorem typeset (hquiet : Quiet text) (hlegitimate : Legitimate text) (henv : env.source = text)
    (h : Writes (place text) i j n e) (hj : j ≤ (row text).length) (hsound : e.Sound)
    (ht : (print env p n).bare.Lays flat t) : Typeset e t := by
  induction h generalizing p flat t with
  | @name i w hspells =>
    obtain ⟨-, rfl⟩ := spelled_of_spelling hspells
    have hplain := Plain.ofName hsound.1
    simp only [Parser.leaf, print, layout, Doc.lays_word, hplain.solid.trimmed.trim_eq] at ht
    subst ht
    exact .name hsound.1 hsound.2
  | @number i w hspells =>
    obtain ⟨-, rfl⟩ := spelled_of_spelling hspells
    have hplain := Plain.ofNumber hsound
    simp only [Parser.leaf, print, layout, Doc.lays_word, hplain.solid.trimmed.trim_eq] at ht
    subst ht
    exact .number hsound
  | unit =>
    simp only [print, layout, printAll, Style.paren, List.isEmpty_nil, if_true, Doc.lays_lit] at ht
    subst ht
    exact .unit
  | paren _ h _ ih =>
    simp only [print, layout, printAll] at ht
    obtain ⟨flat', g, x, g', hx, hg, hg', rfl⟩ := lays_paren (h.operand rfl) ht
    exact .paren hg (ih (by omega) hsound hx) hg'
  | call h _ _ ih =>
    simp only [print, layout, printAll, Style.call, (h.operand (p := p.under _ .inner) rfl).full] at ht
    obtain ⟨x, rfl, hx⟩ := Doc.lays_andThen_lit.1 ht
    exact .call (ih (by omega) hsound hx)
  | apply h _ harg _ ih iharg =>
    simp only [print, layout, printAll, (h.operand (p := p.under _ .inner) rfl).full] at ht
    have := harg.lt
    obtain ⟨flat', x, g, y, g', hx, hy, hg, hg', rfl⟩ := lays_call (harg.operand rfl) ht
    exact .apply (ih (by omega) hsound.1 hx) hg (iharg (by omega) hsound.2 hy) hg'
  | step h _ hspells ih =>
    obtain rfl := hspells
    simp only [print, layout, print?, assignment, (h.operand (p := p.under _ .inner) rfl).full] at ht
    obtain ⟨x, _, rfl, hx, hop⟩ := Doc.lays_andThen.1 ht
    obtain rfl := Doc.lays_word.1 hop
    exact .step (ih (by omega) hsound.1 hx) hsound.2
  | @sign i j n e op _ hspells h ih =>
    obtain rfl := hspells
    simp only [print, layout] at ht
    obtain ⟨g, x, hx, hg, rfl, hapart⟩ := lays_signed (h.operand rfl) ht
    have hx := ih hj hsound.2 hx
    refine .sign hsound.1 hg hx fun c hc hop hhead => hapart c hc hop ?_
    -- the source text of the operand and its layout start with the same token
    obtain ⟨u, us, rest, hspelled, rfl, d, hfirst, -⟩ := hx.front
    have hne : u.2 ≠ [] := fun hnil => by simp [hnil] at hfirst
    have hsaid := h.said hlegitimate.spelt
    rw [hspelled, sayings_cons h.lt] at hsaid
    obtain ⟨rest', hslice⟩ := h.slice_eq_append hquiet hj
    obtain rfl : u = (place text (i + 1)).spelling := (List.cons.inj hsaid).1
    have hc : startsWith [c] ((place text (i + 1)).text ++ rest) = true := by
      obtain ⟨more, hmore⟩ := List.head?_eq_some_iff.1 hhead
      exact startsWith_iff.2 ⟨more, hmore⟩
    change startsWith (place text i).text _ = true
    rw [show (place text i).text = [c] from hop, henv, node_print, hslice, ← hc]
    exact startsWith_front hne rest' rest
  | @binary i j k l r e e' op h _ hspells h' ih ih' =>
    obtain rfl := hspells
    have := h'.lt
    obtain ⟨p₁, p₂, flat₁, flat₂, x, g, y, hx, hy, hg, rfl⟩ := lays_joint h h' _ _ ht
    exact .binary (ih (by omega) hsound.1 hx) (Doc.wideGap_space gap_nil) hsound.2.1 hg (ih' hj hsound.2.2 hy)
  | ternary ht' _ hc _ ha iht ihc iha =>
    have := hc.lt
    have := ha.lt
    simp only [print, layout, (ht'.operand (p := p.under _ .inner) rfl).full, (hc.operand (p := p.under _ .inner) rfl).full,
      (ha.operand (p := p.under _ .inner) rfl).full] at ht
    obtain ⟨flat', x, g₁, y, g₃, z, hx, hy, hz, hg₁, hg₃, rfl⟩ := lays_ternary ht
    exact .ternary (iht (by omega) hsound.1 hx) hg₁ (Doc.wideGap_space gap_nil) (ihc (by omega) hsound.2.1 hy) hg₃
      (Doc.wideGap_space gap_nil) (iha hj hsound.2.2 hz)

/-! ## The same term in two texts -/

/-- the form of a node is that of the term -/
theorem sameForm (h : Writes tok i j n e) (h' : Writes tok' i' j' n' e) :
    n.shape.isLogical = n'.shape.isLogical ∧ n.shape.isBinary = n'.shape.isBinary := by
  cases h with
  | @binary _ j _ _ _ _ _ _ _ _ hspells =>
    cases h' with
    | @binary _ j' _ _ _ _ _ _ _ _ hspells' =>
      have hkind : (tok' j').kind = (tok j).kind := congrArg Prod.fst (hspells'.trans hspells.symm)
      simp only [Node.shape, joint, hkind]
      split_ifs <;> exact ⟨rfl, rfl⟩
  | _ =>
    cases h'
    exact ⟨rfl, rfl⟩

/-- **Nodes that write the same term** have the same layouts at places of the same kind. -/
theorem bare_eq (hquiet : Quiet text) (hquiet' : Quiet text') (hspelt : ∀ k, Spelt (place text k).kind (place text k).text)
    (hspelt' : ∀ k, Spelt (place text' k).kind (place text' k).text) (henv : env.source = text) (henv' : env'.source = text')
    (hoptions : env.options = env'.options) (h : Writes (place text) i j n e) (h' : Writes (place text') i' j' n' e)
    (hj : j ≤ (row text).length) (hj' : j' ≤ (row text').length) (hsound : e.Sound) (hslot : p.slot = p'.slot) :
    (print env p n).bare = (print env' p' n').bare := by
  have htext {t t' : Token} {op : Kind × List Char} (h : t.spelling = op) (h' : t'.spelling = op) : t.text = t'.text :=
    congrArg Prod.snd (h.trans h'.symm)
  -- what is printed the same by itself is so as an operand
  have htwin {i j i' j' : Nat} {n n' : Node} {e : Term} (h : Writes (place text) i j n e)
      (h' : Writes (place text') i' j' n' e)
      (hbare : ∀ {p p' : Place}, p.slot = p'.slot → (print env p n).bare = (print env' p' n').bare)
      (p p' : Place) (hslot : p.slot = p'.slot) (hinner : p.slot.isStatement = false) :
      (print env p n).Twin (print env' p' n') := by
    obtain ⟨hlogical, hbinary⟩ := h.sameForm h'
    refine ⟨h.operand hinner, h'.operand (hslot ▸ hinner), hbare hslot, ?_, ?_⟩ <;>
      rwa [Printed.shape, Printed.shape, node_print, node_print]
  induction h generalizing i' j' n' p p' with
  | name h =>
    cases h' with
    | name h' => simp only [Parser.leaf, print, layout, htext h h']
  | number h =>
    cases h' with
    | number h' => simp only [Parser.leaf, print, layout, htext h h']
  | unit =>
    cases h'
    simp only [print, layout, printAll, Style.paren, List.isEmpty_nil, if_true]
  | paren _ h _ ih =>
    cases h' with
    | paren _ h' _ =>
      have hn := htwin h h' (ih h' (by omega) (by omega) hsound)
      simp only [print, layout, printAll]
      exact paren_twin hoptions (hn _ _ rfl rfl)
  | call h _ _ ih =>
    cases h' with
    | call h' _ _ =>
      have hn := htwin h h' (ih h' (by omega) (by omega) hsound)
      simp only [print, layout, printAll]
      exact call_unit_twin (hn _ _ rfl rfl)
  | apply h _ harg _ ih iharg =>
    have := harg.lt
    cases h' with
    | apply h' _ harg' _ =>
      have := harg'.lt
      have hn := htwin h h' (ih h' (by omega) (by omega) hsound.1)
      have hm := htwin harg harg' (iharg harg' (by omega) (by omega) hsound.2)
      simp only [print, layout, printAll]
      exact call_twin hoptions (hn _ _ rfl rfl) (hm _ _ rfl rfl)
  | step h _ hspells ih =>
    cases h' with
    | step h' _ hspells' =>
      have hn := htwin h h' (ih h' (by omega) (by omega) hsound.1)
      simp only [print, layout, print?, Lexeme.ofToken, htext hspells hspells']
      exact step_twin _ (hn _ _ rfl rfl)
  | @sign i j n e op _ hspells h ih =>
    cases h' with
    | @sign i' j' n' _ _ _ hspells' h' =>
      have hn := htwin h h' (ih h' hj hj' hsound.2)
      simp only [print, layout, Lexeme.ofToken, htext hspells hspells']
      refine unary_twin _ (hn _ _ rfl rfl) fun c => ?_
      -- the source texts of the operands start with the same token
      obtain ⟨u, us, hspelled, hne⟩ := hsound.2.front
      have hfirst {tok : Nat → Token} {i j : Nat} (hlt : i < j) (h : e.spelled = sayings tok i j) : u.2 = (tok i).text := by
        rw [hspelled, sayings_cons hlt] at h
        exact congrArg Prod.snd (List.cons.inj h).1
      obtain ⟨rest, hslice⟩ := h.slice_eq_append hquiet hj
      obtain ⟨rest', hslice'⟩ := h'.slice_eq_append hquiet' hj'
      rw [node_print, node_print, henv, henv', hslice, hslice', ← hfirst h.lt (h.said hspelt), ← hfirst h'.lt (h'.said hspelt')]
      exact startsWith_front hne rest rest'
  | @binary i j k l r e a op h _ hspells hr ih ihr =>
    cases h' with
    | @binary _ j' _ l' r' _ _ _ h' _ hspells' hr' =>
      have := hr.lt
      have := hr'.lt
      have hkind : (place text j).kind = (place text' j').kind := congrArg Prod.fst (hspells.trans hspells'.symm)
      have hleft := htwin h h' (ih h' (by omega) (by omega) hsound.1)
      have hright := htwin hr hr' (ihr hr' hj hj' hsound.2.2)
      simp only [print, joint, hkind]
      split_ifs <;> simp only [layout, Lexeme.ofToken, htext hspells hspells', hslot, print?]
      · exact binaryish_twin _ _ _ (hleft _ _ rfl rfl) (hright _ _ rfl rfl)
      · exact assignment_twin hoptions _ (hleft _ _ rfl rfl) (hright _ _ rfl rfl)
      · exact binaryish_twin _ _ _ (hleft _ _ rfl rfl) (hright _ _ rfl rfl)
  | ternary ht _ hc _ ha iht ihc iha =>
    have := hc.lt
    have := ha.lt
    cases h' with
    | ternary ht' _ hc' _ ha' =>
      have := hc'.lt
      have := ha'.lt
      have htest := htwin ht ht' (iht ht' (by omega) (by omega) hsound.1)
      have hconsequent := htwin hc hc' (ihc hc' (by omega) (by omega) hsound.2.1)
      have halternate := htwin ha ha' (iha ha' hj hj' hsound.2.2)
      simp only [print, layout]
      exact ternary_twin hoptions (htest _ _ rfl rfl) (hconsequent _ _ rfl rfl) (halternate _ _ rfl rfl)

end Writes

end LpcStyle
