import Mathlib.Tactic
import LpcStyle.Proofs.Grammar.Runs
import LpcStyle.Proofs.Grammar.Places
import LpcStyle.Proofs.Tree.Unplaced

/-!
Two texts whose significant tokens say the same are read in step. `InStep τ k p p' Q` says that `p` in the one text and
`p'` in the other one, both from the token at place `k` on, either give results that `Q` relates, again at one place, or
refuse for the same cause. Blank lines may stand ahead in one of the texts only, so a loop over raw tokens takes a round
in that text alone (`agree_loop`).
-/

namespace LpcStyle

open Text LpcStyle.Parser

/-! ## Two texts -/

/-- what a token says, without where it stands -/
def Token.said (t : Token) : Kind × List Char × Option Fault := (t.kind, t.text, t.fault)

theorem Token.said_eq_iff {t u : Token} : t.said = u.said ↔ t.kind = u.kind ∧ t.text = u.text ∧ t.fault = u.fault := by
  simp [said]

/-- two texts without comments whose significant tokens say the same -/
structure Twins where
  text : List Char
  text' : List Char
  quiet : Quiet text
  quiet' : Quiet text'
  row : (row text).map Token.said = (row text').map Token.said
  eof : (Stream.ofText text).eof.said = (Stream.ofText text').eof.said

namespace Twins

variable (τ : Twins) (k : Nat)

/-- how many places there are -/
def size : Nat := (LpcStyle.row τ.text).length

def left : Token := place τ.text k

def right : Token := place τ.text' k

theorem size_eq : (LpcStyle.row τ.text').length = τ.size := by
  simpa [size] using congrArg List.length τ.row.symm

theorem said : (τ.right k).said = (τ.left k).said := by
  have hget := congrArg (·[k]?) τ.row
  simp only [List.getElem?_map] at hget
  simp only [right, left, place, List.getD]
  cases hleft : (LpcStyle.row τ.text)[k]? with
  | none =>
    rw [hleft, Option.map_none, eq_comm, Option.map_eq_none_iff] at hget
    rw [hget]
    exact τ.eof.symm
  | some t =>
    rw [hleft, Option.map_some, eq_comm, Option.map_eq_some_iff] at hget
    obtain ⟨u, hu, hsaid⟩ := hget
    rw [hu]
    exact hsaid

@[simp] theorem kind_right : (τ.right k).kind = (τ.left k).kind := (Token.said_eq_iff.1 (τ.said k)).1

@[simp] theorem text_right : (τ.right k).text = (τ.left k).text := (Token.said_eq_iff.1 (τ.said k)).2.1

@[simp] theorem fault_right : (τ.right k).fault = (τ.left k).fault := (Token.said_eq_iff.1 (τ.said k)).2.2

theorem left_isComment : (τ.left k).kind.isComment = false := place_isComment k

variable {τ k}

theorem lt_size (h : (τ.left k).kind ≠ .endOfFile) : k < τ.size := lt_length_of_place h

/-- the two spans lie between the same places -/
structure Lies (τ : Twins) (i j : Nat) (s s' : Span) : Prop where
  left : s.Within τ.text i j
  right : s'.Within τ.text' i j

namespace Lies

variable {i j m n : Nat} {s s' t t' : Span}

theorem widen (h : τ.Lies i j s s') (hi : m ≤ i) (hj : j ≤ n) : τ.Lies m n s s' :=
  ⟨h.left.widen hi hj, h.right.widen hi hj⟩

theorem fromStart (h : τ.Lies i j s s') : τ.Lies i j ⟨s.start, s.stop⟩ ⟨s'.start, s'.stop⟩ := h

theorem onward (hs : τ.Lies i j s s') (ht : τ.Lies m n t t') (hjm : j ≤ m) :
    τ.Lies i n ⟨s.start, t.stop⟩ ⟨s'.start, t'.stop⟩ := ⟨hs.left.onward ht.left hjm, hs.right.onward ht.right hjm⟩

theorem place (h : k < τ.size) : τ.Lies k (k + 1) (τ.left k).span (τ.right k).span :=
  ⟨.ofPlace h, .ofPlace (by rwa [τ.size_eq])⟩

end Lies

/-- the same node in both texts, between two places -/
structure Same (τ : Twins) (i j : Nat) (n n' : Node) : Prop where
  unplaced : n.unplaced false = n'.unplaced false
  lies : τ.Lies i j n.span n'.span

namespace Same

variable {i j m l : Nat} {n n' : Node}

theorem widen (h : τ.Same i j n n') (hi : m ≤ i) (hj : j ≤ l) : τ.Same m l n n' := ⟨h.unplaced, h.lies.widen hi hj⟩

/-- a node of a form whose parts are the same -/
theorem ofShape {span span' : Span} {shape shape' : Shape Node} (hlies : τ.Lies i j span span')
    (hshape : shape.unplaced false = shape'.unplaced false) : τ.Same i j (.mk span shape none) (.mk span' shape' none) := by
  refine ⟨?_, hlies⟩
  rw [Node.unplaced, Node.unplaced, hshape]

end Same

/-- the same nodes in both texts but for blank lines -/
def SameAll (τ : Twins) (i j : Nat) (ns ns' : List Node) : Prop :=
  List.Forall₂ (τ.Same i j) (Node.solid false ns) (Node.solid false ns')

namespace SameAll

variable {i j m l : Nat} {n n' : Node} {ns ns' ms ms' : List Node}

theorem nil : τ.SameAll i j [] [] := List.Forall₂.nil

theorem widen (h : τ.SameAll i j ns ns') (hi : m ≤ i) (hj : j ≤ l) : τ.SameAll m l ns ns' :=
  h.imp fun _ _ hn => hn.widen hi hj

theorem cons (hn : τ.Same i j n n') (h : τ.SameAll i j ns ns') : τ.SameAll i j (n :: ns) (n' :: ns') := by
  have hblank := Node.isBlankLine_of_unplaced hn.unplaced
  cases hkind : n.shape.isBlankLine with
  | true => simpa [SameAll, Node.solid, hblank, hkind] using h
  | false => simpa [SameAll, Node.solid, hblank, hkind] using ⟨hn, h⟩

theorem reverse (h : τ.SameAll i j ns ns') : τ.SameAll i j ns.reverse ns'.reverse := by
  rw [SameAll, Node.solid, Node.solid, List.filter_reverse, List.filter_reverse]
  exact List.rel_reverse h

theorem unplaced (h : τ.SameAll i j ns ns') : Node.unplacedAll false ns = Node.unplacedAll false ns' := by
  rw [Node.unplacedAll_eq_map, Node.unplacedAll_eq_map]
  exact List.forall₂_eq_eq_eq ▸ List.forall₂_map_left_iff.2 (List.forall₂_map_right_iff.2 (h.imp fun _ _ hn => hn.unplaced))

end SameAll

/-- a part that may be missing -/
def SameOption (τ : Twins) (i j : Nat) (n n' : Option Node) : Prop := Option.Rel (τ.Same i j) n n'

theorem SameOption.unplaced {i j : Nat} {n n' : Option Node} (h : τ.SameOption i j n n') :
    Node.unplaced? false n = Node.unplaced? false n' := by
  cases h with
  | none => rfl
  | some h => simp only [Node.unplaced?, h.unplaced]

theorem SameOption.widen {i j m l : Nat} {n n' : Option Node} (h : τ.SameOption i j n n') (hi : m ≤ i) (hj : j ≤ l) :
    τ.SameOption m l n n' := by
  cases h with
  | none => exact .none
  | some h => exact .some (h.widen hi hj)

/-- both are read up to a place -/
structure At (τ : Twins) (k : Nat) (r r' : Reading) : Prop where
  left : r.At τ.text k
  right : r'.At τ.text' k

/-- and no blank lines are ahead -/
structure Ready (τ : Twins) (k : Nat) (r r' : Reading) : Prop extends τ.At k r r' where
  held : r.held = none
  raw : r.raw = τ.left k
  held' : r'.held = none
  raw' : r'.raw = τ.right k

theorem Ready.dropRaw {r r' : Reading} (h : τ.Ready k r r') (hk : k < τ.size) : τ.At (k + 1) r.dropRaw r'.dropRaw :=
  ⟨h.left.dropRaw hk h.held h.raw, h.right.dropRaw (by rwa [τ.size_eq]) h.held' h.raw'⟩

/-- a token that a preprocessor line goes on after leads to where no blank lines are ahead -/
theorem Ready.dropRaw_line {r r' : Reading} (h : τ.Ready k r r') (hopens : (τ.left k).kind.opensLine = true) :
    τ.Ready (k + 1) r.dropRaw r'.dropRaw ∧
      ((τ.left k).kind = .directiveArgument → (τ.left (k + 1)).kind ≠ .directiveArgument) := by
  have hne : (τ.left k).kind ≠ .endOfFile := by
    intro hkind
    rw [hkind] at hopens
    cases hopens
  have hside {text : List Char} {r : Reading} (hquiet : Quiet text) (hat : r.At text k) (hheld : r.held = none)
      (hraw : r.raw = place text k) (hdrop : r.dropRaw.At text (k + 1)) (hopens : (place text k).kind.opensLine = true)
      (hne : (place text k).kind ≠ .endOfFile) :
      r.dropRaw.held = none ∧ r.dropRaw.raw = place text (k + 1) ∧ Linked (place text k) (place text (k + 1)) := by
    have hlinked := hat.linked_dropRaw hheld (hraw ▸ hne)
    rw [hraw] at hlinked
    rcases hdrop.raw hquiet with hblank | ⟨hnone, hnext⟩
    · exact absurd hblank (hlinked.blank (.inr hopens))
    · exact ⟨hnone, hnext, hnext ▸ hlinked⟩
  have hdrop := h.dropRaw (lt_size hne)
  obtain ⟨hheld, hraw, hlinked⟩ := hside τ.quiet h.left h.held h.raw hdrop.left hopens hne
  obtain ⟨hheld', hraw', -⟩ := hside τ.quiet' h.right h.held' h.raw' hdrop.right
    (by rwa [← τ.kind_right k] at hopens) (by rwa [← τ.kind_right k] at hne)
  exact ⟨⟨hdrop, hheld, hraw, hheld', hraw'⟩, hlinked.argument⟩

end Twins

/-! ## Steps -/

/-- both have a result, and the results are related, or both are refused for the same cause -/
inductive Agree {α : Type} (Q : α → Reading → α → Reading → Prop) :
    Except Failure (α × Reading) → Except Failure (α × Reading) → Prop
  | ok {x x' : α} {s s' : Reading} (h : Q x s x' s') : Agree Q (.ok (x, s)) (.ok (x', s'))
  | refused {cause : Cause} {span span' : Span} :
    Agree Q (.error (.refused ⟨cause, span⟩)) (.error (.refused ⟨cause, span'⟩))

namespace Agree

variable {α β : Type} {p p' : Parser α} {f f' : α → Parser β} {Q Q' : α → Reading → α → Reading → Prop}
  {R : β → Reading → β → Reading → Prop} {r r' : Reading}

theorem mono {e e' : Except Failure (α × Reading)} (h : Agree Q e e') (hQ : ∀ x s x' s', Q x s x' s' → Q' x s x' s') :
    Agree Q' e e' := by
  cases h with
  | ok h => exact .ok (hQ _ _ _ _ h)
  | refused => exact .refused

theorem bind (h : Agree Q (p.run r) (p'.run r'))
    (hf : ∀ x s x' s', Q x s x' s' → Agree R ((f x).run s) ((f' x').run s')) :
    Agree R ((p >>= f).run r) ((p' >>= f').run r') := by
  rw [StateT.run_bind, StateT.run_bind]
  generalize p.run r = e at h
  generalize p'.run r' = e' at h
  cases h with
  | ok h => exact hf _ _ _ _ h
  | refused => exact .refused

end Agree

/-- from a place on, both go on in step -/
def InStep {α : Type} (τ : Twins) (k : Nat) (p p' : Parser α) (Q : Nat → α → α → Prop) : Prop :=
  ∀ r r', τ.At k r r' → Agree (fun x s x' s' => ∃ j, τ.At j s s' ∧ Q j x x') (p.run r) (p'.run r')

/-- the same where no blank lines are ahead -/
def Steady {α : Type} (τ : Twins) (k : Nat) (p p' : Parser α) (Q : Nat → α → α → Prop) : Prop :=
  ∀ r r', τ.Ready k r r' → Agree (fun x s x' s' => ∃ j, τ.At j s s' ∧ Q j x x') (p.run r) (p'.run r')

/-! ## Loops -/

/-- what a round of two loops leads to: both go on with fewer tokens, or both are done -/
def NextRound {σ α : Type} (I : σ → Reading → σ → Reading → Prop) (Q : α → Reading → α → Reading → Prop) (r r' : Reading) :
    σ ⊕ α → Reading → σ ⊕ α → Reading → Prop
  | .inl u, s, .inl u', s' => s.remaining < r.remaining ∧ s'.remaining < r'.remaining ∧ I u s u' s'
  | .inr y, s, .inr y', s' => Q y s y' s'
  | _, _, _, _ => False

/-- **Two loops**: each step keeps the invariant, in both of them or in one alone, and takes a token. -/
theorem agree_loop {σ α : Type} {I : σ → Reading → σ → Reading → Prop} {Q : α → Reading → α → Reading → Prop}
    {step step' : σ → Parser (σ ⊕ α)} {init init' : σ} {r r' : Reading}
    (hstep : ∀ u r u' r', I u r u' r' → Agree (NextRound I Q r r') ((step u).run r) ((step' u').run r') ∨
      (∃ w s, (step u).run r = .ok (.inl w, s) ∧ s.remaining < r.remaining ∧ I w s u' r') ∨
      ∃ w s, (step' u').run r' = .ok (.inl w, s) ∧ s.remaining < r'.remaining ∧ I u r w s)
    (hinit : I init r init' r') : Agree Q ((loop init step).run r) ((loop init' step').run r') := by
  have hiterate (n fuel fuel' : Nat) (u : σ) (r : Reading) (u' : σ) (r' : Reading) (hfuel : r.remaining < fuel)
      (hfuel' : r'.remaining < fuel') (hn : fuel + fuel' ≤ n) (hI : I u r u' r') :
      Agree Q ((iterate step fuel u).run r) ((iterate step' fuel' u').run r') := by
    induction n generalizing fuel fuel' u r u' r' with
    | zero => omega
    | succ n ih =>
      obtain ⟨fuel, rfl⟩ := Nat.exists_eq_add_one.2 (Nat.zero_lt_of_lt hfuel)
      obtain ⟨fuel', rfl⟩ := Nat.exists_eq_add_one.2 (Nat.zero_lt_of_lt hfuel')
      rcases hstep u r u' r' hI with hboth | ⟨w, s, hrun, hless, hI⟩ | ⟨w, s, hrun, hless, hI⟩
      · refine hboth.bind fun x s x' s' hnext => ?_
        cases x with
        | inl w =>
          cases x' with
          | inl w' =>
            obtain ⟨hless, hless', hI⟩ := hnext
            exact ih fuel fuel' w s w' s' (by omega) (by omega) (by omega) hI
          | inr y' => exact hnext.elim
        | inr y =>
          cases x' with
          | inl w' => exact hnext.elim
          | inr y' => exact .ok hnext
      · have hleft : (iterate step (fuel + 1) u).run r = (iterate step fuel w).run s := by
          rw [iterate, StateT.run_bind, hrun]
          rfl
        rw [hleft]
        exact ih fuel (fuel' + 1) w s u' r' (by omega) hfuel' (by omega) hI
      · have hright : (iterate step' (fuel' + 1) u').run r' = (iterate step' fuel' w).run s := by
          rw [iterate, StateT.run_bind, hrun]
          rfl
        rw [hright]
        exact ih (fuel + 1) fuel' u r w s hfuel (by omega) (by omega) hI
  exact hiterate _ _ _ init r init' r' (Nat.lt_succ_self _) (Nat.lt_succ_self _) le_rfl hinit

/-- what a round leads to, in places -/
inductive Next {σ α : Type} (I : Nat → σ → σ → Prop) (Q : Nat → α → α → Prop) (j : Nat) : Nat → σ ⊕ α → σ ⊕ α → Prop
  | again {m : Nat} {u u' : σ} (hlt : j < m) (h : I m u u') : Next I Q j m (.inl u) (.inl u')
  | done {m : Nat} {x x' : α} (h : Q m x x') : Next I Q j m (.inr x) (.inr x')

namespace InStep

variable {τ : Twins} {k : Nat} {α β σ : Type} {p p' : Parser α} {f f' : α → Parser β} {P Q : Nat → α → α → Prop}
  {R : Nat → β → β → Prop}

/-! ## Putting steps together -/

theorem mono (h : InStep τ k p p' P) (hPQ : ∀ j x x', P j x x' → Q j x x') : InStep τ k p p' Q := fun r r' hat =>
  (h r r' hat).mono fun _ _ _ _ ⟨j, hj, hP⟩ => ⟨j, hj, hPQ j _ _ hP⟩

theorem pure {x x' : α} (h : Q k x x') : InStep τ k (pure x) (pure x') Q := fun _ _ hat => .ok ⟨k, hat, h⟩

theorem bind (h : InStep τ k p p' P) (hf : ∀ j x x', P j x x' → InStep τ j (f x) (f' x') R) :
    InStep τ k (p >>= f) (p' >>= f') R := fun r r' hat =>
  (h r r' hat).bind fun x s x' s' ⟨j, hj, hP⟩ => hf j x x' hP s s' hj

theorem map {g g' : α → β} (h : InStep τ k p p' fun j x x' => R j (g x) (g' x')) : InStep τ k (g <$> p) (g' <$> p') R := by
  rw [map_eq_pure_bind, map_eq_pure_bind]
  exact bind h fun j x x' hx => pure hx

theorem ite {c c' : Prop} [Decidable c] [Decidable c'] {q q' : Parser α} (hc : c' ↔ c) (hp : c → InStep τ k p p' Q)
    (hq : ¬c → InStep τ k q q' Q) : InStep τ k (if c then p else q) (if c' then p' else q') Q := by
  by_cases h : c
  · rw [if_pos h, if_pos (hc.2 h)]
    exact hp h
  · rw [if_neg h, if_neg (mt hc.1 h)]
    exact hq h

/-- a place is one of the text -/
theorem known (h : k ≤ τ.size → InStep τ k p p' Q) : InStep τ k p p' Q := fun r r' hat => h hat.left.le r r' hat

/-- **Loops** whose rounds each take a token. -/
theorem loop {I : Nat → σ → σ → Prop} {init init' : σ} {step step' : σ → Parser (σ ⊕ α)} (hinit : I k init init')
    (hstep : ∀ j u u', k ≤ j → I j u u' → InStep τ j (step u) (step' u') (Next I Q j)) :
    InStep τ k (Parser.loop init step) (Parser.loop init' step') Q := by
  intro r r' hat
  refine agree_loop (I := fun u r u' r' => ∃ j, k ≤ j ∧ τ.At j r r' ∧ I j u u') ?_ ⟨k, le_rfl, hat, hinit⟩
  rintro u r u' r' ⟨j, hkj, hat, hI⟩
  refine .inl ((hstep j u u' hkj hI r r' hat).mono ?_)
  rintro x s x' s' ⟨m, hm, hnext⟩
  cases hnext with
  | again hlt hI =>
    exact ⟨hat.left.remaining_lt hm.left hlt, hat.right.remaining_lt hm.right hlt, m, by omega, hm, hI⟩
  | done hQ => exact ⟨m, hm, hQ⟩

/-- **Loops over raw tokens**: a blank line that is ahead in one text only is skipped there. -/
theorem rawLoop {I : Nat → σ → σ → Prop} {init init' : σ} {step step' : σ → Parser (σ ⊕ α)}
    (skip : Token → σ → σ) (hinit : I k init init')
    (hblank : ∀ u r, r.raw.kind = .blankLines →
      (step u).run r = .ok (.inl (skip r.raw u), r.dropRaw) ∧ (step' u).run r = .ok (.inl (skip r.raw u), r.dropRaw))
    (hskip : ∀ j u u' t, I j u u' → I j (skip t u) u' ∧ I j u (skip t u'))
    (hstep : ∀ j u u', k ≤ j → I j u u' → Steady τ j (step u) (step' u') (Next I Q j)) :
    InStep τ k (Parser.loop init step) (Parser.loop init' step') Q := by
  intro r r' hat
  refine agree_loop (I := fun u r u' r' => ∃ j, k ≤ j ∧ τ.At j r r' ∧ I j u u') ?_ ⟨k, le_rfl, hat, hinit⟩
  rintro u r u' r' ⟨j, hkj, hat, hI⟩
  rcases hat.left.raw τ.quiet with hraw | ⟨hheld, hraw⟩
  · obtain ⟨hdrop, hless⟩ := hat.left.dropRaw_blank hraw
    exact .inr (.inl ⟨_, _, (hblank u r hraw).1, hless, j, hkj, ⟨hdrop, hat.right⟩, (hskip j u u' r.raw hI).1⟩)
  rcases hat.right.raw τ.quiet' with hraw' | ⟨hheld', hraw'⟩
  · obtain ⟨hdrop, hless⟩ := hat.right.dropRaw_blank hraw'
    exact .inr (.inr ⟨_, _, (hblank u' r' hraw').2, hless, j, hkj, ⟨hat.left, hdrop⟩, (hskip j u u' r'.raw hI).2⟩)
  refine .inl ((hstep j u u' hkj hI r r' ⟨hat, hheld, hraw, hheld', hraw'⟩).mono ?_)
  rintro x s x' s' ⟨m, hm, hnext⟩
  cases hnext with
  | again hlt hI =>
    exact ⟨hat.left.remaining_lt hm.left hlt, hat.right.remaining_lt hm.right hlt, m, by omega, hm, hI⟩
  | done hQ => exact ⟨m, hm, hQ⟩

/-! ## Looking at a token and taking it -/

theorem peek_bind {f f' : Token → Parser β} (h : InStep τ k (f (τ.left k)) (f' (τ.right k)) R) :
    InStep τ k (Parser.peek >>= f) (Parser.peek >>= f') R := by
  intro r r' hat
  have hpeek : Agree (fun t s t' s' => t = τ.left k ∧ t' = τ.right k ∧ τ.At k s s') (Parser.peek.run r) (Parser.peek.run r') :=
    .ok ⟨hat.left.raw_settle, hat.right.raw_settle, hat.left.settle τ.quiet, hat.right.settle τ.quiet'⟩
  refine hpeek.bind ?_
  rintro _ s _ s' ⟨rfl, rfl, hat⟩
  exact h s s' hat

theorem peekKind_bind {f f' : Kind → Parser β} (h : InStep τ k (f (τ.left k).kind) (f' (τ.left k).kind) R) :
    InStep τ k (Parser.peekKind >>= f) (Parser.peekKind >>= f') R := by
  refine bind (P := fun j x x' => j = k ∧ x = (τ.left k).kind ∧ x' = (τ.left k).kind)
    (peek_bind (pure ⟨rfl, rfl, τ.kind_right k⟩)) ?_
  rintro j x x' ⟨rfl, rfl, rfl⟩
  exact h

theorem at_bind {c : Kind} {f f' : Bool → Parser β}
    (h : InStep τ k (f (decide ((τ.left k).kind = c))) (f' (decide ((τ.left k).kind = c))) R) :
    InStep τ k (Parser.at? c >>= f) (Parser.at? c >>= f') R := by
  refine bind (P := fun j x x' => j = k ∧ x = decide ((τ.left k).kind = c) ∧ x' = decide ((τ.left k).kind = c))
    (peek_bind (pure ⟨rfl, rfl, by rw [τ.kind_right]⟩)) ?_
  rintro j x x' ⟨rfl, rfl, rfl⟩
  exact h

theorem atText_bind {c : Kind} {text : String} {f f' : Bool → Parser β}
    (h : InStep τ k (f (decide ((τ.left k).kind = c) && (τ.left k).text == text.toList))
      (f' (decide ((τ.left k).kind = c) && (τ.left k).text == text.toList)) R) :
    InStep τ k (Parser.atText? c text >>= f) (Parser.atText? c text >>= f') R := by
  refine bind (P := fun j x x' => j = k ∧ x = (decide ((τ.left k).kind = c) && (τ.left k).text == text.toList) ∧
    x' = (decide ((τ.left k).kind = c) && (τ.left k).text == text.toList))
    (peek_bind (pure ⟨rfl, rfl, by rw [τ.kind_right, τ.text_right]⟩)) ?_
  rintro j x x' ⟨rfl, rfl, rfl⟩
  exact h

theorem refuse {cause : Cause} {span span' : Span} :
    InStep τ k (Parser.refuse cause span : Parser α) (Parser.refuse cause span') Q := fun _ _ _ => .refused

/-- the token that comes next is taken where nothing stands before it -/
theorem agree_take {r r' : Reading} (hat : τ.At k r r') :
    Agree (fun t s t' s' => t = τ.left k ∧ t' = τ.right k ∧ (τ.left k).fault = none ∧
      ∃ u u', τ.Ready k u u' ∧ s = u.dropRaw ∧ s' = u'.dropRaw) (Parser.take.run r) (Parser.take.run r') := by
  have hpeek : Agree (fun t s t' s' => t = τ.left k ∧ t' = τ.right k ∧ τ.Ready k s s')
      (Parser.peek.run r) (Parser.peek.run r') :=
    .ok ⟨hat.left.raw_settle, hat.right.raw_settle, ⟨hat.left.settle τ.quiet, hat.right.settle τ.quiet'⟩, rfl,
      hat.left.raw_settle, rfl, hat.right.raw_settle⟩
  refine hpeek.bind ?_
  rintro _ s _ s' ⟨rfl, rfl, hready⟩
  rw [τ.fault_right]
  cases (τ.left k).fault with
  | some fault => exact .refused
  | none => exact .ok ⟨hready.raw, hready.raw', rfl, s, s', hready, rfl, rfl⟩

/-- after taking the token that comes next -/
theorem take_bind {f f' : Token → Parser β} (hkind : (τ.left k).kind ≠ .endOfFile)
    (h : (τ.left k).fault = none → InStep τ (k + 1) (f (τ.left k)) (f' (τ.right k)) R) :
    InStep τ k (Parser.take >>= f) (Parser.take >>= f') R := by
  intro r r' hat
  refine (agree_take hat).bind ?_
  rintro _ _ _ _ ⟨rfl, rfl, hfault, u, u', hready, rfl, rfl⟩
  exact h hfault _ _ (hready.dropRaw (Twins.lt_size hkind))

theorem wanted {what : Wanted} : InStep τ k (Parser.wanted what : Parser α) (Parser.wanted what) Q := by
  refine peek_bind ?_
  rw [τ.fault_right, τ.kind_right, τ.text_right]
  cases (τ.left k).fault with
  | some fault => exact refuse
  | none => exact refuse

theorem unexpected : InStep τ k (Parser.unexpected : Parser α) Parser.unexpected Q := by
  refine peek_bind ?_
  rw [τ.fault_right, τ.kind_right, τ.text_right]
  cases (τ.left k).fault with
  | some fault => exact refuse
  | none => exact ite Iff.rfl (fun _ => refuse) fun _ => refuse

theorem expect_bind {c : Kind} {what : Wanted} {f f' : Token → Parser β} (hc : c ≠ .endOfFile)
    (h : (τ.left k).kind = c → k < τ.size → InStep τ (k + 1) (f (τ.left k)) (f' (τ.right k)) R) :
    InStep τ k (Parser.expect c what >>= f) (Parser.expect c what >>= f') R := by
  have hexpect : InStep τ k (Parser.expect c what) (Parser.expect c what) fun j t t' =>
      j = k + 1 ∧ t = τ.left k ∧ t' = τ.right k ∧ (τ.left k).kind = c := by
    refine at_bind (ite Iff.rfl (fun hkind => ?_) fun _ => wanted)
    have hkind : (τ.left k).kind = c := by simpa using hkind
    rw [← bind_pure Parser.take]
    exact take_bind (hkind ▸ hc) fun _ => pure ⟨rfl, rfl, rfl, hkind⟩
  refine bind hexpect ?_
  rintro j t t' ⟨rfl, rfl, rfl, hkind⟩
  exact h hkind (Twins.lt_size (hkind ▸ hc))

/-- the token that comes next is taken if it is of the kind -/
theorem eat {c : Kind} (hc : c ≠ .endOfFile) : InStep τ k (Parser.eat? c) (Parser.eat? c) fun j t t' =>
    (j = k + 1 ∧ t = some (τ.left k) ∧ t' = some (τ.right k) ∧ (τ.left k).kind = c) ∨
      j = k ∧ t = none ∧ t' = none ∧ (τ.left k).kind ≠ c := by
  refine at_bind (ite Iff.rfl (fun hkind => ?_) fun hkind => pure (.inr ⟨rfl, rfl, rfl, by simpa using hkind⟩))
  have hkind : (τ.left k).kind = c := by simpa using hkind
  exact take_bind (hkind ▸ hc) fun _ => pure (.inl ⟨rfl, rfl, rfl, hkind⟩)

theorem eat_bind {c : Kind} {f f' : Option Token → Parser β} (hc : c ≠ .endOfFile)
    (hsome : (τ.left k).kind = c → k < τ.size → InStep τ (k + 1) (f (some (τ.left k))) (f' (some (τ.right k))) R)
    (hnone : (τ.left k).kind ≠ c → InStep τ k (f none) (f' none) R) :
    InStep τ k (Parser.eat? c >>= f) (Parser.eat? c >>= f') R := by
  refine bind (eat hc) ?_
  rintro j t t' (⟨rfl, rfl, rfl, hkind⟩ | ⟨rfl, rfl, rfl, hkind⟩)
  · exact hsome hkind (Twins.lt_size (hkind ▸ hc))
  · exact hnone hkind

/-! ## Nodes -/

theorem spanning_bind {start stop start' stop' : Nat} {f f' : Span → Parser β} {i j : Nat}
    (hlies : τ.Lies i j ⟨start, stop⟩ ⟨start', stop'⟩) (h : InStep τ k (f ⟨start, stop⟩) (f' ⟨start', stop'⟩) R) :
    InStep τ k (Parser.spanning start stop >>= f) (Parser.spanning start' stop' >>= f') R := by
  have hle : start ≤ stop := hlies.left.ordered
  have hle' : start' ≤ stop' := hlies.right.ordered
  rw [Parser.spanning, Parser.spanning, if_pos hle, if_pos hle', pure_bind, pure_bind]
  exact h

end InStep

/-- a node that is read from one place to a later one -/
def Gives (τ : Twins) (i : Nat) (j : Nat) (n n' : Node) : Prop := i < j ∧ τ.Same i j n n'

namespace InStep

variable {τ : Twins} {i k : Nat} {α β : Type}

theorem build {start stop start' stop' : Nat} {shape shape' : Shape Node} {Q : Nat → Node → Node → Prop}
    (hlies : τ.Lies i k ⟨start, stop⟩ ⟨start', stop'⟩) (hshape : shape.unplaced false = shape'.unplaced false)
    (hQ : ∀ n n', τ.Same i k n n' → Q k n n') :
    InStep τ k (Parser.build start stop shape) (Parser.build start' stop' shape') Q :=
  spanning_bind hlies (pure (hQ _ _ (.ofShape hlies hshape)))

/-- the source text of a span -/
theorem lexeme {span span' : Span} : InStep τ k (Parser.lexeme span) (Parser.lexeme span') fun j l l' =>
    j = k ∧ l = ⟨span, slice τ.text span⟩ ∧ l' = ⟨span', slice τ.text' span'⟩ := by
  intro r r' hat
  refine .ok ⟨k, hat, rfl, ?_, ?_⟩
  · rw [← hat.left.source]
  · rw [← hat.right.source]

/-- a look at the state of reading -/
theorem get_bind {f f' : Reading → Parser β} {R : Nat → β → β → Prop}
    (h : ∀ r r', τ.At k r r' → InStep τ k (f r) (f' r') R) : InStep τ k (get >>= f) (get >>= f') R := fun r r' hat =>
  h r r' hat r r' hat

/-- a look past blank lines -/
theorem holdBlank_bind {f f' : Reading → Parser β} {R : Nat → β → β → Prop}
    (h : ∀ r r', r.front = τ.left k → r'.front = τ.right k → InStep τ k (f r) (f' r') R) :
    InStep τ k (Parser.holdBlank >>= fun _ => get >>= f) (Parser.holdBlank >>= fun _ => get >>= f') R := by
  intro r r' hat
  obtain ⟨hleft, hfront⟩ := hat.left.hold τ.quiet rfl
  obtain ⟨hright, hfront'⟩ := hat.right.hold τ.quiet' rfl
  exact h _ _ hfront hfront' _ _ ⟨hleft, hright⟩

theorem dropHeld_bind {f f' : Unit → Parser β} {R : Nat → β → β → Prop} (h : InStep τ k (f ()) (f' ()) R) :
    InStep τ k (Parser.dropHeld >>= f) (Parser.dropHeld >>= f') R := by
  have hdrop {text : List Char} {r : Reading} (hr : r.At text k) : Reading.At text k { r with held := none } :=
    ⟨hr.source, hr.eof, hr.pending, by simp, hr.ahead, hr.row, hr.le⟩
  exact fun r r' hat => h _ _ ⟨hdrop hat.left, hdrop hat.right⟩

/-- no comments are parked -/
theorem takePending_bind {f f' : List Comment → Parser β} {R : Nat → β → β → Prop} (h : InStep τ k (f []) (f' []) R) :
    InStep τ k (Parser.takePending >>= f) (Parser.takePending >>= f') R := by
  intro r r' hat
  have htake : Agree (fun cs s cs' s' => cs = [] ∧ cs' = [] ∧ τ.At k s s') (Parser.takePending.run r)
      (Parser.takePending.run r') := by
    refine .ok ⟨hat.left.pending, hat.right.pending, ?_, ?_⟩
    · exact ⟨hat.left.source, hat.left.eof, rfl, hat.left.held, hat.left.queue, hat.left.row, hat.left.le⟩
    · exact ⟨hat.right.source, hat.right.eof, rfl, hat.right.held, hat.right.queue, hat.right.row, hat.right.le⟩
  refine htake.bind ?_
  rintro _ s _ s' ⟨rfl, rfl, hat⟩
  exact h s s' hat

/-- no comment follows on the line -/
theorem trailingComment_bind {n n' : Node} {f f' : Node → Parser β} {R : Nat → β → β → Prop}
    (h : InStep τ k (f n) (f' n') R) :
    InStep τ k (Parser.trailingComment n >>= f) (Parser.trailingComment n' >>= f') R := by
  have hrun {text : List Char} (hquiet : Quiet text) {r : Reading} (hr : r.At text k) (n : Node) :
      (Parser.trailingComment n).run r = .ok (n, r) := by
    change (if (r.raw.kind.isComment && !r.onOwnLine && !n.hasSuffix) = true then _ else Pure.pure n : Parser Node).run r = _
    rw [hr.raw_isComment hquiet]
    rfl
  intro r r' hat
  have htrailing : Agree (fun m s m' s' => m = n ∧ m' = n' ∧ τ.At k s s') ((Parser.trailingComment n).run r)
      ((Parser.trailingComment n').run r') := by
    rw [hrun τ.quiet hat.left, hrun τ.quiet' hat.right]
    exact .ok ⟨rfl, rfl, hat⟩
  refine htrailing.bind ?_
  rintro _ s _ s' ⟨rfl, rfl, hat⟩
  exact h s s' hat

end InStep

namespace Steady

variable {τ : Twins} {k : Nat} {α β : Type} {Q : Nat → α → α → Prop} {R : Nat → β → β → Prop}

theorem ofInStep {p p' : Parser α} (h : InStep τ k p p' Q) : Steady τ k p p' Q := fun r r' hready =>
  h r r' hready.toAt

theorem bind {p p' : Parser α} {f f' : α → Parser β} (h : Steady τ k p p' Q)
    (hf : ∀ j x x', Q j x x' → InStep τ j (f x) (f' x') R) : Steady τ k (p >>= f) (p' >>= f') R := fun r r' hready =>
  (h r r' hready).bind fun x s x' s' ⟨j, hj, hQ⟩ => hf j x x' hQ s s' hj

/-- what comes next is the token at the place -/
theorem raw_bind {f f' : Token → Parser β} (h : Steady τ k (f (τ.left k)) (f' (τ.right k)) R) :
    Steady τ k (Parser.raw >>= f) (Parser.raw >>= f') R := by
  intro r r' hready
  have hraw : Agree (fun t s t' s' => t = τ.left k ∧ t' = τ.right k ∧ τ.Ready k s s') (Parser.raw.run r)
      (Parser.raw.run r') := .ok ⟨hready.raw, hready.raw', hready⟩
  refine hraw.bind ?_
  rintro _ s _ s' ⟨rfl, rfl, hready⟩
  exact h s s' hready

theorem takeRaw_line_bind {f f' : Token → Parser β} (hopens : (τ.left k).kind.opensLine = true)
    (h : Steady τ (k + 1) (f (τ.left k)) (f' (τ.right k)) R) :
    Steady τ k (Parser.takeRaw >>= f) (Parser.takeRaw >>= f') R := by
  intro r r' hready
  have htake : Agree (fun t s t' s' => t = τ.left k ∧ t' = τ.right k ∧ τ.Ready (k + 1) s s') (Parser.takeRaw.run r)
      (Parser.takeRaw.run r') := .ok ⟨hready.raw, hready.raw', (hready.dropRaw_line hopens).1⟩
  refine htake.bind ?_
  rintro _ s _ s' ⟨rfl, rfl, hready⟩
  exact h s s' hready

end Steady

/-- after taking a token that a preprocessor line goes on after -/
theorem InStep.take_line_bind {τ : Twins} {k : Nat} {β : Type} {R : Nat → β → β → Prop} {f f' : Token → Parser β}
    (hopens : (τ.left k).kind.opensLine = true) (h : Steady τ (k + 1) (f (τ.left k)) (f' (τ.right k)) R) :
    InStep τ k (Parser.take >>= f) (Parser.take >>= f') R := by
  intro r r' hat
  refine (agree_take hat).bind ?_
  rintro _ _ _ _ ⟨rfl, rfl, -, u, u', hready, rfl, rfl⟩
  exact h _ _ (hready.dropRaw_line hopens).1

end LpcStyle
