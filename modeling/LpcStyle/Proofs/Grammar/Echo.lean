import Mathlib.Tactic
import LpcStyle.Proofs.Grammar.Places
import LpcStyle.Proofs.Grammar.Runs
import LpcStyle.Proofs.Grammar.Term
import LpcStyle.Proofs.Token.Faults

/-!
An expression whose tokens stand in another text once more is read there once more. An `Echo` is a row of tokens of one
text, up to what ends a statement, that another text says again; the texts may differ in all that is around it.
`Follows τ k p p' Q`: if `p` gives a result in the one text from the place `k` on, then `p'` gives one in the other that
`Q` relates to it, unless it breaks off for want of rounds or calls. Nothing is said where `p` is refused, so the rules
that are never reached with such tokens need no word.
-/

namespace LpcStyle

open Text LpcStyle.Parser

/-! ## Two texts -/

/-- the token may stand in an expression of the operator language -/
def Kind.isTerm : Kind → Bool
  | .name | .number | .parenStart | .parenEnd | .question | .colon | .binaryOp | .logicalOp | .arithOp | .star | .unaryOp
  | .assignOp => true
  | _ => false

/-- the token ends a statement -/
def Kind.isStop : Kind → Bool
  | .semicolon | .endOfFile => true
  | _ => false

theorem Kind.isStop_iff {k : Kind} : k.isStop = true ↔ k = .semicolon ∨ k = .endOfFile := by
  constructor
  · intro h
    cases k <;> simp [isStop] at h ⊢
  · rintro (rfl | rfl) <;> rfl

/-- a row of tokens in one text and in another, from a place of its own in each -/
structure Echo where
  text : List Char
  text' : List Char
  quiet : Quiet text
  quiet' : Quiet text'
  start : Nat
  start' : Nat
  size : Nat
  terms : ∀ k < size, (place text (start + k)).kind.isTerm = true
  stop : (place text (start + size)).kind.isStop = true
  said : ∀ k < size, (place text' (start' + k)).spelling = (place text (start + k)).spelling
  stop' : (place text' (start' + size)).kind.isStop = true

namespace Echo

variable (τ : Echo) (k : Nat)

def left : Token := place τ.text (τ.start + k)

def right : Token := place τ.text' (τ.start' + k)

variable {τ k} {c : Kind}

theorem kind_right (hk : k < τ.size) : (τ.right k).kind = (τ.left k).kind := (Prod.mk.inj (τ.said k hk)).1

theorem text_right (hk : k < τ.size) : (τ.right k).text = (τ.left k).text := (Prod.mk.inj (τ.said k hk)).2

/-- inside the row stand tokens of expressions, and behind it what ends a statement -/
theorem cases_left (hk : k ≤ τ.size) : k < τ.size ∧ (τ.left k).kind.isTerm = true ∨
    (τ.left k).kind.isStop = true ∧ (τ.right k).kind.isStop = true := by
  rcases Nat.lt_or_eq_of_le hk with hlt | rfl
  · exact .inl ⟨hlt, τ.terms k hlt⟩
  · exact .inr ⟨τ.stop, τ.stop'⟩

theorem lt_size (hk : k ≤ τ.size) (hkind : (τ.left k).kind = c) (hc : c.isStop = false) : k < τ.size := by
  rcases cases_left hk with ⟨hlt, -⟩ | ⟨hstop, -⟩
  · exact hlt
  · rw [hkind, hc] at hstop
    cases hstop

/-- a token of any kind that ends no statement stands in both or in neither -/
theorem kind_right_iff (hk : k ≤ τ.size) (hc : c.isStop = false) : (τ.right k).kind = c ↔ (τ.left k).kind = c := by
  rcases cases_left hk with ⟨hlt, -⟩ | ⟨hstop, hstop'⟩
  · rw [kind_right hlt]
  · constructor <;> rintro rfl
    · rw [hc] at hstop'
      cases hstop'
    · rw [hc] at hstop
      cases hstop

/-- what only asks for the kind and text of a token, and says nothing where a statement ends -/
theorem ask_right {α : Type} {f : Token → α} (none : α) (hf : ∀ t u : Token, t.kind = u.kind → t.text = u.text → f t = f u)
    (hnone : ∀ t : Token, t.kind.isStop = true → f t = none) (hk : k ≤ τ.size) : f (τ.right k) = f (τ.left k) := by
  rcases cases_left hk with ⟨hlt, -⟩ | ⟨hstop, hstop'⟩
  · exact hf _ _ (kind_right hlt) (text_right hlt)
  · rw [hnone _ hstop, hnone _ hstop']

theorem rank_right (hk : k ≤ τ.size) : Grammar.rank? (τ.right k) = Grammar.rank? (τ.left k) := by
  refine ask_right none (fun t u hkind htext => ?_) (fun t hstop => ?_) hk
  · simp only [Grammar.rank?, hkind, htext]
  · cases hrank : Grammar.rank? t with
    | none => rfl
    | some rank =>
      rcases Kind.isStop_iff.1 hstop with h | h <;> rcases Grammar.kind_of_rank hrank with h' | h' | h' | h' <;> simp [h] at h'

theorem isStep_right (hk : k ≤ τ.size) : Grammar.isStep (τ.right k) = Grammar.isStep (τ.left k) := by
  refine ask_right false (fun t u hkind htext => ?_) (fun t hstop => ?_) hk
  · simp only [Grammar.isStep, hkind, htext]
  · rcases Kind.isStop_iff.1 hstop with h | h <;> simp [Grammar.isStep, h]

theorem isPrefixOperator_right (hk : k ≤ τ.size) :
    Grammar.isPrefixOperator (τ.right k) = Grammar.isPrefixOperator (τ.left k) := by
  refine ask_right false (fun t u hkind htext => ?_) (fun t hstop => ?_) hk
  · simp only [Grammar.isPrefixOperator, Grammar.isStep, hkind, htext]
  · rcases Kind.isStop_iff.1 hstop with h | h <;> simp [Grammar.isPrefixOperator, h]

/-- both are read up to a place of the row -/
structure At (τ : Echo) (k : Nat) (r r' : Reading) : Prop where
  le : k ≤ τ.size
  left : r.At τ.text (τ.start + k)
  right : r'.At τ.text' (τ.start' + k)

/-- and nothing stands before the tokens there -/
structure Ready (τ : Echo) (k : Nat) (r r' : Reading) : Prop extends τ.At k r r' where
  held : r.held = none
  raw : r.raw = τ.left k
  held' : r'.held = none
  raw' : r'.raw = τ.right k

theorem At.settle {r r' : Reading} (h : τ.At k r r') : τ.Ready k r.settle r'.settle where
  le := h.le
  left := h.left.settle τ.quiet
  right := h.right.settle τ.quiet'
  held := rfl
  raw := h.left.raw_settle
  held' := rfl
  raw' := h.right.raw_settle

theorem ne_endOfFile_of_isTerm {t : Token} (h : t.kind.isTerm = true) : t.kind ≠ .endOfFile := by
  intro hkind
  rw [hkind] at h
  cases h

theorem Ready.dropRaw {r r' : Reading} (h : τ.Ready k r r') (hk : k < τ.size) : τ.At (k + 1) r.dropRaw r'.dropRaw where
  le := hk
  left := h.left.dropRaw (lt_length_of_place (ne_endOfFile_of_isTerm (τ.terms k hk))) h.held h.raw
  right := by
    have hterm : (place τ.text' (τ.start' + k)).kind.isTerm = true := by
      rw [(Prod.mk.inj (τ.said k hk)).1]
      exact τ.terms k hk
    exact h.right.dropRaw (lt_length_of_place (ne_endOfFile_of_isTerm hterm)) h.held' h.raw'

/-- no token of the row is faulty -/
theorem fault_right (hk : k < τ.size) : (τ.right k).fault = none := by
  have hterm : (τ.right k).kind.isTerm = true := by
    rw [kind_right hk]
    exact τ.terms k hk
  by_contra hfault
  have hmem := place_mem (lt_length_of_place (ne_endOfFile_of_isTerm hterm))
  have hunknown := Stream.fault_ofText τ.text' _ hmem hfault
  rw [right, hunknown] at hterm
  cases hterm

end Echo

/-! ## Results -/

/-- the run breaks off: it asks for more rounds or calls than there are, or for a node that ends before it starts -/
def BreaksOff {α : Type} (e : Except Failure α) : Prop :=
  e = .error .exhausted ∨ ∃ start stop, e = .error (.inverted start stop)

theorem BreaksOff.bind {α β : Type} {p : Parser α} {f : α → Parser β} {r : Reading} (h : BreaksOff (p.run r)) :
    BreaksOff ((p >>= f).run r) := by
  rw [StateT.run_bind]
  rcases h with h | ⟨start, stop, h⟩
  · exact .inl (by rw [h]; rfl)
  · exact .inr ⟨start, stop, by rw [h]; rfl⟩

/-- a result of the one is one of the other that is related to it, unless the other breaks off -/
inductive Echoes {α : Type} (Q : α → Reading → α → Reading → Prop) :
    Except Failure (α × Reading) → Except Failure (α × Reading) → Prop
  | ok {x x' : α} {s s' : Reading} (h : Q x s x' s') : Echoes Q (.ok (x, s)) (.ok (x', s'))
  | failed {e : Failure} {e' : Except Failure (α × Reading)} : Echoes Q (.error e) e'
  | broken {e e' : Except Failure (α × Reading)} (h : BreaksOff e') : Echoes Q e e'

namespace Echoes

variable {α β : Type} {p p' : Parser α} {f f' : α → Parser β} {Q Q' : α → Reading → α → Reading → Prop}
  {R : β → Reading → β → Reading → Prop} {r r' : Reading}

theorem mono {e e' : Except Failure (α × Reading)} (h : Echoes Q e e') (hQ : ∀ x s x' s', Q x s x' s' → Q' x s x' s') :
    Echoes Q' e e' := by
  cases h with
  | ok h => exact .ok (hQ _ _ _ _ h)
  | failed => exact .failed
  | broken h => exact .broken h

theorem bind (h : Echoes Q (p.run r) (p'.run r'))
    (hf : ∀ x s x' s', Q x s x' s' → Echoes R ((f x).run s) ((f' x').run s')) :
    Echoes R ((p >>= f).run r) ((p' >>= f').run r') := by
  generalize hrun : p.run r = e at h
  generalize hrun' : p'.run r' = e' at h
  cases h with
  | ok h =>
    rw [run_bind_of_run hrun, run_bind_of_run hrun']
    exact hf _ _ _ _ h
  | failed =>
    rw [StateT.run_bind, hrun]
    exact .failed
  | broken h => exact .broken (.bind (hrun' ▸ h))

end Echoes

/-- what a round of two loops leads to: both go on, or both are done -/
def RoundEchoes {σ α : Type} (I : σ → Reading → σ → Reading → Prop) (Q : α → Reading → α → Reading → Prop) :
    σ ⊕ α → Reading → σ ⊕ α → Reading → Prop
  | .inl u, s, .inl u', s' => I u s u' s'
  | .inr y, s, .inr y', s' => Q y s y' s'
  | _, _, _, _ => False

/-- **Two loops**: a round of both of them, or of one alone, keeps the invariant. -/
theorem echoes_loop {σ α : Type} {I : σ → Reading → σ → Reading → Prop} {Q : α → Reading → α → Reading → Prop}
    {step step' : σ → Parser (σ ⊕ α)} {init init' : σ} {r r' : Reading}
    (hstep : ∀ u r u' r', I u r u' r' → Echoes (RoundEchoes I Q) ((step u).run r) ((step' u').run r') ∨
      (∃ w s, (step u).run r = .ok (.inl w, s) ∧ I w s u' r') ∨
      ∃ w s, (step' u').run r' = .ok (.inl w, s) ∧ I u r w s)
    (hinit : I init r init' r') : Echoes Q ((loop init step).run r) ((loop init' step').run r') := by
  -- by the rounds that both may still take
  have hiterate (n fuel fuel' : Nat) (u : σ) (r : Reading) (u' : σ) (r' : Reading) (hn : fuel + fuel' ≤ n)
      (hI : I u r u' r') : Echoes Q ((iterate step fuel u).run r) ((iterate step' fuel' u').run r') := by
    induction n generalizing fuel fuel' u r u' r' with
    | zero =>
      obtain rfl : fuel = 0 := by omega
      exact .failed
    | succ n ih =>
      cases fuel with
      | zero => exact .failed
      | succ fuel =>
        cases fuel' with
        | zero => exact .broken (.inl rfl)
        | succ fuel' =>
          rcases hstep u r u' r' hI with hboth | ⟨w, s, hrun, hI⟩ | ⟨w, s, hrun, hI⟩
          · refine hboth.bind fun x s x' s' hnext => ?_
            cases x with
            | inl w =>
              cases x' with
              | inl w' => exact ih fuel fuel' w s w' s' (by omega) hnext
              | inr y' => exact hnext.elim
            | inr y =>
              cases x' with
              | inl w' => exact hnext.elim
              | inr y' => exact .ok hnext
          · rw [run_iterate_again hrun]
            exact ih fuel (fuel' + 1) w s u' r' (by omega) hI
          · rw [run_iterate_again hrun]
            exact ih (fuel + 1) fuel' u r w s (by omega) hI
  exact hiterate _ _ _ init r init' r' le_rfl hinit

/-- where no comments are parked an item is added alone -/
theorem run_addItem {items : List Node} {item : Node} {r : Reading} (h : r.pending = []) :
    (Grammar.addItem items item).run r = .ok (item :: items, r) := by
  have hsame : { r with pending := [] } = r := by rw [← h]
  change Except.ok ((((item.adopt r.pending).2.map Node.ofComment).reverse ++ (item.adopt r.pending).1 :: items),
    { r with pending := [] }) = _
  rw [hsame, h]
  rfl

/-! ## Steps -/

/-- from a place on, what the one parser reads is read by the other -/
def Follows {α : Type} (τ : Echo) (k : Nat) (p p' : Parser α) (Q : Nat → α → α → Prop) : Prop :=
  ∀ r r', τ.At k r r' → Echoes (fun x s x' s' => ∃ j, τ.At j s s' ∧ Q j x x') (p.run r) (p'.run r')

/-- what a round leads to, in places -/
inductive Turn {σ α : Type} (I : Nat → σ → σ → Prop) (Q : Nat → α → α → Prop) : Nat → σ ⊕ α → σ ⊕ α → Prop
  | again {j : Nat} {u u' : σ} (h : I j u u') : Turn I Q j (.inl u) (.inl u')
  | done {j : Nat} {x x' : α} (h : Q j x x') : Turn I Q j (.inr x) (.inr x')

theorem Turn.round {σ α : Type} {τ : Echo} {I : Nat → σ → σ → Prop} {Q : Nat → α → α → Prop}
    {x x' : σ ⊕ α} {s s' : Reading} {j : Nat} (hj : τ.At j s s') (h : Turn I Q j x x') :
    RoundEchoes (fun u s u' s' => ∃ j, τ.At j s s' ∧ I j u u') (fun x s x' s' => ∃ j, τ.At j s s' ∧ Q j x x')
      x s x' s' := by
  cases h with
  | again h => exact ⟨j, hj, h⟩
  | done h => exact ⟨j, hj, h⟩

namespace Follows

variable {τ : Echo} {i k : Nat} {α β σ : Type} {p p' q q' : Parser α} {f f' : α → Parser β} {P Q : Nat → α → α → Prop}
  {R : Nat → β → β → Prop}

theorem mono (h : Follows τ k p p' P) (hPQ : ∀ j x x', P j x x' → Q j x x') : Follows τ k p p' Q := by
  intro r r' hat
  exact (h r r' hat).mono fun _ _ _ _ ⟨j, hj, hP⟩ => ⟨j, hj, hPQ j _ _ hP⟩

theorem pure {x x' : α} (h : Q k x x') : Follows τ k (pure x) (pure x') Q := by
  intro r r' hat
  exact .ok ⟨k, hat, h⟩

theorem bind (h : Follows τ k p p' P) (hf : ∀ j x x', P j x x' → Follows τ j (f x) (f' x') R) :
    Follows τ k (p >>= f) (p' >>= f') R := by
  intro r r' hat
  exact (h r r' hat).bind fun x s x' s' ⟨j, hj, hP⟩ => hf j x x' hP s s' hj

theorem ite {c c' : Prop} [Decidable c] [Decidable c'] (hc : c' ↔ c) (hp : c → Follows τ k p p' Q)
    (hq : ¬c → Follows τ k q q' Q) : Follows τ k (if c then p else q) (if c' then p' else q') Q := by
  by_cases h : c
  · rw [if_pos h, if_pos (hc.2 h)]
    exact hp h
  · rw [if_neg h, if_neg (mt hc.1 h)]
    exact hq h

/-- the place is one of the row, or right behind it -/
theorem known (h : k ≤ τ.size → Follows τ k p p' Q) : Follows τ k p p' Q := fun r r' hat => h hat.le r r' hat

theorem loop {I : Nat → σ → σ → Prop} {init init' : σ} {step step' : σ → Parser (σ ⊕ α)} (hinit : I k init init')
    (hstep : ∀ j u u', I j u u' → Follows τ j (step u) (step' u') (Turn I Q)) :
    Follows τ k (Parser.loop init step) (Parser.loop init' step') Q := by
  intro r r' hat
  refine echoes_loop (I := fun u r u' r' => ∃ j, τ.At j r r' ∧ I j u u') ?_ ⟨k, hat, hinit⟩
  rintro u r u' r' ⟨j, hat, hI⟩
  exact .inl ((hstep j u u' hI r r' hat).mono fun _ _ _ _ ⟨m, hm, hnext⟩ => hnext.round hm)

/-- **Loops over raw tokens**: a blank line that is ahead in one text only is skipped there. -/
theorem rawLoop {I : Nat → σ → σ → Prop} {init init' : σ} {step step' : σ → Parser (σ ⊕ α)} (hinit : I k init init')
    (hblank : ∀ u r, r.raw.kind = .blankLines →
      (step u).run r = .ok (.inl u, r.dropRaw) ∧ (step' u).run r = .ok (.inl u, r.dropRaw))
    (hstep : ∀ j u u' r r', I j u u' → τ.Ready j r r' →
      Echoes (fun x s x' s' => ∃ m, τ.At m s s' ∧ Turn I Q m x x') ((step u).run r) ((step' u').run r')) :
    Follows τ k (Parser.loop init step) (Parser.loop init' step') Q := by
  intro r r' hat
  refine echoes_loop (I := fun u r u' r' => ∃ j, τ.At j r r' ∧ I j u u') ?_ ⟨k, hat, hinit⟩
  rintro u r u' r' ⟨j, hat, hI⟩
  rcases hat.left.raw τ.quiet with hraw | ⟨hheld, hraw⟩
  · exact .inr (.inl ⟨_, _, (hblank u r hraw).1, j, ⟨hat.le, (hat.left.dropRaw_blank hraw).1, hat.right⟩, hI⟩)
  rcases hat.right.raw τ.quiet' with hraw' | ⟨hheld', hraw'⟩
  · exact .inr (.inr ⟨_, _, (hblank u' r' hraw').2, j, ⟨hat.le, hat.left, (hat.right.dropRaw_blank hraw').1⟩, hI⟩)
  exact .inl ((hstep j u u' r r' hI ⟨hat, hheld, hraw, hheld', hraw'⟩).mono fun _ _ _ _ ⟨m, hm, hnext⟩ => hnext.round hm)

/-! ## Looking at a token and taking it -/

theorem peek_bind {f f' : Token → Parser β} (h : Follows τ k (f (τ.left k)) (f' (τ.right k)) R) :
    Follows τ k (Parser.peek >>= f) (Parser.peek >>= f') R := by
  intro r r' hat
  have hpeek : Echoes (fun t s t' s' => t = τ.left k ∧ t' = τ.right k ∧ τ.At k s s') (Parser.peek.run r)
      (Parser.peek.run r') :=
    .ok ⟨hat.left.raw_settle, hat.right.raw_settle, hat.settle.toAt⟩
  refine hpeek.bind ?_
  rintro _ s _ s' ⟨rfl, rfl, hat⟩
  exact h s s' hat

theorem peekKind_bind {f f' : Kind → Parser β} (h : Follows τ k (f (τ.left k).kind) (f' (τ.right k).kind) R) :
    Follows τ k (Parser.peekKind >>= f) (Parser.peekKind >>= f') R := by
  refine bind (P := fun j x x' => j = k ∧ x = (τ.left k).kind ∧ x' = (τ.right k).kind) (peek_bind (pure ⟨rfl, rfl, rfl⟩)) ?_
  rintro j x x' ⟨rfl, rfl, rfl⟩
  exact h

theorem at_bind {c : Kind} {f f' : Bool → Parser β} (hc : c.isStop = false)
    (h : Follows τ k (f (decide ((τ.left k).kind = c))) (f' (decide ((τ.left k).kind = c))) R) :
    Follows τ k (Parser.at? c >>= f) (Parser.at? c >>= f') R := by
  refine known fun hk => bind
    (P := fun j x x' => j = k ∧ x = decide ((τ.left k).kind = c) ∧ x' = decide ((τ.left k).kind = c))
    (peek_bind (pure ⟨rfl, rfl, by simp only [τ.kind_right_iff hk hc]⟩)) ?_
  rintro j x x' ⟨rfl, rfl, rfl⟩
  exact h

/-- after taking the token that comes next -/
theorem take_bind {f f' : Token → Parser β} (hk : k < τ.size) (h : Follows τ (k + 1) (f (τ.left k)) (f' (τ.right k)) R) :
    Follows τ k (Parser.take >>= f) (Parser.take >>= f') R := by
  intro r r' hat
  have htake : Echoes (fun t s t' s' => t = τ.left k ∧ t' = τ.right k ∧ τ.At (k + 1) s s') (Parser.take.run r)
      (Parser.take.run r') := by
    have hpeek : Echoes (fun t s t' s' => t = τ.left k ∧ t' = τ.right k ∧ τ.Ready k s s') (Parser.peek.run r)
        (Parser.peek.run r') := .ok ⟨hat.left.raw_settle, hat.right.raw_settle, hat.settle⟩
    refine hpeek.bind ?_
    rintro _ s _ s' ⟨rfl, rfl, hready⟩
    rw [τ.fault_right hk]
    cases (τ.left k).fault with
    | some fault => exact .failed
    | none => exact .ok ⟨hready.raw, hready.raw', hready.dropRaw hk⟩
  refine htake.bind ?_
  rintro _ s _ s' ⟨rfl, rfl, hat⟩
  exact h s s' hat

/-- what is wanted is not there, so the first parser gives no result -/
theorem wanted {what : Wanted} : Follows τ k (Parser.wanted what : Parser α) p' Q := by
  intro r r' hat
  cases hrun : (Parser.wanted what : Parser α).run r with
  | ok result => exact absurd hrun Parser.wanted_ne_ok
  | error e => exact .failed

theorem expect_bind {c : Kind} {what : Wanted} {f f' : Token → Parser β} (hc : c.isStop = false)
    (h : (τ.left k).kind = c → k < τ.size → Follows τ (k + 1) (f (τ.left k)) (f' (τ.right k)) R) :
    Follows τ k (Parser.expect c what >>= f) (Parser.expect c what >>= f') R := by
  have hexpect : Follows τ k (Parser.expect c what) (Parser.expect c what) fun j t t' =>
      j = k + 1 ∧ t = τ.left k ∧ t' = τ.right k ∧ (τ.left k).kind = c ∧ k < τ.size := by
    refine known fun hk => at_bind hc (ite Iff.rfl (fun hkind => ?_) fun _ => wanted)
    have hkind : (τ.left k).kind = c := by simpa using hkind
    have hlt := τ.lt_size hk hkind hc
    rw [← bind_pure Parser.take]
    exact take_bind hlt (pure ⟨rfl, rfl, rfl, hkind, hlt⟩)
  refine bind hexpect ?_
  rintro j t t' ⟨rfl, rfl, rfl, hkind, hlt⟩
  exact h hkind hlt

theorem eat_bind {c : Kind} {f f' : Option Token → Parser β} (hc : c.isStop = false)
    (hsome : (τ.left k).kind = c → k < τ.size → Follows τ (k + 1) (f (some (τ.left k))) (f' (some (τ.right k))) R)
    (hnone : (τ.left k).kind ≠ c → Follows τ k (f none) (f' none) R) :
    Follows τ k (Parser.eat? c >>= f) (Parser.eat? c >>= f') R := by
  have heat : Follows τ k (Parser.eat? c) (Parser.eat? c) fun j t t' =>
      (j = k + 1 ∧ t = some (τ.left k) ∧ t' = some (τ.right k) ∧ (τ.left k).kind = c ∧ k < τ.size) ∨
        j = k ∧ t = none ∧ t' = none ∧ (τ.left k).kind ≠ c := by
    refine known fun hk => at_bind hc
      (ite Iff.rfl (fun hkind => ?_) fun hkind => pure (.inr ⟨rfl, rfl, rfl, by simpa using hkind⟩))
    have hkind : (τ.left k).kind = c := by simpa using hkind
    have hlt := τ.lt_size hk hkind hc
    exact take_bind hlt (pure (.inl ⟨rfl, rfl, rfl, hkind, hlt⟩))
  refine bind heat ?_
  rintro j t t' (⟨rfl, rfl, rfl, hkind, hlt⟩ | ⟨rfl, rfl, rfl, hkind⟩)
  · exact hsome hkind hlt
  · exact hnone hkind

/-- a node that would end before it starts is none of the first text, and breaks off the other -/
theorem build {start stop start' stop' : Nat} {shape shape' : Shape Node} {Q : Nat → Node → Node → Prop}
    (hQ : Q k (.mk ⟨start, stop⟩ shape none) (.mk ⟨start', stop'⟩ shape' none)) :
    Follows τ k (Parser.build start stop shape) (Parser.build start' stop' shape') Q := by
  intro r r' hat
  unfold Parser.build spanning
  by_cases h : start ≤ stop
  · by_cases h' : start' ≤ stop'
    · rw [if_pos h, if_pos h']
      exact .ok ⟨k, hat, hQ⟩
    · rw [if_neg h']
      exact .broken (.inr ⟨start', stop', rfl⟩)
  · rw [if_neg h]
    exact .failed

theorem addItem_bind {items items' : List Node} {item item' : Node} {f f' : List Node → Parser β}
    (h : Follows τ k (f (item :: items)) (f' (item' :: items')) R) :
    Follows τ k (Grammar.addItem items item >>= f) (Grammar.addItem items' item' >>= f') R := by
  intro r r' hat
  rw [run_bind_of_run (run_addItem hat.left.pending), run_bind_of_run (run_addItem hat.right.pending)]
  exact h r r' hat

end Follows

end LpcStyle
