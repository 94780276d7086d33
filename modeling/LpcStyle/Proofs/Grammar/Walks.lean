import Mathlib.Tactic
import LpcStyle.Proofs.Grammar.Carries
import LpcStyle.Proofs.Token.Enclosures
import LpcStyle.Proofs.Token.Faults
import LpcStyle.Proofs.Tree.Nested

/-!
A walk through the tokens of one text. A state of reading stands behind tokens without faults, which leave some brackets
open, and all that is ahead starts at or behind an edge. `Walks text K opened lo p later Q` says that from such a state,
of which `K` holds, `p` either gives a result that `Q` relates to a later edge, with the brackets `later` open, or refuses
the text at a token that stands behind no fault, whose own fault it names. Every token that is taken moves the edge to its end, so what is read one
after the other lies one behind the other.
-/

namespace LpcStyle

open Text LpcStyle.Parser

/-- a token, or what closes the tokens, that stands behind no fault -/
def Token.Placed (text : List Char) (t : Token) : Prop :=
  ∃ before after, (Stream.ofText text).closed = before ++ t :: after ∧ ∀ u ∈ before, u.fault = none

/-- the span is that of a token without a fault, that stands behind none -/
def Reached (text : List Char) (span : Span) : Prop := ∃ t : Token, t.Placed text ∧ t.fault = none ∧ t.span = span

/-- the error has the span of a token that stands behind no fault, and names the fault of that token if there is one -/
def Blames (text : List Char) (e : ParseError) : Prop :=
  ∃ t : Token, t.Placed text ∧ t.span = e.span ∧ ∀ fault, t.fault = some fault ↔ e.cause = .lexical fault

/-- a token that is taken from an edge on -/
structure Token.Met (text : List Char) (lo : Nat) (t : Token) : Prop where
  placed : t.Placed text
  start : lo ≤ t.span.start
  ordered : t.span.start ≤ t.span.stop
  firm : t.kind.isFirm = true → t.span.start < t.span.stop

/-- a token that is taken from an edge on and moves it -/
structure Token.Solid (text : List Char) (lo : Nat) (t : Token) : Prop where
  reached : Reached text t.span
  start : lo ≤ t.span.start
  pos : t.span.start < t.span.stop

theorem Token.Met.le {text : List Char} {lo : Nat} {t : Token} (h : t.Met text lo) : lo ≤ t.span.stop :=
  h.start.trans h.ordered

theorem Token.Placed.blames {text : List Char} {t : Token} {fault : Fault} (h : t.Placed text) (hfault : t.fault = some fault) :
    Blames text ⟨.lexical fault, t.span⟩ := ⟨t, h, rfl, fun other => by simp [hfault]⟩

theorem Reached.blames {text : List Char} {span : Span} {cause : Cause} (h : Reached text span)
    (hcause : ∀ fault, cause ≠ .lexical fault) : Blames text ⟨cause, span⟩ := by
  obtain ⟨t, hplaced, hfault, rfl⟩ := h
  exact ⟨t, hplaced, rfl, fun fault => by simp [hfault, hcause fault]⟩

/-- a token of a firm kind has no fault -/
theorem Token.Placed.reached {text : List Char} {t : Token} (h : t.Placed text) (hfirm : t.kind.isFirm = true) :
    Reached text t.span := by
  refine ⟨t, h, ?_, rfl⟩
  obtain ⟨before, after, hclosed, -⟩ := h
  have ht : t ∈ (Stream.ofText text).closed := by simp [hclosed]
  rcases List.mem_append.1 ht with hahead | heof
  · by_contra hfault
    rw [Stream.fault_ofText text t hahead hfault] at hfirm
    cases hfirm
  · rw [List.mem_singleton.1 heof, Stream.eof_ofText] at hfirm
    cases hfirm

theorem Token.Met.solid {text : List Char} {lo : Nat} {t : Token} (h : t.Met text lo) (hfirm : t.kind.isFirm = true) :
    t.Solid text lo := ⟨h.placed.reached hfirm, h.start, h.firm hfirm⟩

theorem Token.Solid.lt {text : List Char} {lo : Nat} {t : Token} (h : t.Solid text lo) : lo < t.span.stop :=
  h.start.trans_lt h.pos

/-- comments and blank lines have no fault, and are no brackets -/
theorem Stream.trivia_ofText {text : List Char} {t : Token} (ht : t ∈ (Stream.ofText text).ahead)
    (htrivia : t.kind.isTrivia = true) : t.fault = none ∧ t.kind.bracket? = none := by
  constructor
  · by_contra hfault
    rw [Stream.fault_ofText text t ht hfault] at htrivia
    cases htrivia
  · cases hkind : t.kind <;> rw [hkind] at htrivia <;> first | rfl | cases htrivia

/-! ## States -/

/-- reading stands behind tokens without faults, which leave these brackets open; what is ahead starts at or behind an
edge, and nothing is parked in a text without comments -/
structure Reading.Stands (text : List Char) (opened : List Enclosure) (lo : Nat) (r : Reading) : Prop where
  eof : r.eof = (Stream.ofText text).eof
  held : ∀ t ∈ r.held, t.kind = .blankLines ∧ t ∈ (Stream.ofText text).ahead
  behind : ∃ before, (Stream.ofText text).ahead = before ++ r.ahead ∧ (∀ u ∈ before, u.fault = none) ∧
    nesting [] before = some opened
  ascends : Ascends lo (r.held.toList ++ r.ahead ++ [r.eof])
  quiet : Quiet text → r.pending = []

namespace Reading.Stands

variable {text : List Char} {opened later : List Enclosure} {lo lower : Nat} {r : Reading} {t : Token}

theorem weaken (h : r.Stands text opened lo) (hle : lower ≤ lo) : r.Stands text opened lower :=
  ⟨h.eof, h.held, h.behind, h.ascends.weaken hle, h.quiet⟩

theorem mem_ahead (h : r.Stands text opened lo) (ht : t ∈ r.ahead) : t ∈ (Stream.ofText text).ahead := by
  obtain ⟨before, hahead, -⟩ := h.behind
  rw [hahead]
  exact List.mem_append_right before ht

theorem sane (h : r.Stands text opened lo) : r.Sane where
  held t ht := (h.held t ht).1
  eof := by rw [h.eof, Stream.eof_ofText]
  ahead t ht := Stream.ne_endOfFile_ofText text t (h.mem_ahead ht)

/-- the token in front is a token of the text, behind no fault -/
theorem front (h : r.Stands text opened lo) : r.front.Met text lo := by
  obtain ⟨before, hahead, hclean, -⟩ := h.behind
  have hascends : Ascends lo (r.ahead ++ [r.eof]) := by
    have := h.ascends
    rw [List.append_assoc] at this
    exact this.right
  have hlist : (Stream.ofText text).closed = before ++ (r.ahead ++ [r.eof]) := by
    rw [Stream.closed, hahead, h.eof, List.append_assoc]
  cases hrest : r.ahead with
  | nil =>
    rw [hrest] at hlist hascends
    have hfront : r.front = r.eof := by simp [Reading.front, hrest]
    rw [hfront]
    refine ⟨⟨before, [], hlist, hclean⟩, hascends.1, hascends.2.1, fun hfirm => ?_⟩
    rw [h.sane.eof] at hfirm
    cases hfirm
  | cons t ts =>
    rw [hrest] at hlist hascends
    have hfront : r.front = t := by simp [Reading.front, hrest]
    rw [hfront]
    refine ⟨⟨before, ts ++ [r.eof], hlist, hclean⟩, hascends.1, hascends.2.1, fun hfirm => ?_⟩
    exact Stream.firm_ofText text t (h.mem_ahead (by simp [hrest])) hfirm

/-- **Looking ahead** steps over comments and blank lines, and moves the edge to the next token. -/
theorem settle (h : r.Stands text opened lo) :
    r.settle.Stands text opened r.settle.raw.span.start ∧ r.settle.raw.Met text lo := by
  have hkinds : ∀ t ∈ r.ahead.takeWhile (·.kind.isTrivia), t.kind.isTrivia = true := fun t => List.mem_takeWhile_imp
  have htrivia : ∀ t ∈ r.ahead.takeWhile (·.kind.isTrivia), t.fault = none ∧ t.kind.bracket? = none := fun t ht =>
    Stream.trivia_ofText (h.mem_ahead ((List.takeWhile_sublist _).subset ht)) (hkinds t ht)
  have hstands : r.settle.Stands text opened lo := by
    refine ⟨h.eof, by simp [Reading.settle], ?_, ?_, fun hquiet => ?_⟩
    · obtain ⟨before, hahead, hclean, hopened⟩ := h.behind
      refine ⟨before ++ r.ahead.takeWhile (·.kind.isTrivia), ?_, ?_, ?_⟩
      · rw [Reading.settle, List.append_assoc, List.takeWhile_append_dropWhile, hahead]
      · exact List.forall_mem_append.2 ⟨hclean, fun t ht => (htrivia t ht).1⟩
      · rw [nesting_append, hopened]
        exact nesting_of_bracket_none (fun t ht => (htrivia t ht).2) opened
    · have hascends := h.ascends
      rw [← List.takeWhile_append_dropWhile (p := (·.kind.isTrivia)) (l := r.ahead), ← List.append_assoc,
        List.append_assoc] at hascends
      exact hascends.right
    · have hnone : (r.ahead.takeWhile (·.kind.isTrivia)).filter (·.kind.isComment) = [] := by
        refine List.filter_eq_nil_iff.2 fun t ht => ?_
        simp [hquiet t (h.mem_ahead ((List.takeWhile_sublist _).subset ht))]
      simp [Reading.settle, hnone, h.quiet hquiet]
  refine ⟨⟨hstands.eof, hstands.held, hstands.behind, ?_, hstands.quiet⟩, hstands.front⟩
  have hascends : Ascends lo (r.settle.ahead ++ [r.settle.eof]) := hstands.ascends
  change Ascends r.settle.front.span.start (r.settle.ahead ++ [r.settle.eof])
  cases hrest : r.settle.ahead with
  | nil =>
    rw [hrest] at hascends
    have hfront : r.settle.front = r.settle.eof := by simp [Reading.front, hrest]
    rw [hfront]
    exact ⟨le_rfl, hascends.2⟩
  | cons t ts =>
    rw [hrest] at hascends
    have hfront : r.settle.front = t := by simp [Reading.front, hrest]
    rw [hfront]
    exact ⟨le_rfl, hascends.2⟩

/-- **The token in front is taken**: the edge moves to its end. -/
theorem drop (h : r.Stands text opened lo) (hheld : r.held = none) (hturn : r.front.kind.turn opened = some later)
    (hfault : r.front.fault = none ∨ r.ahead = []) :
    Reading.Stands text later r.front.span.stop { r with ahead := r.ahead.tail } := by
  obtain ⟨before, hahead, hclean, hopened⟩ := h.behind
  have hascends : Ascends lo (r.ahead ++ [r.eof]) := by
    have := h.ascends
    rw [hheld] at this
    exact this
  refine ⟨h.eof, h.held, ?_, ?_, h.quiet⟩
  · cases hrest : r.ahead with
    | nil =>
      have hfront : r.front = r.eof := by simp [Reading.front, hrest]
      rw [hfront, h.sane.eof] at hturn
      cases hturn
      exact ⟨before, by rw [hahead, hrest]; rfl, hclean, hopened⟩
    | cons t ts =>
      have hfront : r.front = t := by simp [Reading.front, hrest]
      rw [hfront, hrest] at hfault
      rw [hfront] at hturn
      refine ⟨before ++ [t], by rw [hahead, hrest]; simp, ?_, ?_⟩
      · exact List.forall_mem_append.2 ⟨hclean, List.forall_mem_singleton.2 (by simpa using hfault)⟩
      · rw [nesting_append, hopened]
        simp [nesting, hturn]
  · rw [hheld]
    change Ascends r.front.span.stop (r.ahead.tail ++ [r.eof])
    cases hrest : r.ahead with
    | nil =>
      have hfront : r.front = r.eof := by simp [Reading.front, hrest]
      have hspan := Stream.eof_start_ofText text
      rw [hfront, h.eof]
      exact ⟨hspan.ge, hspan.le, trivial⟩
    | cons t ts =>
      have hfront : r.front = t := by simp [Reading.front, hrest]
      rw [hrest] at hascends
      rw [hfront]
      exact hascends.2.2

/-- what is held back may be dropped, and the edge moves to its end -/
theorem dropHeld (h : r.Stands text opened lo) (ht : r.held = some t) :
    Reading.Stands text opened t.span.stop { r with held := none } ∧ lo ≤ t.span.start := by
  have hascends := h.ascends
  rw [ht] at hascends
  exact ⟨⟨h.eof, by simp, h.behind, hascends.2.2, h.quiet⟩, hascends.1⟩

/-- a comment that comes next is a comment of the text -/
theorem not_quiet (h : r.Stands text opened lo) (hcomment : r.raw.kind.isComment = true) : ¬Quiet text := by
  intro hquiet
  cases hheld : r.held with
  | some b =>
    rw [Reading.raw, hheld, Option.getD_some, (h.held b (by simp [hheld])).1] at hcomment
    cases hcomment
  | none =>
    rw [Reading.raw, hheld, Option.getD_none, Reading.front] at hcomment
    cases hrest : r.ahead with
    | nil =>
      rw [hrest, List.headD_nil, h.sane.eof] at hcomment
      cases hcomment
    | cons t ts =>
      rw [hrest, List.headD_cons, hquiet t (h.mem_ahead (by simp [hrest]))] at hcomment
      cases hcomment

/-- a token with a fault that comes next stands behind no other -/
theorem placed_raw (h : r.Stands text opened lo) (hfault : r.raw.fault ≠ none) : r.raw.Placed text := by
  cases hheld : r.held with
  | some b =>
    obtain ⟨hblank, hmem⟩ := h.held b (by simp [hheld])
    rw [Reading.raw, hheld, Option.getD_some, (Stream.trivia_ofText hmem (by rw [hblank]; rfl)).1] at hfault
    exact absurd rfl hfault
  | none =>
    rw [Reading.raw, hheld, Option.getD_none]
    exact h.front.placed

/-- **A comment or blank line that comes next is taken as it stands.** -/
theorem dropRaw (h : r.Stands text opened lo) (htrivia : r.raw.kind.isTrivia = true) :
    r.dropRaw.Stands text opened r.raw.span.stop ∧ lo ≤ r.raw.span.start ∧ r.raw.span.start < r.raw.span.stop := by
  have hfirm (k : Kind) (hk : k.isTrivia = true) : k.isFirm = true := by
    cases k <;> first | rfl | cases hk
  cases hheld : r.held with
  | some b =>
    have hraw : r.raw = b := by rw [Reading.raw, hheld, Option.getD_some]
    have hdrop : r.dropRaw = { r with held := none } := by simp [Reading.dropRaw, hheld]
    obtain ⟨hblank, hmem⟩ := h.held b (by simp [hheld])
    obtain ⟨hstands, hstart⟩ := h.dropHeld hheld
    rw [hraw, hdrop]
    exact ⟨hstands, hstart, Stream.firm_ofText text b hmem (by rw [hblank]; rfl)⟩
  | none =>
    have hraw : r.raw = r.front := by rw [Reading.raw, hheld, Option.getD_none]
    have hdrop : r.dropRaw = { r with ahead := r.ahead.tail } := by simp [Reading.dropRaw, hheld]
    rw [hraw] at htrivia ⊢
    rw [hdrop]
    have hmet := h.front
    cases hrest : r.ahead with
    | nil =>
      rw [Reading.front, hrest, List.headD_nil, h.sane.eof] at htrivia
      cases htrivia
    | cons t ts =>
      have hfront : r.front = t := by simp [Reading.front, hrest]
      obtain ⟨hclean, hbracket⟩ := Stream.trivia_ofText (h.mem_ahead (t := t) (by simp [hrest])) (hfront ▸ htrivia)
      rw [← hrest]
      refine ⟨h.drop hheld ?_ (.inl (by rw [hfront, hclean])), hmet.start, hmet.firm (hfirm _ htrivia)⟩
      rw [hfront, Kind.turn_of_bracket_none hbracket]

end Reading.Stands

/-! ## Steps -/

/-- what a step may come to: a result that `Q` relates to a later edge, or a refusal that is well placed -/
def Outcome {α : Type} (text : List Char) (later : List Enclosure) (lo : Nat) (Q : α → Nat → Prop) :
    Except Failure (α × Reading) → Prop
  | .ok (x, s) => ∃ hi, lo ≤ hi ∧ s.Stands text later hi ∧ Q x hi
  | .error failure => ∀ e, failure = .refused e → Blames text e

theorem Outcome.imp {α : Type} {text : List Char} {later : List Enclosure} {lo lower : Nat} {Q Q' : α → Nat → Prop}
    {result : Except Failure (α × Reading)} (h : Outcome text later lo Q result) (hle : lower ≤ lo)
    (hQ : ∀ x hi, lo ≤ hi → Q x hi → Q' x hi) : Outcome text later lower Q' result := by
  cases result with
  | error failure => exact h
  | ok result =>
    obtain ⟨hi, hhi, hs, hx⟩ := h
    exact ⟨hi, hle.trans hhi, hs, hQ _ hi hhi hx⟩

/-- from a state at an edge, with some brackets open, to a later one -/
def Walks {α : Type} (text : List Char) (K : Reading → Prop) (opened : List Enclosure) (lo : Nat) (p : Parser α)
    (later : List Enclosure) (Q : α → Nat → Prop) : Prop :=
  ∀ r : Reading, r.Stands text opened lo → K r → Outcome text later lo Q (p.run r)

namespace Walks

variable {α β σ : Type} {text : List Char} {K L : Reading → Prop} {opened middle later : List Enclosure} {lo m : Nat}
  {p : Parser α} {f : α → Parser β} {Q Q' : α → Nat → Prop} {R : β → Nat → Prop} {t : Token}

/-! ### Putting steps together -/

theorem weaken (h : Walks text L opened lo p later Q) (hK : ∀ r, r.Stands text opened lo → K r → L r) :
    Walks text K opened lo p later Q := fun r hr hKr => h r hr (hK r hr hKr)

theorem anywhere (h : Walks text Anywhere opened lo p later Q) : Walks text K opened lo p later Q :=
  h.weaken fun _ _ _ => trivial

theorem nextRaw (h : Walks text (Comes t) opened lo p later Q) (ht : t.kind.isTrivia = false) :
    Walks text (ComesRaw t) opened lo p later Q := h.weaken fun _ hr hraw => hr.sane.next_of_raw hraw ht

theorem imp (h : Walks text K opened lo p later Q) (hQ : ∀ x hi, lo ≤ hi → Q x hi → Q' x hi) :
    Walks text K opened lo p later Q' := fun r hr hK => (h r hr hK).imp le_rfl hQ

theorem rests {p : Parser Node} (h : Walks text K opened lo p later (Node.Sits text m)) :
    Walks text K opened lo p later (Node.Rests text m) := h.imp fun _ _ _ hn => hn.toRests

theorem pure {x : α} (h : Q x lo) : Walks text K opened lo (pure x) opened Q := fun _ hr _ => ⟨lo, le_rfl, hr, h⟩

/-- **One step after the other.** -/
theorem bind (h : Walks text K opened lo p middle Q)
    (hf : ∀ x m, lo ≤ m → Q x m → Walks text Anywhere middle m (f x) later R) :
    Walks text K opened lo (p >>= f) later R := by
  intro r hr hK
  have hrun := h r hr hK
  rw [StateT.run_bind]
  cases hp : p.run r with
  | error e =>
    rw [hp] at hrun
    exact hrun
  | ok result =>
    obtain ⟨x, s⟩ := result
    rw [hp] at hrun
    obtain ⟨m, hm, hs, hx⟩ := hrun
    exact (hf x m hm hx s hs trivial).imp hm fun _ _ _ hy => hy

theorem map {g : α → β} (h : Walks text K opened lo p later fun x => R (g x)) :
    Walks text K opened lo (g <$> p) later R := by
  rw [map_eq_pure_bind]
  exact bind h fun x m _ hx => pure hx

/-- the wrong use of a step is no refusal -/
theorem exhausted : Walks text K opened lo (throw .exhausted : Parser α) later Q := by
  intro r _ _ e he
  cases he

theorem ite {c : Prop} [Decidable c] {q : Parser α} (hp : c → Walks text K opened lo p later Q)
    (hq : ¬c → Walks text K opened lo q later Q) : Walks text K opened lo (if c then p else q) later Q := by
  by_cases h : c
  · rw [if_pos h]
    exact hp h
  · rw [if_neg h]
    exact hq h

/-- **Loops**: every round keeps an invariant of the state of the loop and the edge. -/
theorem loop {init : σ} {step : σ → Parser (σ ⊕ α)} (I : σ → Nat → Prop) (hinit : I init lo)
    (hstep : ∀ u m, lo ≤ m → I u m → Walks text Anywhere opened m (step u) opened (Sum.elim I Q)) :
    Walks text K opened lo (Parser.loop init step) opened Q := by
  have hiterate (fuel : Nat) (u : σ) (m : Nat) (hm : lo ≤ m) (hu : I u m) :
      Walks text Anywhere opened m (Parser.iterate step fuel u) opened Q := by
    induction fuel generalizing u m with
    | zero => exact exhausted
    | succ fuel ih =>
      refine bind (hstep u m hm hu) fun x m' hm' hx => ?_
      cases x with
      | inl u => exact ih u m' (hm.trans hm') hx
      | inr result => exact pure hx
  intro r hr _
  exact hiterate _ init lo le_rfl hinit r hr trivial

/-- a loop whose result is what its rounds keep, and what comes after it -/
theorem loop_bind {init : σ} {step : σ → Parser (σ ⊕ σ)} {f : σ → Parser β} (I : σ → Nat → Prop) (hinit : I init lo)
    (hstep : ∀ u m, lo ≤ m → I u m → Walks text Anywhere opened m (step u) opened (Sum.elim I I))
    (hrest : ∀ u m, lo ≤ m → I u m → Walks text Anywhere opened m (f u) later R) :
    Walks text K opened lo (Parser.loop init step >>= f) later R := (loop I hinit hstep).bind hrest

/-- a round that goes on with what a step gives -/
theorem again {p : Parser σ} {I : σ → Nat → Prop} (h : Walks text K opened lo p later I) :
    Walks text K opened lo (do return .inl (← p)) later (Sum.elim I Q) := h.bind fun _ _ _ hx => .pure hx

/-! ### Looking at a token -/

theorem get_bind {f : Reading → Parser β}
    (h : ∀ r : Reading, r.Stands text opened lo → K r → Walks text (· = r) opened lo (f r) later R) :
    Walks text K opened lo (get >>= f) later R := fun r hr hK => h r hr hK r hr rfl

theorem raw_bind {f : Token → Parser β} (h : ∀ t, Walks text (ComesRaw t) opened lo (f t) later R) :
    Walks text K opened lo (Parser.raw >>= f) later R := fun r hr _ => h r.raw r hr rfl

/-- the edge moves to the token that is looked at -/
theorem peekStart_bind {f : Token → Parser β}
    (h : ∀ t, t.Met text lo → Walks text (Comes t) opened t.span.start (f t) later R) :
    Walks text K opened lo (Parser.peek >>= f) later R := by
  intro r hr _
  obtain ⟨hstands, hmet⟩ := hr.settle
  exact (h r.settle.raw hmet r.settle hstands r.raw_settle_settle).imp hmet.start fun _ _ _ hy => hy

theorem peek_bind {f : Token → Parser β} (h : ∀ t, t.Met text lo → Walks text (Comes t) opened lo (f t) later R) :
    Walks text K opened lo (Parser.peek >>= f) later R := by
  intro r hr _
  obtain ⟨hstands, hmet⟩ := hr.settle
  exact h r.settle.raw hmet r.settle (hstands.weaken hmet.start) r.raw_settle_settle

/-- a token that comes next is seen again -/
theorem peekAgain_bind {f : Token → Parser β} (h : t.Met text lo → Walks text (Comes t) opened lo (f t) later R) :
    Walks text (Comes t) opened lo (Parser.peek >>= f) later R := by
  rintro r hr rfl
  obtain ⟨hstands, hmet⟩ := hr.settle
  exact h hmet r.settle (hstands.weaken hmet.start) r.raw_settle_settle

theorem peekKind_bind {f : Kind → Parser β} (h : ∀ t, Walks text (Comes t) opened lo (f t.kind) later R) :
    Walks text K opened lo (Parser.peekKind >>= f) later R := by
  rw [Parser.peekKind, bind_assoc]
  simp only [pure_bind]
  exact peek_bind fun t _ => h t

theorem at_bind {k : Kind} {f : Bool → Parser β}
    (h : ∀ t, Walks text (Comes t) opened lo (f (decide (t.kind = k))) later R) :
    Walks text K opened lo (Parser.at? k >>= f) later R := by
  rw [Parser.at?, bind_assoc]
  simp only [pure_bind]
  exact peek_bind fun t _ => h t

theorem atAgain_bind {k : Kind} {f : Bool → Parser β}
    (h : Walks text (Comes t) opened lo (f (decide (t.kind = k))) later R) :
    Walks text (Comes t) opened lo (Parser.at? k >>= f) later R := by
  rw [Parser.at?, bind_assoc]
  simp only [pure_bind]
  exact peekAgain_bind fun _ => h

theorem atText_bind {k : Kind} {word : String} {f : Bool → Parser β}
    (h : ∀ t, Walks text (Comes t) opened lo (f (decide (t.kind = k) && t.text == word.toList)) later R) :
    Walks text K opened lo (Parser.atText? k word >>= f) later R := by
  rw [Parser.atText?, bind_assoc]
  simp only [pure_bind]
  exact peek_bind fun t _ => h t

/-! ### Refusing -/

theorem refuse {cause : Cause} {span : Span} (h : Blames text ⟨cause, span⟩) :
    Walks text K opened lo (Parser.refuse cause span : Parser α) later Q := by
  intro r _ _ e he
  cases he
  exact h

/-- nothing comes after a refusal -/
theorem refuse_bind {cause : Cause} {span : Span} {f : α → Parser β} (h : Blames text ⟨cause, span⟩) :
    Walks text K opened lo (Parser.refuse cause span >>= f) later R := by
  have hnever : Walks text K opened lo (Parser.refuse cause span : Parser α) later fun _ _ => False := refuse h
  exact hnever.bind fun _ _ _ h => h.elim

/-- a token with a fault that comes next is refused -/
theorem refuseRaw_bind {fault : Fault} (ht : t.fault = some fault) {f : α → Parser β} :
    Walks text (ComesRaw t) opened lo (Parser.refuse (.lexical fault) t.span >>= f) later R := by
  intro r hr hraw
  have hplaced : t.Placed text := by
    rw [← hraw]
    refine hr.placed_raw ?_
    rw [hraw, ht]
    exact Option.some_ne_none fault
  exact refuse_bind (K := Anywhere) (hplaced.blames ht) r hr trivial

theorem unexpected : Walks text K opened lo (Parser.unexpected : Parser α) later Q := by
  refine peek_bind fun t ht => ?_
  cases hfault : t.fault with
  | some fault => exact refuse (ht.placed.blames hfault)
  | none =>
    have hclean : Reached text t.span := ⟨t, ht.placed, hfault, rfl⟩
    exact ite (fun _ => refuse (hclean.blames nofun)) fun _ => refuse (hclean.blames nofun)

theorem unexpected_bind {f : α → Parser β} : Walks text K opened lo (Parser.unexpected >>= f) later R := by
  have hnever : Walks text K opened lo (Parser.unexpected : Parser α) later fun _ _ => False := unexpected
  exact hnever.bind fun _ _ _ h => h.elim

theorem wanted {what : Wanted} : Walks text K opened lo (Parser.wanted what : Parser α) later Q := by
  refine peek_bind fun t ht => ?_
  cases hfault : t.fault with
  | some fault => exact refuse (ht.placed.blames hfault)
  | none =>
    have hclean : Reached text t.span := ⟨t, ht.placed, hfault, rfl⟩
    exact refuse (hclean.blames nofun)

theorem wanted_bind {what : Wanted} {f : α → Parser β} :
    Walks text K opened lo (Parser.wanted what >>= f) later R := by
  have hnever : Walks text K opened lo (Parser.wanted what : Parser α) later fun _ _ => False := wanted
  exact hnever.bind fun _ _ _ h => h.elim

/-! ### Taking a token -/

/-- **A token is taken**, unless it has a fault. -/
theorem takeMet_bind {f : Token → Parser β} (hturn : t.kind.turn opened = some middle)
    (h : t.Met text lo → Walks text Anywhere middle t.span.stop (f t) later R) :
    Walks text (Comes t) opened lo (Parser.take >>= f) later R := by
  have htake : Walks text (Comes t) opened lo Parser.take middle fun u hi => u = t ∧ hi = t.span.stop ∧ t.Met text lo := by
    rintro r hr rfl
    obtain ⟨hstands, hmet⟩ := hr.settle
    have hpeek {f : Token → Parser Token} : (Parser.peek >>= f).run r = (f r.settle.raw).run r.settle := rfl
    rw [Parser.take, hpeek]
    cases hfault : r.settle.raw.fault with
    | some fault =>
      intro e he
      cases he
      exact hmet.placed.blames hfault
    | none => exact ⟨_, hmet.le, hstands.drop rfl hturn (.inl hfault), rfl, rfl, hmet⟩
  refine htake.bind fun u m _ hu => ?_
  obtain ⟨rfl, rfl, hmet⟩ := hu
  exact h hmet

theorem take_bind {f : Token → Parser β} (hturn : t.kind.turn opened = some middle) (hfirm : t.kind.isFirm = true)
    (h : t.Solid text lo → Walks text Anywhere middle t.span.stop (f t) later R) :
    Walks text (Comes t) opened lo (Parser.take >>= f) later R := takeMet_bind hturn fun ht => h (ht.solid hfirm)

theorem takeKind_bind {k : Kind} {f : Token → Parser β} (ht : t.kind = k) (hturn : k.turn opened = some middle)
    (hfirm : k.isFirm = true) (h : t.Solid text lo → Walks text Anywhere middle t.span.stop (f t) later R) :
    Walks text (Comes t) opened lo (Parser.take >>= f) later R := take_bind (by rwa [ht]) (by rwa [ht]) h

theorem expectMet_bind {k : Kind} {what : Wanted} {f : Token → Parser β} (hturn : k.turn opened = some middle)
    (h : ∀ u, u.kind = k → u.Met text lo → Walks text Anywhere middle u.span.stop (f u) later R) :
    Walks text K opened lo (Parser.expect k what >>= f) later R := by
  unfold Parser.expect
  rw [bind_assoc]
  refine at_bind fun t => ?_
  by_cases ht : t.kind = k
  · simp only [ht, decide_true, if_true]
    exact takeMet_bind (by rwa [ht]) (h t ht)
  · simp only [ht, decide_false, Bool.false_eq_true, if_false]
    exact wanted_bind

/-- **A token of a kind that is not empty.** -/
theorem expect_bind {k : Kind} {what : Wanted} {f : Token → Parser β} (hturn : k.turn opened = some middle)
    (hfirm : k.isFirm = true) (h : ∀ u, u.Solid text lo → Walks text Anywhere middle u.span.stop (f u) later R) :
    Walks text K opened lo (Parser.expect k what >>= f) later R :=
  expectMet_bind hturn fun u hu hmet => h u (hmet.solid (by rwa [hu]))

theorem eat_bind {k : Kind} {f : Option Token → Parser β} (hturn : k.turn opened = some opened) (hfirm : k.isFirm = true)
    (hsome : ∀ u, u.Solid text lo → Walks text Anywhere opened u.span.stop (f (some u)) later R)
    (hnone : Walks text Anywhere opened lo (f none) later R) :
    Walks text K opened lo (Parser.eat? k >>= f) later R := by
  rw [Parser.eat?, bind_assoc]
  refine at_bind fun t => ?_
  by_cases ht : t.kind = k
  · simp only [ht, decide_true, if_true, bind_assoc, pure_bind]
    exact take_bind (by rwa [ht]) (by rwa [ht]) (hsome t)
  · simp only [ht, decide_false, Bool.false_eq_true, if_false, pure_bind]
    exact hnone.anywhere

/-- a token that is there is taken -/
theorem eatThere_bind {k : Kind} {f : Option Token → Parser β} (hturn : k.turn opened = some opened)
    (hfirm : k.isFirm = true) (ht : t.kind = k)
    (hsome : t.Solid text lo → Walks text Anywhere opened t.span.stop (f (some t)) later R) :
    Walks text (Comes t) opened lo (Parser.eat? k >>= f) later R := by
  rw [Parser.eat?, bind_assoc]
  refine atAgain_bind ?_
  simp only [ht, decide_true, if_true, bind_assoc, pure_bind]
  exact take_bind (by rwa [ht]) (by rwa [ht]) hsome

/-- a comment is taken as it stands, so the text has comments -/
theorem takeComment_bind (ht : t.kind.isComment = true) {f : Comment → Parser β}
    (h : ∀ c m, lo ≤ m → ¬Quiet text → Walks text Anywhere opened m (f c) later R) :
    Walks text (ComesRaw t) opened lo (Parser.takeComment >>= f) later R := by
  rintro r hr rfl
  obtain ⟨hstands, hstart, hpos⟩ := hr.dropRaw (by rw [Kind.isTrivia, ht]; rfl)
  have hle : lo ≤ r.raw.span.stop := hstart.trans hpos.le
  exact (h _ _ hle (hr.not_quiet ht) r.dropRaw hstands trivial).imp hle fun _ _ _ hy => hy

theorem takeBlank_bind (ht : t.kind = .blankLines) {f : Token → Parser β}
    (h : lo ≤ t.span.start → t.span.start < t.span.stop → Walks text Anywhere opened t.span.stop (f t) later R) :
    Walks text (ComesRaw t) opened lo (Parser.takeRaw >>= f) later R := by
  rintro r hr rfl
  obtain ⟨hstands, hstart, hpos⟩ := hr.dropRaw (by rw [ht]; rfl)
  exact (h hstart hpos r.dropRaw hstands trivial).imp (hstart.trans hpos.le) fun _ _ _ hy => hy

/-- a token of a preprocessor line is taken as it stands -/
theorem takeLine_bind (hblank : t.kind ≠ .blankLines) (hbracket : t.kind.bracket? = none)
    (hfault : t.fault = none ∨ t.kind ≠ .unknown) {f : Token → Parser β}
    (h : t.Met text lo → Walks text Anywhere opened t.span.stop (f t) later R) :
    Walks text (ComesRaw t) opened lo (Parser.takeRaw >>= f) later R := by
  rintro r hr rfl
  have hheld : r.held = none := by
    cases hheld : r.held with
    | none => rfl
    | some b =>
      rw [Reading.raw, hheld, Option.getD_some] at hblank
      exact absurd (hr.held b (by simp [hheld])).1 hblank
  have hraw : r.raw = r.front := by rw [Reading.raw, hheld, Option.getD_none]
  have hdrop : r.dropRaw = { r with ahead := r.ahead.tail } := by simp [Reading.dropRaw, hheld]
  have hmet := hr.front
  have hclean : r.front.fault = none ∨ r.ahead = [] := by
    cases hrest : r.ahead with
    | nil => exact .inr rfl
    | cons t ts =>
      left
      have hmem : r.front ∈ (Stream.ofText text).ahead := by
        refine hr.mem_ahead ?_
        simp [Reading.front, hrest]
      rcases hfault with hfault | hkind
      · rwa [← hraw]
      · by_contra hfault
        exact hkind (hraw ▸ Stream.fault_ofText text _ hmem hfault)
  have hstands := hr.drop hheld (by rw [← hraw, Kind.turn_of_bracket_none hbracket]) hclean
  rw [← hraw] at hmet hstands
  rw [← hdrop] at hstands
  exact (h hmet r.dropRaw hstands trivial).imp hmet.le fun _ _ _ hy => hy

/-! ### Nodes -/

theorem spanning_bind {start stop : Nat} {f : Span → Parser β}
    (h : start ≤ stop → Walks text Anywhere opened lo (f ⟨start, stop⟩) later R) :
    Walks text K opened lo (Parser.spanning start stop >>= f) later R := by
  unfold Parser.spanning
  by_cases hle : start ≤ stop
  · rw [if_pos hle, pure_bind]
    exact (h hle).anywhere
  · rw [if_neg hle]
    intro r _ _ e he
    cases he

theorem build {start stop : Nat} {shape : Shape Node} {Q : Node → Nat → Prop}
    (h : start ≤ stop → Q (.mk ⟨start, stop⟩ shape none) lo) :
    Walks text K opened lo (Parser.build start stop shape) opened Q := spanning_bind fun hle => pure (h hle)

theorem lexeme_bind {span : Span} {f : Lexeme → Parser β}
    (h : ∀ l : Lexeme, l.span = span → Walks text Anywhere opened lo (f l) later R) :
    Walks text K opened lo (Parser.lexeme span >>= f) later R := by
  have hlexeme : Walks text K opened lo (Parser.lexeme span) opened fun l hi => l.span = span ∧ hi = lo :=
    get_bind fun _ _ _ => pure ⟨rfl, rfl⟩
  refine hlexeme.bind fun l m _ hl => ?_
  obtain ⟨hspan, rfl⟩ := hl
  exact h l hspan

/-! ### Parked comments -/

theorem park {c : Comment} (hc : ¬Quiet text) {Q : Unit → Nat → Prop} (hQ : Q () lo) :
    Walks text K opened lo (Parser.park c) opened Q := fun _ hr _ =>
  ⟨lo, le_rfl, ⟨hr.eof, hr.held, hr.behind, hr.ascends, fun hquiet => absurd hquiet hc⟩, hQ⟩

/-- comments are parked, if there are any in the text -/
theorem parkAll_bind {cs : List Comment} (hcs : cs ≠ [] → ¬Quiet text) {f : Unit → Parser β}
    (h : Walks text Anywhere opened lo (f ()) later R) :
    Walks text K opened lo (cs.forM Parser.park >>= f) later R := by
  have hpark : Walks text K opened lo (cs.forM Parser.park) opened fun _ hi => hi = lo := by
    induction cs generalizing K with
    | nil => exact pure rfl
    | cons c cs ih =>
      have hquiet := hcs (List.cons_ne_nil c cs)
      refine bind (park (Q := fun _ hi => hi = lo) hquiet rfl) fun _ m _ hm => ?_
      obtain rfl := hm
      exact ih fun _ => hquiet
  refine hpark.bind fun _ m _ hm => ?_
  obtain rfl := hm
  exact h

/-- what is parked is taken: nothing in a text without comments -/
theorem takePending_bind {f : List Comment → Parser β} (hK : ∀ r : Reading, K r → L { r with pending := [] })
    (h : ∀ cs, (cs ≠ [] → ¬Quiet text) → Walks text L opened lo (f cs) later R) :
    Walks text K opened lo (Parser.takePending >>= f) later R := fun r hr hKr =>
  h r.pending (fun hne hquiet => hne (hr.quiet hquiet)) { r with pending := [] }
    ⟨hr.eof, hr.held, hr.behind, hr.ascends, fun _ => rfl⟩ (hK r hKr)

/-- a comment on the last line of a node does not move the node -/
theorem trailingComment_bind {n : Node} {f : Node → Parser β}
    (h : ∀ n' m, lo ≤ m → (n' = n ∨ ∃ c, n' = n.withSuffix c) → Walks text Anywhere opened m (f n') later R) :
    Walks text K opened lo (Parser.trailingComment n >>= f) later R := by
  unfold Parser.trailingComment
  rw [bind_assoc]
  refine get_bind fun r _ _ => ?_
  by_cases hc : (r.raw.kind.isComment && !r.onOwnLine && !n.hasSuffix) = true
  · rw [if_pos hc, bind_assoc]
    simp only [Bool.and_eq_true] at hc
    refine (takeComment_bind hc.1.1 fun c m hm _ => ?_).weaken fun s _ hs => by rw [ComesRaw, hs]
    rw [pure_bind]
    exact h _ m hm (.inr ⟨c, rfl⟩)
  · rw [if_neg hc, pure_bind]
    exact (h n lo le_rfl (.inl rfl)).anywhere

theorem holdBlank_bind {f : Unit → Parser β} (h : Walks text Anywhere opened lo (f ()) later R) :
    Walks text K opened lo (Parser.holdBlank >>= f) later R := by
  intro r hr _
  refine h (if r.held.isNone && r.front.kind = .blankLines then
    { r with held := some r.front, ahead := r.ahead.tail } else r) ?_ trivial
  by_cases hc : (r.held.isNone && r.front.kind = .blankLines) = true
  · rw [if_pos hc]
    simp only [Bool.and_eq_true, Option.isNone_iff_eq_none, decide_eq_true_eq] at hc
    obtain ⟨hheld, hblank⟩ := hc
    cases hrest : r.ahead with
    | nil =>
      rw [Reading.front, hrest, List.headD_nil, hr.sane.eof] at hblank
      cases hblank
    | cons t ts =>
      have hfront : r.front = t := by simp [Reading.front, hrest]
      have hmem : t ∈ (Stream.ofText text).ahead := hr.mem_ahead (by simp [hrest])
      obtain ⟨hclean, hbracket⟩ := Stream.trivia_ofText hmem (by rw [← hfront, hblank]; rfl)
      have hdrop := hr.drop hheld (by rw [hfront, Kind.turn_of_bracket_none hbracket]) (.inl (by rw [hfront, hclean]))
      have hascends := hr.ascends
      rw [hheld, hrest] at hascends
      refine ⟨hr.eof, ?_, ?_, ?_, hr.quiet⟩
      · intro b hb
        cases hb
        exact ⟨hblank, hfront ▸ hmem⟩
      · have := hdrop.behind
        rwa [hrest] at this
      · simpa [hfront] using hascends
  · rw [if_neg hc]
    exact hr

/-- what stands behind a held blank line comes next once that is dropped -/
theorem dropHeld_bind {r : Reading} (hr : r.front.kind.isTrivia = false) {f : Unit → Parser β}
    (h : Walks text (Comes r.front) opened lo (f ()) later R) :
    Walks text (· = r) opened lo (Parser.dropHeld >>= f) later R := by
  intro s hs hsr
  subst hsr
  have hstands : Reading.Stands text opened lo { s with held := none } := by
    refine ⟨hs.eof, by simp, hs.behind, ?_, hs.quiet⟩
    have := hs.ascends
    rw [List.append_assoc] at this
    exact this.right
  exact h _ hstands (hstands.sane.next_of_raw rfl hr)

end Walks

end LpcStyle
