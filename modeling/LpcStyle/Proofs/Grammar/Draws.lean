import Mathlib.Tactic
import LpcStyle.Proofs.Grammar.Carries
import LpcStyle.Proofs.Token.Faults
import LpcStyle.Proofs.Tree.Legible

/-!
What a rule of the grammar gives is drawn from the text. A state of reading follows the text from an edge on: all that is
ahead are tokens of the text that start at or behind the edge, and what is parked are comments of the text.
`Draws text K lo p Q` says that from such a state, of which `K` holds, `p` gives only results that `Q` relates to a later
edge, and leaves a state that follows the text from there.
-/

namespace LpcStyle

open Text LpcStyle.Parser

/-! ## Tokens of a text -/

/-- a token of the text that is taken from an edge on -/
structure Token.Taken (text : List Char) (lo : Nat) (t : Token) : Prop where
  mem : t ∈ (Stream.ofText text).closed
  start : lo ≤ t.span.start
  ordered : t.span.start ≤ t.span.stop

/-- an array opens with two characters of one byte -/
theorem Stream.arrayStart_ofText {text : List Char} {t : Token} (ht : t ∈ (ofText text).closed)
    (hkind : t.kind = .arrayStart) : t.text = "(\x7b".toList := by
  have hstep (s : Lexer) (hkind : s.step.1.kind = .arrayStart) : s.step.1.text = "(\x7b".toList := by
    have hspelt := s.spelt_step_iff.2 fun hstray => by simpa [hkind] using hstray.kind
    rw [hkind] at hspelt
    exact hspelt _ rfl
  have hall : ∀ t ∈ (ofText text).ahead, t.kind = .arrayStart → t.text = "(\x7b".toList :=
    forall_ofText_of_step hstep text
  rcases List.mem_append.1 ht with hahead | heof
  · exact hall t hahead hkind
  · rw [List.mem_singleton.1 heof, eof_ofText] at hkind
    cases hkind

namespace Token.Taken

variable {text : List Char} {lo lower : Nat} {t : Token}

theorem le (h : t.Taken text lo) : lo ≤ t.span.stop := h.start.trans h.ordered

theorem weaken (h : t.Taken text lo) (hle : lower ≤ lo) : t.Taken text lower := ⟨h.mem, hle.trans h.start, h.ordered⟩

theorem slice? (h : t.Taken text lo) : Text.slice? text t.span = some t.text := Stream.slice_ofText text t h.mem

theorem range (h : t.Taken text lo) : t.span.Selects text := selects_of_slice? h.slice?

theorem lexeme (h : t.Taken text lo) : (Lexeme.ofToken t).Copied text := h.slice?

theorem comment (h : t.Taken text lo) : (Comment.ofToken t).Copied text := h.slice?

/-- a token that is a literal -/
theorem literal (h : t.Taken text lo) {kind : LiteralKind}
    (hkind : kind = .string ∨ kind = .char → t.kind = .string ∨ t.kind = .char) :
    (Shape.literal kind t.text).Legible text t.span := by
  refine ⟨h.slice?, fun hquoted => ?_⟩
  rcases List.mem_append.1 h.mem with hahead | heof
  · exact (Stream.sealed_ofText text t hahead).quoted (hkind hquoted)
  · have hend := hkind hquoted
    rw [List.mem_singleton.1 heof, Stream.eof_ofText] at hend
    simp at hend

end Token.Taken

/-! ## Ends of a range -/

/-- a boundary at or behind an edge -/
structure From (text : List Char) (lo offset : Nat) : Prop where
  le : lo ≤ offset
  boundary : Boundary text offset

/-- a boundary at or before an edge -/
structure UpTo (text : List Char) (offset hi : Nat) : Prop where
  le : offset ≤ hi
  boundary : Boundary text offset

/-- a node that is read between two offsets, and can be read again -/
structure Node.Drawn (text : List Char) (lo : Nat) (n : Node) (hi : Nat) : Prop where
  legible : n.Legible text
  start : lo ≤ n.start
  stop : n.stop ≤ hi

section Ends

variable {text : List Char} {lo m hi offset lower upper start stop : Nat} {t : Token} {n : Node} {shape : Shape Node}

theorem From.weaken (h : From text lo offset) (hle : lower ≤ lo) : From text lower offset := ⟨hle.trans h.le, h.boundary⟩

theorem UpTo.weaken (h : UpTo text offset hi) (hle : hi ≤ upper) : UpTo text offset upper := ⟨h.le.trans hle, h.boundary⟩

theorem Token.Taken.atStart (h : t.Taken text lo) : From text lo t.span.start := ⟨h.start, h.range.start⟩

theorem Token.Taken.atStop (h : t.Taken text lo) : UpTo text t.span.stop t.span.stop := ⟨le_rfl, h.range.stop⟩

namespace Node.Drawn

theorem atStart (h : n.Drawn text lo hi) : From text lo n.start := ⟨h.start, h.legible.start⟩

theorem atStop (h : n.Drawn text lo hi) : UpTo text n.stop hi := ⟨h.stop, h.legible.stop⟩

theorem widen (h : n.Drawn text lo hi) (hlower : lower ≤ lo) (hupper : hi ≤ upper) : n.Drawn text lower upper :=
  ⟨h.legible, hlower.trans h.start, h.stop.trans hupper⟩

/-- a node that is one token -/
theorem leaf (ht : t.Taken text lo) (own : shape.Legible text t.span) (hparts : shape.parts = []) :
    (Parser.leaf t shape).Drawn text lo t.span.stop :=
  ⟨⟨ht.range, own, by simp, by simp [hparts]⟩, ht.start, le_rfl⟩

end Node.Drawn

end Ends

/-! ## States -/

/-- tokens that are still to be read, the end of the file last -/
def Reading.tokens (r : Reading) : List Token := r.held.toList ++ r.ahead ++ [r.eof]

/-- all that is ahead are tokens of the text from an edge on, and what is parked are comments of the text -/
structure Reading.Follows (text : List Char) (lo : Nat) (r : Reading) : Prop where
  source : r.source = text
  eof : r.eof = (Stream.ofText text).eof
  suffix : r.ahead <:+ (Stream.ofText text).ahead
  mem : ∀ t ∈ r.tokens, t ∈ (Stream.ofText text).closed
  ascends : Ascends lo r.tokens
  pending : AllCopied text r.pending

namespace Reading

variable {text : List Char} {lo lower : Nat} {r : Reading}

/-- the next token is the first of those that are still to be read, and is dropped from them unless it is the end -/
theorem tokens_eq (r : Reading) :
    ∃ ts, r.tokens = r.raw :: ts ∧ (r.dropRaw.tokens = ts ∨ r.raw = r.eof ∧ r.dropRaw.tokens = [r.eof]) := by
  cases hheld : r.held with
  | some b => exact ⟨r.ahead ++ [r.eof], by simp [tokens, raw, hheld], .inl (by simp [tokens, dropRaw, hheld])⟩
  | none =>
    cases hahead : r.ahead with
    | nil => exact ⟨[], by simp [tokens, raw, front, hheld, hahead], .inr (by simp [tokens, raw, dropRaw, front, hheld, hahead])⟩
    | cons t ts =>
      refine ⟨ts ++ [r.eof], ?_, .inl ?_⟩
      · simp [tokens, raw, front, hheld, hahead]
      · simp [tokens, dropRaw, hheld, hahead]

namespace Follows

theorem weaken (h : r.Follows text lo) (hle : lower ≤ lo) : r.Follows text lower :=
  ⟨h.source, h.eof, h.suffix, h.mem, h.ascends.weaken hle, h.pending⟩

/-- the next token, comments and blank lines included -/
theorem raw (h : r.Follows text lo) : r.raw.Taken text lo := by
  obtain ⟨ts, htokens, -⟩ := r.tokens_eq
  have hascends := h.ascends
  rw [htokens] at hascends
  exact ⟨h.mem _ (by simp [htokens]), hascends.1, hascends.2.1⟩

/-- the edge moves to where the next token starts -/
theorem onward (h : r.Follows text lo) : r.Follows text r.raw.span.start := by
  obtain ⟨ts, htokens, -⟩ := r.tokens_eq
  have hascends := h.ascends
  rw [htokens] at hascends
  refine ⟨h.source, h.eof, h.suffix, h.mem, ?_, h.pending⟩
  rw [htokens]
  exact ⟨le_rfl, hascends.2⟩

/-- **The next token is dropped**: the edge moves to its end. -/
theorem dropRaw (h : r.Follows text lo) : r.dropRaw.Follows text r.raw.span.stop := by
  have hkept : r.dropRaw.source = r.source ∧ r.dropRaw.eof = r.eof ∧ r.dropRaw.pending = r.pending ∧
      r.dropRaw.ahead <:+ r.ahead := by
    unfold Reading.dropRaw
    split
    · exact ⟨rfl, rfl, rfl, List.suffix_rfl⟩
    · exact ⟨rfl, rfl, rfl, List.tail_suffix _⟩
  obtain ⟨hsource, heof, hpending, hsuffix⟩ := hkept
  obtain ⟨ts, htokens, hrest⟩ := r.tokens_eq
  have hascends := h.ascends
  rw [htokens] at hascends
  refine ⟨hsource.trans h.source, heof.trans h.eof, hsuffix.trans h.suffix, fun t ht => h.mem t ?_, ?_,
    hpending ▸ h.pending⟩
  · rcases hrest with hrest | ⟨-, hrest⟩
    · rw [htokens, ← hrest]
      exact List.mem_cons_of_mem _ ht
    · rw [hrest, List.mem_singleton] at ht
      exact ht ▸ List.mem_append_right _ (List.mem_singleton_self _)
  · rcases hrest with hrest | ⟨hraw, hrest⟩
    · rw [hrest]
      exact hascends.2.2
    · -- the end of the file is empty, and comes again
      have hspan := Stream.eof_start_ofText text
      rw [hrest, hraw, h.eof]
      exact ⟨hspan.ge, hspan.le, trivial⟩

/-- **Looking ahead** steps over comments and blank lines, and parks the comments. -/
theorem settle (h : r.Follows text lo) : r.settle.Follows text lo := by
  have htokens : r.tokens = r.held.toList ++ r.ahead.takeWhile (·.kind.isTrivia) ++ r.settle.tokens := by
    change _ = _ ++ (r.ahead.dropWhile (·.kind.isTrivia) ++ [r.eof])
    rw [← List.append_assoc, List.append_assoc r.held.toList, List.takeWhile_append_dropWhile, tokens]
  have hascends := h.ascends
  rw [htokens] at hascends
  refine ⟨h.source, h.eof, (List.dropWhile_suffix _).trans h.suffix, fun t ht => h.mem t ?_, hascends.right, ?_⟩
  · rw [htokens]
    exact List.mem_append_right _ ht
  · refine List.forall_mem_append.2 ⟨h.pending, List.forall_mem_map.2 fun t ht => ?_⟩
    have hahead : t ∈ r.ahead := (List.takeWhile_sublist _).subset (List.mem_of_mem_filter ht)
    exact Stream.slice_ofText text t (h.mem t (by simp [tokens, hahead]))

end Follows

end Reading

/-! ## Steps -/

/-- from a state at an edge to a later one, with a result that goes with it -/
def Draws {α : Type} (text : List Char) (K : Reading → Prop) (lo : Nat) (p : Parser α) (Q : α → Nat → Prop) : Prop :=
  ∀ r : Reading, r.Follows text lo → K r → ∀ x s, p.run r = .ok (x, s) → ∃ hi, lo ≤ hi ∧ s.Follows text hi ∧ Q x hi

namespace Draws

variable {α β σ : Type} {text : List Char} {K L : Reading → Prop} {lo m lower : Nat} {p : Parser α} {f : α → Parser β}
  {Q Q' : α → Nat → Prop} {R : β → Nat → Prop} {t : Token} {n : Node} {shape : Shape Node} {start stop : Nat}

/-! ### Putting steps together -/

theorem anywhere (h : Draws text Anywhere lo p Q) : Draws text K lo p Q := fun r hr _ => h r hr trivial

theorem imp (h : Draws text K lo p Q) (hQ : ∀ x hi, lo ≤ hi → Q x hi → Q' x hi) : Draws text K lo p Q' := by
  intro r hr hK x s hrun
  obtain ⟨hi, hle, hs, hx⟩ := h r hr hK x s hrun
  exact ⟨hi, hle, hs, hQ x hi hle hx⟩

theorem pure {x : α} (h : Q x lo) : Draws text K lo (pure x) Q := by
  intro r hr _ y s hrun
  cases hrun
  exact ⟨lo, le_rfl, hr, h⟩

/-- **One step after the other.** -/
theorem bind (h : Draws text K lo p Q) (hf : ∀ x m, lo ≤ m → Q x m → Draws text Anywhere m (f x) R) :
    Draws text K lo (p >>= f) R := by
  intro r hr hK y s hrun
  obtain ⟨x, r', hp, hrun⟩ := Parser.of_run_bind hrun
  obtain ⟨m, hm, hr', hx⟩ := h r hr hK x r' hp
  obtain ⟨hi, hhi, hs, hy⟩ := hf x m hm hx r' hr' trivial y s hrun
  exact ⟨hi, hm.trans hhi, hs, hy⟩

theorem map {g : α → β} (h : Draws text K lo p fun x => R (g x)) : Draws text K lo (g <$> p) R := by
  rw [map_eq_pure_bind]
  exact bind h fun x m _ hx => pure hx

theorem throw {e : Failure} : Draws text K lo (throw e : Parser α) Q := by
  intro r _ _ x s hrun
  cases hrun

theorem ite {c : Prop} [Decidable c] {q : Parser α} (hp : c → Draws text K lo p Q) (hq : ¬c → Draws text K lo q Q) :
    Draws text K lo (if c then p else q) Q := by
  by_cases h : c
  · rw [if_pos h]
    exact hp h
  · rw [if_neg h]
    exact hq h

/-- **Loops**: every round keeps an invariant of the state of the loop and the edge. -/
theorem loop {init : σ} {step : σ → Parser (σ ⊕ α)} (I : σ → Nat → Prop) (hinit : I init lo)
    (hstep : ∀ u m, lo ≤ m → I u m → Draws text Anywhere m (step u) (Sum.elim I Q)) :
    Draws text K lo (Parser.loop init step) Q := by
  have hiterate (fuel : Nat) (u : σ) (m : Nat) (hm : lo ≤ m) (hu : I u m) :
      Draws text Anywhere m (Parser.iterate step fuel u) Q := by
    induction fuel generalizing u m with
    | zero => exact throw
    | succ fuel ih =>
      refine bind (hstep u m hm hu) fun x m' hm' hx => ?_
      cases x with
      | inl u => exact ih u m' (hm.trans hm') hx
      | inr result => exact pure hx
  intro r hr _
  exact hiterate _ init lo le_rfl hinit r hr trivial

/-- a loop whose result is what its rounds keep, and what comes after it -/
theorem loop_bind {init : σ} {step : σ → Parser (σ ⊕ σ)} {f : σ → Parser β} (I : σ → Nat → Prop) (hinit : I init lo)
    (hstep : ∀ u m, lo ≤ m → I u m → Draws text Anywhere m (step u) (Sum.elim I I))
    (hrest : ∀ u m, lo ≤ m → I u m → Draws text Anywhere m (f u) R) :
    Draws text K lo (Parser.loop init step >>= f) R := (loop I hinit hstep).bind hrest

/-- a round that goes on with what a step gives -/
theorem again {p : Parser σ} {I : σ → Nat → Prop} (h : Draws text K lo p I) :
    Draws text K lo (do return .inl (← p)) (Sum.elim I Q) := h.bind fun _ _ _ hx => .pure hx

/-! ### Looking at a token -/

theorem get_bind {f : Reading → Parser β} (h : ∀ r, Draws text K lo (f r) R) : Draws text K lo (get >>= f) R :=
  fun r hr hK => h r r hr hK

theorem raw_bind {f : Token → Parser β} (h : ∀ t, t.Taken text lo → Draws text (ComesRaw t) lo (f t) R) :
    Draws text K lo (Parser.raw >>= f) R := fun r hr _ => h r.raw hr.raw r hr rfl

theorem peek_bind {f : Token → Parser β} (h : ∀ t, t.Taken text lo → Draws text (Comes t) lo (f t) R) :
    Draws text K lo (Parser.peek >>= f) R :=
  fun r hr _ => h r.settle.raw hr.settle.raw r.settle hr.settle r.raw_settle_settle

/-- the edge moves to the token that is looked at -/
theorem peekStart_bind {f : Token → Parser β}
    (h : ∀ t, t.Taken text lo → Draws text Anywhere t.span.start (f t) R) :
    Draws text K lo (Parser.peek >>= f) R := by
  intro r hr _ y s hrun
  obtain ⟨hi, hhi, hs, hy⟩ := h r.settle.raw hr.settle.raw r.settle hr.settle.onward trivial y s hrun
  exact ⟨hi, hr.settle.raw.start.trans hhi, hs, hy⟩

theorem peekKind_bind {f : Kind → Parser β} (h : ∀ k, Draws text Anywhere lo (f k) R) :
    Draws text K lo (Parser.peekKind >>= f) R := by
  rw [Parser.peekKind, bind_assoc]
  simp only [pure_bind]
  exact peek_bind fun t _ => (h t.kind).anywhere

theorem at_bind {k : Kind} {f : Bool → Parser β} (h : ∀ b, Draws text Anywhere lo (f b) R) :
    Draws text K lo (Parser.at? k >>= f) R := by
  rw [Parser.at?, bind_assoc]
  simp only [pure_bind]
  exact peek_bind fun t _ => (h _).anywhere

theorem atText_bind {k : Kind} {word : String} {f : Bool → Parser β} (h : ∀ b, Draws text Anywhere lo (f b) R) :
    Draws text K lo (Parser.atText? k word >>= f) R := by
  rw [Parser.atText?, bind_assoc]
  simp only [pure_bind]
  exact peek_bind fun t _ => (h _).anywhere

/-! ### Refusing -/

/-- nothing comes after a refusal -/
theorem throw_bind {e : Failure} : Draws text K lo (MonadExcept.throw e >>= f) R := by
  intro r _ _ x s hrun
  cases hrun

theorem unexpected_bind : Draws text K lo (Parser.unexpected >>= f) R := by
  have hnever : Draws text K lo (Parser.unexpected : Parser α) fun _ _ => False := by
    refine peek_bind fun t _ => ?_
    cases t.fault with
    | some fault => exact throw
    | none => exact ite (fun _ => throw) fun _ => throw
  exact hnever.bind fun _ _ _ h => h.elim

theorem unexpected : Draws text K lo (Parser.unexpected : Parser α) Q := by
  rw [← bind_pure (Parser.unexpected : Parser α)]
  exact unexpected_bind

theorem wanted_bind {what : Wanted} : Draws text K lo (Parser.wanted what >>= f) R := by
  have hnever : Draws text K lo (Parser.wanted what : Parser α) fun _ _ => False := by
    refine peek_bind fun t _ => ?_
    cases t.fault with
    | some fault => exact throw
    | none => exact throw
  exact hnever.bind fun _ _ _ h => h.elim

theorem wanted {what : Wanted} : Draws text K lo (Parser.wanted what : Parser α) Q := by
  rw [← bind_pure (Parser.wanted what : Parser α)]
  exact wanted_bind

/-! ### Taking a token -/

/-- **A token that comes next is taken.** -/
theorem takeThere_bind {f : Token → Parser β} (h : t.Taken text lo → Draws text Anywhere t.span.stop (f t) R) :
    Draws text (Comes t) lo (Parser.take >>= f) R := by
  rintro r hr rfl y s hrun
  obtain ⟨u, r', htake, hrun⟩ := Parser.of_run_bind hrun
  obtain ⟨rfl, rfl⟩ := Parser.eq_of_take htake
  have htaken := hr.settle.raw
  obtain ⟨hi, hhi, hs, hy⟩ := h htaken r.settle.dropRaw hr.settle.dropRaw trivial y s hrun
  exact ⟨hi, htaken.le.trans hhi, hs, hy⟩

theorem take_bind {f : Token → Parser β} (h : ∀ t, t.Taken text lo → Draws text Anywhere t.span.stop (f t) R) :
    Draws text K lo (Parser.take >>= f) R :=
  fun r hr _ => takeThere_bind (h r.settle.raw) r hr rfl

theorem expect_bind {k : Kind} {what : Wanted} {f : Token → Parser β}
    (h : ∀ t, t.kind = k → t.Taken text lo → Draws text Anywhere t.span.stop (f t) R) :
    Draws text K lo (Parser.expect k what >>= f) R := by
  unfold Parser.expect Parser.at?
  simp only [bind_assoc, pure_bind]
  refine peek_bind fun t _ => ?_
  by_cases ht : t.kind = k
  · simp only [ht, decide_true, if_true]
    exact takeThere_bind (h t ht)
  · simp only [ht, decide_false, Bool.false_eq_true, if_false]
    exact wanted_bind

/-- a run that takes a token of a kind -/
theorem of_expect {k : Kind} {what : Wanted} {r s : Reading} (hr : r.Follows text lo)
    (hrun : (Parser.expect k what).run r = .ok (t, s)) : t.kind = k ∧ t.Taken text lo ∧ s.Follows text t.span.stop := by
  have htake : Draws text Anywhere lo (Parser.expect k what) fun t hi => t.kind = k ∧ t.Taken text lo ∧ hi = t.span.stop := by
    rw [← bind_pure (Parser.expect k what)]
    exact expect_bind fun t hkind ht => pure ⟨hkind, ht, rfl⟩
  obtain ⟨hi, -, hs, hkind, ht, rfl⟩ := htake r hr trivial t s hrun
  exact ⟨hkind, ht, hs⟩

theorem eat_bind {k : Kind} {f : Option Token → Parser β}
    (hsome : ∀ t, t.Taken text lo → Draws text Anywhere t.span.stop (f (some t)) R)
    (hnone : Draws text Anywhere lo (f none) R) : Draws text K lo (Parser.eat? k >>= f) R := by
  rw [Parser.eat?, bind_assoc]
  refine at_bind fun b => ?_
  cases b with
  | true =>
    simp only [if_true, bind_assoc, pure_bind]
    exact take_bind hsome
  | false =>
    simp only [Bool.false_eq_true, if_false, pure_bind]
    exact hnone

/-- a token is taken as it stands -/
theorem takeRaw_bind {f : Token → Parser β} (h : ∀ t, t.Taken text lo → Draws text Anywhere t.span.stop (f t) R) :
    Draws text K lo (Parser.takeRaw >>= f) R := by
  intro r hr _ y s hrun
  obtain ⟨hi, hhi, hs, hy⟩ := h r.raw hr.raw r.dropRaw hr.dropRaw trivial y s hrun
  exact ⟨hi, hr.raw.le.trans hhi, hs, hy⟩

theorem takeComment_bind {f : Comment → Parser β}
    (h : ∀ c m, lo ≤ m → c.Copied text → Draws text Anywhere m (f c) R) :
    Draws text K lo (Parser.takeComment >>= f) R := by
  rw [Parser.takeComment, bind_assoc]
  refine takeRaw_bind fun t ht => ?_
  rw [pure_bind]
  exact h _ _ ht.le ht.comment

/-! ### Comments that are parked -/

theorem modify_bind {g : Reading → Reading} {f : PUnit → Parser β}
    (hg : ∀ r, r.Follows text lo → (g r).Follows text lo) (h : ∀ x, Draws text Anywhere lo (f x) R) :
    Draws text K lo (modify g >>= f) R := fun r hr _ => h ⟨⟩ (g r) (hg r hr) trivial

theorem park_bind {c : Comment} {f : PUnit → Parser β} (hc : c.Copied text) (h : ∀ x, Draws text Anywhere lo (f x) R) :
    Draws text K lo (Parser.park c >>= f) R := by
  refine modify_bind (fun r hr => ⟨hr.source, hr.eof, hr.suffix, hr.mem, hr.ascends, ?_⟩) h
  exact List.forall_mem_append.2 ⟨hr.pending, List.forall_mem_singleton.2 hc⟩

theorem parkAll_bind {cs : List Comment} {f : PUnit → Parser β} (hcs : AllCopied text cs)
    (h : ∀ x, Draws text Anywhere lo (f x) R) : Draws text K lo (cs.forM Parser.park >>= f) R := by
  induction cs generalizing K with
  | nil => exact (h ⟨⟩).anywhere
  | cons c cs ih =>
    obtain ⟨hc, hrest⟩ := List.forall_mem_cons.1 hcs
    change Draws text K lo ((Parser.park c >>= fun _ => cs.forM Parser.park) >>= f) R
    rw [bind_assoc]
    exact park_bind hc fun _ => ih hrest

theorem takePending_bind {f : List Comment → Parser β} (h : ∀ cs, AllCopied text cs → Draws text Anywhere lo (f cs) R) :
    Draws text K lo (Parser.takePending >>= f) R := by
  intro r hr _
  exact h r.pending hr.pending _ ⟨hr.source, hr.eof, hr.suffix, hr.mem, hr.ascends, by simp [AllCopied]⟩ trivial

/-- a comment on the owner's last line becomes its suffix -/
theorem trailingComment_bind {f : Node → Parser β} (hn : n.Legible text)
    (h : ∀ n m, lo ≤ m → n.Legible text → Draws text Anywhere m (f n) R) :
    Draws text K lo (Parser.trailingComment n >>= f) R := by
  rw [Parser.trailingComment, bind_assoc]
  refine get_bind fun r => ?_
  split
  · rw [bind_assoc]
    refine takeComment_bind fun c m hm hc => ?_
    rw [pure_bind]
    exact h _ m hm (hn.withSuffix hc)
  · rw [pure_bind]
    exact (h n lo le_rfl hn).anywhere

theorem holdBlank_bind {f : PUnit → Parser β} (h : ∀ x, Draws text Anywhere lo (f x) R) :
    Draws text K lo (Parser.holdBlank >>= f) R := by
  refine modify_bind (fun r hr => ?_) h
  split
  · next hblank =>
    have htokens : Reading.tokens { r with held := some r.front, ahead := r.ahead.tail } = r.tokens := by
      obtain ⟨hheld, hkind⟩ := Bool.and_eq_true_iff.1 hblank
      cases hahead : r.ahead with
      | nil =>
        rw [Reading.front, hahead, List.headD_nil, hr.eof, Stream.eof_ofText] at hkind
        cases hkind
      | cons t ts => simp [Reading.tokens, Reading.front, hahead, Option.isNone_iff_eq_none.1 hheld]
    have hsuffix : r.ahead.tail <:+ (Stream.ofText text).ahead := (List.tail_suffix _).trans hr.suffix
    exact ⟨hr.source, hr.eof, hsuffix, htokens ▸ hr.mem, htokens ▸ hr.ascends, hr.pending⟩
  · exact hr

theorem dropHeld_bind {f : PUnit → Parser β} (h : ∀ x, Draws text Anywhere lo (f x) R) :
    Draws text K lo (Parser.dropHeld >>= f) R := by
  refine modify_bind (fun r hr => ⟨hr.source, hr.eof, hr.suffix, fun t ht => hr.mem t ?_, ?_, hr.pending⟩) h
  · rw [Reading.tokens, List.append_assoc]
    exact List.mem_append_right _ ht
  · have hascends := hr.ascends
    rw [Reading.tokens, List.append_assoc] at hascends
    exact hascends.right

/-! ### Nodes -/

/-- a node of which only that it can be read again matters -/
theorem plain {p : Parser Node} (h : Draws text K lo p (Node.Drawn text lower)) :
    Draws text K lo p fun n _ => n.Legible text := h.imp fun _ _ _ hn => hn.legible

theorem spanning_bind {f : Span → Parser β} (h : start ≤ stop → Draws text K lo (f ⟨start, stop⟩) R) :
    Draws text K lo (Parser.spanning start stop >>= f) R := by
  rw [Parser.spanning]
  by_cases hle : start ≤ stop
  · rw [if_pos hle, pure_bind]
    exact h hle
  · rw [if_neg hle]
    exact throw_bind

/-- a node that can be read again, from one boundary to another -/
theorem legible (hstart : Boundary text start) (hstop : Boundary text stop) (own : shape.Legible text ⟨start, stop⟩)
    (parts : AllLegible text shape.parts) :
    Draws text K lo (Parser.build start stop shape) fun n _ => n.Legible text :=
  spanning_bind fun hle => pure ⟨⟨hle, hstart, hstop⟩, own, by simp, parts⟩

/-- **A node that is built** from a boundary behind an edge to one before the edge that reading has come to. -/
theorem drawn (hstart : From text lower start) (hstop : UpTo text stop lo) (own : shape.Legible text ⟨start, stop⟩)
    (parts : AllLegible text shape.parts) :
    Draws text K lo (Parser.build start stop shape) (Node.Drawn text lower) :=
  spanning_bind fun hle =>
    pure ⟨⟨⟨hle, hstart.boundary, hstop.boundary⟩, own, by simp, parts⟩, hstart.le, hstop.le⟩

/-- what is read of a span of the text -/
theorem lexeme_bind {span : Span} {f : Lexeme → Parser β} (hspan : span.Selects text)
    (h : ∀ l, l.Copied text → l.span = span → Draws text Anywhere lo (f l) R) :
    Draws text K lo (Parser.lexeme span >>= f) R := by
  intro r hr _ y s hrun
  have hrest : (f ⟨span, slice r.source span⟩).run r = .ok (y, s) := hrun
  rw [hr.source] at hrest
  have hcopied : Lexeme.Copied text ⟨span, slice text span⟩ := hspan.slice?
  exact h _ hcopied rfl r hr trivial y s hrest

end Draws

end LpcStyle
