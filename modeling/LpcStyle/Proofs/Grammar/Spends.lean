import Mathlib.Tactic
import LpcStyle.Proofs.Grammar.Carries

/-!
How reading spends tokens. `Spends K n p Q` says that from a state with at most `n` tokens ahead, of which `K` holds,
`p` comes to a result that `Q` relates to the number of tokens left, or refuses the text; it never breaks off for want of
calls or rounds. There is a rule for each step of reading. A loop takes one round more than there are tokens at
most: a round that goes on leaves fewer tokens than it found, so the rounds that are allowed are never used up.
-/

namespace LpcStyle

open Text LpcStyle.Parser

namespace Reading

variable {r : Reading}

/-- looking ahead takes no token back -/
theorem remaining_settle (r : Reading) : r.settle.remaining ≤ r.remaining := by
  have hlength : (r.ahead.dropWhile (·.kind.isTrivia)).length ≤ r.ahead.length := (List.dropWhile_sublist _).length_le
  simp only [remaining, Reading.settle, Option.toList_none, List.length_nil]
  omega

theorem remaining_dropRaw (r : Reading) : r.dropRaw.remaining ≤ r.remaining := by
  unfold Reading.dropRaw
  split
  · simp [remaining]
  · simp only [remaining, List.length_tail]
    omega

/-- **A token that is taken is spent**, the end of the file aside. -/
theorem Sane.remaining_dropRaw_lt (h : r.Sane) (hraw : r.raw.kind ≠ .endOfFile) : r.dropRaw.remaining < r.remaining := by
  cases hheld : r.held with
  | some b => simp [Reading.dropRaw, remaining, hheld]
  | none =>
    have hdrop : r.dropRaw = { r with ahead := r.ahead.tail } := by simp [Reading.dropRaw, hheld]
    have hne : r.ahead ≠ [] := by
      intro hnil
      rw [raw, hheld, Option.getD_none, front, hnil, List.headD_nil] at hraw
      exact hraw h.eof
    have hpos : 0 < r.ahead.length := List.length_pos_iff.2 hne
    rw [hdrop]
    simp only [remaining, List.length_tail]
    omega

end Reading

/-- what a step may come to: a result that `Q` relates to the number of tokens left, or a refusal, but no want of calls -/
def Spent {α : Type} (Q : α → Nat → Prop) : Except Failure (α × Reading) → Prop
  | .ok (x, s) => s.Sane ∧ Q x s.remaining
  | .error failure => failure ≠ .exhausted

theorem Spent.imp {α : Type} {Q Q' : α → Nat → Prop} {result : Except Failure (α × Reading)}
    (h : Spent Q result) (hQ : ∀ x k, Q x k → Q' x k) : Spent Q' result := by
  cases result with
  | error failure => exact h
  | ok result => exact ⟨h.1, hQ _ _ h.2⟩

/-- from a state with at most `n` tokens ahead -/
def Spends {α : Type} (K : Reading → Prop) (n : Nat) (p : Parser α) (Q : α → Nat → Prop) : Prop :=
  ∀ r : Reading, r.Sane → K r → r.remaining ≤ n → Spent Q (p.run r)

/-- fewer tokens are left -/
abbrev Fewer {α : Type} (n : Nat) (_ : α) (k : Nat) : Prop := k < n

/-- a round of a loop that goes on leaves fewer tokens than `m`, the last one fewer than `n` -/
def Goes {σ α : Type} (m n : Nat) (x : σ ⊕ α) (k : Nat) : Prop := x.elim (fun _ => k < m) fun _ => k < n

namespace Spends

variable {α β σ : Type} {K L : Reading → Prop} {n m c : Nat} {p : Parser α} {f : α → Parser β}
  {Q Q' : α → Nat → Prop} {R : β → Nat → Prop} {t : Token}

/-! ## Putting steps together -/

theorem weaken (h : Spends L n p Q) (hK : ∀ r, r.Sane → K r → L r) : Spends K n p Q := fun r hr hKr =>
  h r hr (hK r hr hKr)

theorem anywhere (h : Spends Anywhere n p Q) : Spends K n p Q := h.weaken fun _ _ _ => trivial

theorem nextRaw (h : Spends (Comes t) n p Q) (ht : t.kind.isTrivia = false) : Spends (ComesRaw t) n p Q :=
  h.weaken fun _ hr hraw => hr.next_of_raw hraw ht

theorem imp (h : Spends K n p Q) (hQ : ∀ x k, Q x k → Q' x k) : Spends K n p Q' := fun r hr hK hn =>
  (h r hr hK hn).imp hQ

/-- what leaves fewer tokens than one number leaves fewer than every greater one -/
theorem mono (h : Spends K n p (Fewer m)) (hle : m ≤ c) : Spends K n p (Fewer c) :=
  h.imp fun _ _ hk => Nat.lt_of_lt_of_le hk hle

theorem pure {x : α} (h : ∀ k ≤ n, Q x k) : Spends K n (pure x) Q := fun _ hr _ hn => ⟨hr, h _ hn⟩

/-- nothing is taken any more -/
theorem done {x : α} (h : n < c) : Spends K n (Pure.pure x) (Fewer c) := pure fun _ hk => Nat.lt_of_le_of_lt hk h

/-- nothing is taken at all -/
theorem idle {x : α} : Spends K n (Pure.pure x) (Fewer (n + 1)) := done (Nat.lt_succ_self n)

/-- **One step after the other.** -/
theorem bind (h : Spends K n p Q) (hf : ∀ x m, Q x m → Spends Anywhere m (f x) R) : Spends K n (p >>= f) R := by
  intro r hr hK hn
  have hrun := h r hr hK hn
  rw [StateT.run_bind]
  cases hp : p.run r with
  | error failure =>
    rw [hp] at hrun
    exact hrun
  | ok result =>
    obtain ⟨x, s⟩ := result
    rw [hp] at hrun
    exact hf x s.remaining hrun.2 s hrun.1 trivial le_rfl

theorem map {g : α → β} (h : Spends K n p (Fewer c)) : Spends K n (g <$> p) (Fewer c) := by
  rw [map_eq_pure_bind]
  exact h.bind fun x m hm => done hm

theorem throw {failure : Failure} (h : failure ≠ .exhausted) : Spends K n (throw failure : Parser α) Q :=
  fun _ _ _ _ => h

theorem ite {b : Prop} [Decidable b] {q : Parser α} (hp : b → Spends K n p Q) (hq : ¬b → Spends K n q Q) :
    Spends K n (if b then p else q) Q := by
  split
  · next h => exact hp h
  · next h => exact hq h

theorem iterate {step : σ → Parser (σ ⊕ α)} (h : ∀ u m, m ≤ n → Spends Anywhere m (step u) (Goes m c)) (fuel : Nat)
    (u : σ) (hm : m ≤ n) (hfuel : m < fuel) : Spends Anywhere m (Parser.iterate step fuel u) (Fewer c) := by
  induction fuel generalizing u m with
  | zero => exact absurd hfuel (Nat.not_lt_zero m)
  | succ fuel ih =>
    refine (h u m hm).bind fun x k hk => ?_
    cases x with
    | inl v =>
      have hk : k < m := hk
      exact ih v (by omega) (by omega)
    | inr x => exact done hk

/-- **Loops**: the rounds that are allowed suffice, because each that goes on leaves fewer tokens. Of the first round more
may be known than of the others. -/
theorem loopFrom {init : σ} {step : σ → Parser (σ ⊕ α)} (hfirst : ∀ m ≤ n, Spends K m (step init) (Goes m c))
    (h : ∀ u m, m < n → Spends Anywhere m (step u) (Goes m c)) : Spends K n (Parser.loop init step) (Fewer c) := by
  intro r hr hK hn
  have hround : Spends K r.remaining (Parser.iterate step (r.remaining + 1) init) (Fewer c) := by
    refine (hfirst r.remaining hn).bind fun x k hk => ?_
    cases x with
    | inl v =>
      have hk : k < r.remaining := hk
      exact iterate (n := k) (fun u m hm => h u m (by omega)) r.remaining v le_rfl hk
    | inr x => exact done hk
  exact hround r hr hK le_rfl

theorem loop {init : σ} {step : σ → Parser (σ ⊕ α)} (h : ∀ u m, m ≤ n → Spends Anywhere m (step u) (Goes m c)) :
    Spends K n (Parser.loop init step) (Fewer c) :=
  loopFrom (fun m hm => (h init m hm).anywhere) fun u m hm => h u m hm.le

/-- a round that is followed by another one -/
theorem again (h : Spends K n p (Fewer m)) {g : α → σ} : Spends K n (p >>= fun x => Pure.pure (.inl (g x)))
    (Goes m c : σ ⊕ β → Nat → Prop) := h.bind fun _ _ hk => pure fun _ hle => Nat.lt_of_le_of_lt hle hk

/-- the round is followed by another one -/
theorem goOn {u : σ} (h : n < m) : Spends K n (Pure.pure (.inl u)) (Goes m c : σ ⊕ β → Nat → Prop) :=
  pure fun _ hk => Nat.lt_of_le_of_lt hk h

/-- the last round -/
theorem last {x : β} (h : n < c) : Spends K n (Pure.pure (.inr x)) (Goes m c : σ ⊕ β → Nat → Prop) :=
  pure fun _ hk => Nat.lt_of_le_of_lt hk h

/-! ## Looking at a token -/

theorem get_bind {f : Reading → Parser β} (h : ∀ r, r.Sane → K r → Spends (· = r) n (f r) R) :
    Spends K n (get >>= f) R := fun r hr hK hn => h r hr hK r hr rfl hn

theorem raw_bind {f : Token → Parser β} (h : ∀ t, Spends (ComesRaw t) n (f t) R) :
    Spends K n (Parser.raw >>= f) R := fun r hr _ hn => h r.raw r hr rfl hn

theorem peek_bind {f : Token → Parser β} (h : ∀ t, Spends (Comes t) n (f t) R) :
    Spends K n (Parser.peek >>= f) R := fun r hr _ hn =>
  h r.settle.raw r.settle hr.settle r.raw_settle_settle (r.remaining_settle.trans hn)

/-- a token that comes next is seen again -/
theorem peekAgain_bind {f : Token → Parser β} (h : Spends (Comes t) n (f t) R) :
    Spends (Comes t) n (Parser.peek >>= f) R := by
  rintro r hr rfl hn
  exact h r.settle hr.settle r.raw_settle_settle (r.remaining_settle.trans hn)

theorem peekKind_bind {f : Kind → Parser β} (h : ∀ t, Spends (Comes t) n (f t.kind) R) :
    Spends K n (Parser.peekKind >>= f) R := by
  rw [Parser.peekKind, bind_assoc]
  simp only [pure_bind]
  exact peek_bind h

theorem at_bind {k : Kind} {f : Bool → Parser β} (h : ∀ t, Spends (Comes t) n (f (decide (t.kind = k))) R) :
    Spends K n (Parser.at? k >>= f) R := by
  rw [Parser.at?, bind_assoc]
  simp only [pure_bind]
  exact peek_bind h

theorem atText_bind {k : Kind} {text : String} {f : Bool → Parser β}
    (h : ∀ t, Spends (Comes t) n (f (decide (t.kind = k) && t.text == text.toList)) R) :
    Spends K n (Parser.atText? k text >>= f) R := by
  rw [Parser.atText?, bind_assoc]
  simp only [pure_bind]
  exact peek_bind h

/-! ## Refusing -/

theorem refuse {cause : Cause} {span : Span} : Spends K n (Parser.refuse cause span : Parser α) Q := by
  refine throw ?_
  exact Failure.noConfusion

theorem unexpected : Spends K n (Parser.unexpected : Parser α) Q := by
  refine peek_bind fun t => ?_
  cases t.fault with
  | some fault => exact refuse
  | none => exact ite (fun _ => refuse) fun _ => refuse

theorem wanted {what : Wanted} : Spends K n (Parser.wanted what : Parser α) Q := by
  refine peek_bind fun t => ?_
  cases t.fault with
  | some fault => exact refuse
  | none => exact refuse

/-- nothing comes after a refusal -/
theorem never_bind (h : Spends K n p fun _ _ => False) : Spends K n (p >>= f) R := h.bind fun _ _ h => h.elim

/-! ## Taking a token -/

theorem take (ht : t.kind ≠ .endOfFile) : Spends (Comes t) n Parser.take (Fewer n) := by
  rintro r hr rfl hn
  have hpeek {f : Token → Parser Token} : (Parser.peek >>= f).run r = (f r.settle.raw).run r.settle := rfl
  rw [Parser.take, hpeek]
  cases r.settle.raw.fault with
  | some fault =>
    intro h
    cases h
  | none =>
    have hspent : r.settle.dropRaw.remaining < r.settle.remaining := hr.settle.remaining_dropRaw_lt ht
    exact ⟨hr.settle.dropRaw, hspent.trans_le (r.remaining_settle.trans hn)⟩

theorem take_bind (ht : t.kind ≠ .endOfFile) {f : Token → Parser β}
    (h : ∀ u m, m < n → Spends Anywhere m (f u) R) : Spends (Comes t) n (Parser.take >>= f) R := (take ht).bind h

/-- whatever comes next is taken -/
theorem takeAny : Spends K n Parser.take (Fewer (n + 1)) := by
  refine peek_bind fun t => ?_
  cases t.fault with
  | some fault => exact refuse
  | none => exact fun r hr _ hn => ⟨hr.dropRaw, Nat.lt_succ_of_le (r.remaining_dropRaw.trans hn)⟩

/-- a token of a kind is taken -/
theorem takeKind_bind {k : Kind} (ht : t.kind = k) (hk : k ≠ .endOfFile) {f : Token → Parser β}
    (h : ∀ u m, m < n → Spends Anywhere m (f u) R) : Spends (Comes t) n (Parser.take >>= f) R :=
  take_bind (by rwa [ht]) h

theorem expect {k : Kind} {what : Wanted} (hk : k ≠ .endOfFile) : Spends K n (Parser.expect k what) (Fewer n) :=
  at_bind fun t => ite (fun ht => take (by rwa [of_decide_eq_true ht])) fun _ => wanted

theorem expect_bind {k : Kind} {what : Wanted} (hk : k ≠ .endOfFile) {f : Token → Parser β}
    (h : ∀ u m, m < n → Spends Anywhere m (f u) R) : Spends K n (Parser.expect k what >>= f) R := (expect hk).bind h

theorem eat_bind {k : Kind} (hk : k ≠ .endOfFile) {f : Option Token → Parser β}
    (hsome : ∀ u m, m < n → Spends Anywhere m (f (some u)) R) (hnone : Spends Anywhere n (f none) R) :
    Spends K n (Parser.eat? k >>= f) R := by
  rw [Parser.eat?, bind_assoc]
  refine at_bind fun t => ?_
  by_cases ht : t.kind = k
  · simp only [ht, decide_true, if_true, bind_assoc, pure_bind]
    exact takeKind_bind ht hk hsome
  · simp only [ht, decide_false, Bool.false_eq_true, if_false, pure_bind]
    exact hnone.anywhere

/-- a token may be taken, and whether it is does not matter -/
theorem eat {k : Kind} (hk : k ≠ .endOfFile) : Spends K n (Parser.eat? k) (Fewer (n + 1)) :=
  at_bind fun t => ite
    (fun ht => takeKind_bind (of_decide_eq_true ht) hk fun _ _ hm => done (by omega)) fun _ => idle

/-- a token is taken as it stands -/
theorem takeRaw (ht : t.kind ≠ .endOfFile) : Spends (ComesRaw t) n Parser.takeRaw (Fewer n) := by
  rintro r hr rfl hn
  exact ⟨hr.dropRaw, Nat.lt_of_lt_of_le (hr.remaining_dropRaw_lt ht) hn⟩

theorem takeRaw_bind (ht : t.kind ≠ .endOfFile) {f : Token → Parser β}
    (h : ∀ u m, m < n → Spends Anywhere m (f u) R) : Spends (ComesRaw t) n (Parser.takeRaw >>= f) R :=
  (takeRaw ht).bind h

theorem takeComment (ht : t.kind ≠ .endOfFile) : Spends (ComesRaw t) n Parser.takeComment (Fewer n) :=
  takeRaw_bind ht fun _ _ hm => done hm

/-! ## Nodes and parked comments -/

theorem spanning {start stop : Nat} : Spends K n (Parser.spanning start stop) (Fewer (n + 1)) := by
  refine ite (fun _ => idle) fun _ => throw ?_
  exact Failure.noConfusion

theorem build {start stop : Nat} {shape : Shape Node} (h : n < c) :
    Spends K n (Parser.build start stop shape) (Fewer c) := spanning.bind fun _ m hm => done (by omega)

theorem lexeme {span : Span} : Spends K n (Parser.lexeme span) (Fewer (n + 1)) := get_bind fun _ _ _ => idle

/-- a change of what is parked spends nothing -/
theorem modify {g : Reading → Reading} (hsane : ∀ r : Reading, r.Sane → (g r).Sane)
    (hremaining : ∀ r : Reading, r.Sane → (g r).remaining ≤ r.remaining) :
    Spends K n (modify g : Parser Unit) (Fewer (n + 1)) := fun r hr _ hn =>
  ⟨hsane r hr, Nat.lt_succ_of_le ((hremaining r hr).trans hn)⟩

theorem park {comment : Comment} : Spends K n (Parser.park comment) (Fewer (n + 1)) :=
  modify (fun _ hr => ⟨hr.held, hr.eof, hr.ahead⟩) fun _ _ => le_rfl

theorem parkAll (comments : List Comment) : Spends K n (comments.forM Parser.park) (Fewer (n + 1)) := by
  induction comments generalizing K n with
  | nil => exact idle
  | cons comment comments ih =>
    refine park.bind fun _ m hm => ?_
    exact ih.mono hm

theorem takePending : Spends K n Parser.takePending (Fewer (n + 1)) := fun _ hr _ hn =>
  ⟨⟨hr.held, hr.eof, hr.ahead⟩, Nat.lt_succ_of_le hn⟩

theorem adoptPending {owner : Node} : Spends K n (Parser.adoptPending owner) (Fewer (n + 1)) :=
  takePending.bind fun _ _ hm => done hm

theorem trailingComment {owner : Node} : Spends K n (Parser.trailingComment owner) (Fewer (n + 1)) := by
  refine get_bind fun r _ _ => ite (fun h => ?_) fun _ => idle
  have hcomment : r.raw.kind ≠ .endOfFile := by
    intro heof
    simp [heof, Kind.isComment] at h
  refine ((takeComment hcomment).weaken fun s _ hs => by rw [ComesRaw, hs]).bind fun _ m hm => ?_
  exact done (by omega)

theorem holdBlank : Spends K n Parser.holdBlank (Fewer (n + 1)) := by
  refine modify (fun r hr => ?_) fun r hr => ?_
  · split
    · next h =>
      simp only [Bool.and_eq_true, decide_eq_true_eq] at h
      exact ⟨by simpa using h.2, hr.eof, fun t ht => hr.ahead t (List.mem_of_mem_tail ht)⟩
    · exact hr
  · split
    · next h =>
      simp only [Bool.and_eq_true, Option.isNone_iff_eq_none, decide_eq_true_eq] at h
      obtain ⟨hheld, hblank⟩ := h
      have hraw : r.raw.kind ≠ .endOfFile := by
        rw [Reading.raw, hheld, Option.getD_none, hblank]
        exact Kind.noConfusion
      have hspent : r.dropRaw.remaining < r.remaining := hr.remaining_dropRaw_lt hraw
      simp only [Reading.dropRaw, hheld, Reading.remaining, Option.toList_none, List.length_nil] at hspent
      simp only [Reading.remaining, Option.toList_some, List.length_singleton, hheld, Option.toList_none, List.length_nil]
      omega
    · exact le_rfl

/-- what stands behind a held blank line comes next once that is dropped -/
theorem dropHeld_bind {r : Reading} (hr : r.front.kind.isTrivia = false) {f : Unit → Parser β}
    (h : Spends (Comes r.front) n (f ()) R) : Spends (· = r) n (Parser.dropHeld >>= f) R := by
  rintro s hsane rfl hn
  have hdrop : Reading.Sane { s with held := none } := ⟨by simp, hsane.eof, hsane.ahead⟩
  refine h { s with held := none } hdrop (hdrop.next_of_raw rfl hr) (le_trans ?_ hn)
  simp [Reading.remaining]

end Spends

end LpcStyle
