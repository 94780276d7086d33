import Mathlib.Tactic
import LpcStyle.Grammar.Declaration

/-!
Steps of reading that take tokens only. What they do does not depend on the comments that are parked already; the
comments that they park themselves go behind those.
-/

namespace LpcStyle

open Text LpcStyle.Parser

namespace Reading

/-- the state with comments parked before its own -/
def behind (r : Reading) (parked : List Comment) : Reading := { r with pending := parked ++ r.pending }

variable (r : Reading) (parked : List Comment)

theorem settle_behind : (r.behind parked).settle = r.settle.behind parked := by simp [settle, behind]

theorem dropRaw_behind : (r.behind parked).dropRaw = r.dropRaw.behind parked := by
  unfold dropRaw behind
  cases r.held <;> rfl

end Reading

/-- the comments that are parked before a step are neither looked at nor changed by it -/
def Parks {α : Type} (p : Parser α) : Prop :=
  ∀ r parked, p.run (r.behind parked) = (p.run r).map fun x => (x.1, x.2.behind parked)

namespace Parks

variable {α β σ : Type} {p q : Parser α} {f : α → Parser β}

/-! ## Putting steps together -/

theorem pure {x : α} : Parks (pure x : Parser α) := fun _ _ => rfl

theorem throw {failure : Failure} : Parks (throw failure : Parser α) := fun _ _ => rfl

theorem bind (hp : Parks p) (hf : ∀ x, Parks (f x)) : Parks (p >>= f) := by
  intro r parked
  rw [StateT.run_bind, StateT.run_bind, hp r parked]
  cases p.run r with
  | error failure => rfl
  | ok result => exact hf result.1 result.2 parked

theorem map {g : α → β} (hp : Parks p) : Parks (g <$> p) := by
  rw [map_eq_pure_bind]
  exact bind hp fun _ => pure

theorem ite {c : Prop} [Decidable c] (hp : Parks p) (hq : Parks q) : Parks (if c then p else q) := by
  split
  · exact hp
  · exact hq

theorem modifyGet {g : Reading → α × Reading} (hg : ∀ r parked, g (r.behind parked) = ((g r).1, (g r).2.behind parked)) :
    Parks (modifyGet g : Parser α) := fun r parked => congrArg Except.ok (hg r parked)

theorem mapM {γ : Type} {g : γ → Parser α} (hg : ∀ x, Parks (g x)) (xs : List γ) : Parks (xs.mapM g) := by
  induction xs with
  | nil => exact pure
  | cons x xs ih =>
    rw [List.mapM_cons]
    exact bind (hg x) fun _ => bind ih fun _ => pure

theorem iterate {step : σ → Parser (σ ⊕ α)} (hstep : ∀ u, Parks (step u)) (fuel : Nat) (init : σ) :
    Parks (iterate step fuel init) := by
  induction fuel generalizing init with
  | zero => exact throw
  | succ fuel ih =>
    refine bind (hstep init) fun x => ?_
    cases x with
    | inl u => exact ih u
    | inr y => exact pure

/-- **Loops.** -/
theorem loop {init : σ} {step : σ → Parser (σ ⊕ α)} (hstep : ∀ u, Parks (step u)) : Parks (loop init step) :=
  fun r parked => iterate hstep (r.remaining + 1) init r parked

/-! ## Basic steps -/

theorem refuse {cause : Cause} {span : Span} : Parks (refuse cause span : Parser α) := throw

theorem refuse_bind {cause : Cause} {span : Span} : Parks ((Parser.refuse cause span : Parser α) >>= f) := fun _ _ => rfl

theorem raw : Parks Parser.raw := fun _ _ => rfl

theorem takeRaw : Parks Parser.takeRaw := modifyGet fun r parked => by rw [r.dropRaw_behind]; rfl

theorem peek : Parks Parser.peek := modifyGet fun r parked => by rw [r.settle_behind]; rfl

theorem peekKind : Parks Parser.peekKind := bind peek fun _ => pure

theorem at_ (kind : Kind) : Parks (at? kind) := bind peek fun _ => pure

theorem atText (kind : Kind) (text : String) : Parks (atText? kind text) := bind peek fun _ => pure

theorem take : Parks Parser.take := by
  refine bind peek fun token => ?_
  cases token.fault with
  | some fault => exact refuse
  | none => exact takeRaw

theorem eat (kind : Kind) : Parks (eat? kind) := bind (at_ kind) fun _ => ite (bind take fun _ => pure) pure

theorem unexpected : Parks (unexpected : Parser α) := by
  refine bind peek fun token => ?_
  cases token.fault with
  | some fault => exact refuse
  | none => exact ite refuse refuse

theorem wanted {what : Wanted} : Parks (wanted what : Parser α) := by
  refine bind peek fun token => ?_
  cases token.fault with
  | some fault => exact refuse
  | none => exact refuse

theorem expect (kind : Kind) (what : Wanted) : Parks (expect kind what) := bind (at_ kind) fun _ => ite take wanted

theorem spanning (start stop : Nat) : Parks (spanning start stop) := ite pure throw

theorem lexeme (span : Span) : Parks (lexeme span) := fun _ _ => rfl

theorem takeComment : Parks Parser.takeComment := bind takeRaw fun _ => pure

theorem holdBlank : Parks Parser.holdBlank := modifyGet fun r parked => by
  rw [apply_ite (Reading.behind · parked)]
  rfl

theorem dropHeld : Parks Parser.dropHeld := fun _ _ => rfl

/-! ## Productions -/

theorem directiveLines (start : Grammar.DirectiveLines) : Parks (Grammar.directiveLines start) := by
  refine loop fun d => bind raw fun token => ?_
  cases token.fault with
  | some fault => exact refuse_bind
  | none =>
    dsimp only
    split
    · exact bind takeRaw fun _ => pure
    · exact bind takeRaw fun _ => pure
    · exact bind takeRaw fun _ => pure
    · exact bind takeRaw fun _ => pure
    · exact unexpected

theorem atName : Parks Grammar.atName := bind peek fun _ => pure

theorem atAmpersand : Parks Grammar.atAmpersand := atText _ _

theorem eatAmpersand : Parks Grammar.eatAmpersand? := bind atAmpersand fun _ => ite (bind take fun _ => pure) pure

theorem atDeclarator : Parks Grammar.atDeclarator :=
  bind atName fun _ => ite pure (bind peekKind fun _ => ite pure atAmpersand)

theorem lexemeBetween (first last : Token) : Parks (Grammar.lexemeBetween first last) :=
  bind (spanning _ _) fun span => lexeme span

theorem typeFrom (first : Token) : Parks (Grammar.typeFrom first) :=
  ite (bind (expect _ _) fun name => lexemeBetween first name) pure

theorem isTypeUsedAsName (modifiers : List Lexeme) (token : Token) : Parks (Grammar.isTypeUsedAsName modifiers token) :=
  ite (bind atDeclarator fun _ => pure) pure

theorem modifiers : Parks Grammar.modifiers := by
  refine bind (loop fun found => bind (eat _) fun token => ?_) fun _ => pure
  cases token with
  | some token => exact pure
  | none => exact pure

theorem statementEnd : Parks Grammar.statementEnd := by
  refine bind peekKind fun kind => ?_
  split
  · exact bind take fun _ => pure
  · exact bind take fun _ => pure
  · exact pure
  · exact pure
  · exact wanted

end Parks

end LpcStyle
