import Mathlib.Tactic
import LpcStyle.Grammar.Parse
import LpcStyle.Proofs.Token.Literal

/-!
What a run of the reader that gives a result is made of: runs of its steps, the rounds of a loop, and tokens that were
ahead behind nothing but blank lines and comments.
-/

namespace LpcStyle

open Text LpcStyle.Parser

/-! ## Steps -/

/-- what two steps give together comes from what each of them gives -/
theorem Parser.of_run_bind {α β : Type} {p : Parser α} {f : α → Parser β} {r r'' : Reading} {y : β}
    (h : (p >>= f).run r = .ok (y, r'')) : ∃ x r', p.run r = .ok (x, r') ∧ (f x).run r' = .ok (y, r'') := by
  rw [StateT.run_bind] at h
  cases hp : p.run r with
  | error e => simp [hp, Except.bind, Bind.bind] at h
  | ok result => exact ⟨result.1, result.2, rfl, by simpa [hp, Except.bind, Bind.bind] using h⟩

/-- a step that has a result is followed by the next one -/
theorem Parser.run_bind_of_run {α β : Type} {p : Parser α} {f : α → Parser β} {x : α} {r s : Reading}
    (h : p.run r = .ok (x, s)) : (p >>= f).run r = (f x).run s := by
  rw [StateT.run_bind, h]
  rfl

theorem Parser.run_iterate_again {σ α : Type} {step : σ → Parser (σ ⊕ α)} {fuel : Nat} {u w : σ} {r s : Reading}
    (h : (step u).run r = .ok (.inl w, s)) : (iterate step (fuel + 1) u).run r = (iterate step fuel w).run s :=
  run_bind_of_run h

theorem Parser.run_iterate_done {σ α : Type} {step : σ → Parser (σ ⊕ α)} {fuel : Nat} {u : σ} {y : α} {r s : Reading}
    (h : (step u).run r = .ok (.inr y, s)) : (iterate step (fuel + 1) u).run r = .ok (y, s) := run_bind_of_run h

/-- **What a loop leads to** comes from an invariant that every round keeps. -/
theorem Parser.of_run_loop {σ α : Type} {I : σ → Reading → Prop} {Q : α → Reading → Prop} {init : σ}
    {step : σ → Parser (σ ⊕ α)} {r s : Reading} {x : α} (h : (loop init step).run r = .ok (x, s)) (hinit : I init r)
    (hstep : ∀ u t, I u t → ∀ y v, (step u).run t = .ok (y, v) → y.elim (I · v) (Q · v)) : Q x s := by
  have hiterate (fuel : Nat) (u : σ) (t : Reading) (hI : I u t) (h : (iterate step fuel u).run t = .ok (x, s)) : Q x s := by
    induction fuel generalizing u t with
    | zero => cases h
    | succ fuel ih =>
      obtain ⟨y, v, hrun, h⟩ := Parser.of_run_bind h
      have hnext := hstep u t hI y v hrun
      cases y with
      | inl w => exact ih w v hnext h
      | inr y =>
        cases h
        exact hnext
  exact hiterate _ init r hinit h

/-- a loop ends with a round that says so -/
theorem Parser.last_of_run_loop {σ α : Type} {init : σ} {step : σ → Parser (σ ⊕ α)} {r s : Reading} {x : α}
    (h : (loop init step).run r = .ok (x, s)) : ∃ u t, (step u).run t = .ok (.inr x, s) := by
  refine Parser.of_run_loop (I := fun _ _ => True) (Q := fun x s => ∃ u t, (step u).run t = .ok (.inr x, s)) h trivial ?_
  intro u t _ y v hrun
  cases y with
  | inl w => trivial
  | inr y => exact ⟨u, t, hrun⟩

theorem Parser.run_raw_bind {α : Type} {f : Token → Parser α} {r : Reading} :
    (Parser.raw >>= f).run r = (f r.raw).run r := rfl

/-- **A list that no token closes** goes on to the end of the file. -/
theorem Grammar.raw_of_statementList {rules : Rules} {scope : Scope} {r s : Reading} {roots : List Node}
    (h : (statementList rules scope []).run r = .ok (roots, s)) : s.raw.kind = .endOfFile := by
  -- a round that goes on is not the last one
  have hnext {β : Type} {p : Parser β} {f : β → List Node} {t s : Reading} {x : List Node} {P : Prop}
      (h : (do let y ← p; return .inl (f y) : Parser (List Node ⊕ List Node)).run t = .ok (.inr x, s)) : P := by
    obtain ⟨y, u, -, hrun⟩ := Parser.of_run_bind h
    cases hrun
  obtain ⟨items, u, hloop, hrun⟩ := Parser.of_run_bind h
  cases hrun
  obtain ⟨items, t, hround⟩ := Parser.last_of_run_loop hloop
  rw [Parser.run_raw_bind] at hround
  split at hround
  · exact hnext hround
  · exact hnext hround
  · exact hnext (f := fun _ => addBlank t.raw items) hround
  · exact hnext (f := fun _ => items) hround
  · next hkind =>
    cases hround
    exact hkind
  · rw [List.contains_nil, if_neg Bool.false_ne_true] at hround
    obtain ⟨item, v, -, hround⟩ := Parser.of_run_bind hround
    exact hnext hround

/-! ## Tokens that are ahead -/

theorem Reading.raw_settle_settle (r : Reading) : r.settle.settle.raw = r.settle.raw := by
  simp [Reading.settle, Reading.raw, Reading.front, List.dropWhile_idempotent]

/-- a significant token stands behind nothing but blank lines and comments -/
theorem Reading.ahead_of_settle {r : Reading} (h : r.settle.raw.kind ≠ r.eof.kind) :
    ∃ trivia, (∀ u ∈ trivia, u.kind.isTrivia = true) ∧
      r.ahead = trivia ++ r.settle.raw :: r.settle.dropRaw.ahead := by
  refine ⟨r.ahead.takeWhile (·.kind.isTrivia), fun u hu => ?_, ?_⟩
  · simpa using List.mem_takeWhile_imp hu
  refine (@List.takeWhile_append_dropWhile _ (·.kind.isTrivia) r.ahead).symm.trans ?_
  cases hahead : r.ahead.dropWhile (·.kind.isTrivia) with
  | nil => simp [Reading.settle, Reading.raw, Reading.front, hahead] at h
  | cons u us => simp [Reading.settle, Reading.raw, Reading.front, Reading.dropRaw, hahead]

/-- a token that was taken is the significant one that was ahead -/
theorem Parser.eq_of_take {t : Token} {r r' : Reading} (h : Parser.take.run r = .ok (t, r')) :
    t = r.settle.raw ∧ r' = r.settle.dropRaw := by
  obtain ⟨u, r₁, hpeek, h⟩ := Parser.of_run_bind h
  cases hpeek
  cases hfault : r.settle.raw.fault with
  | some fault =>
    rw [hfault] at h
    cases h
  | none =>
    rw [hfault] at h
    cases h
    exact ⟨rfl, rfl⟩

/-- asking for a token that is not there gives no result -/
theorem Parser.wanted_ne_ok {α : Type} {what : Wanted} {r s : Reading} {x : α} :
    (Parser.wanted what).run r ≠ .ok (x, s) := by
  intro h
  obtain ⟨u, r', -, h⟩ := Parser.of_run_bind h
  cases hfault : u.fault <;> simp only [hfault] at h <;> cases h

/-- a token that was asked for stands behind nothing but blank lines and comments -/
theorem Reading.ahead_of_expect {k : Kind} {what : Wanted} {t : Token} {r s : Reading}
    (h : (Parser.expect k what).run r = .ok (t, s)) (hk : k ≠ r.eof.kind) :
    ∃ trivia, (∀ u ∈ trivia, u.kind.isTrivia = true) ∧ r.ahead = trivia ++ t :: s.ahead := by
  obtain ⟨found, r', hat, h⟩ := Parser.of_run_bind h
  cases hat
  by_cases hkind : r.settle.raw.kind = k
  · simp only [hkind, decide_true, if_true] at h
    obtain ⟨rfl, rfl⟩ := Parser.eq_of_take h
    have hdrop : r.settle.settle.dropRaw.ahead = r.settle.dropRaw.ahead := by
      simp [Reading.settle, Reading.dropRaw, List.dropWhile_idempotent]
    rw [Reading.raw_settle_settle, hdrop]
    exact Reading.ahead_of_settle (by rwa [hkind])
  · simp only [hkind, decide_false, Bool.false_eq_true, if_false] at h
    exact absurd h Parser.wanted_ne_ok

end LpcStyle
