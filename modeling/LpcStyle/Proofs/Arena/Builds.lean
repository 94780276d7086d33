import Mathlib.Tactic
import LpcStyle.Arena.Builder
import LpcStyle.Proofs.Arena.Owned
import LpcStyle.Proofs.Arena.Parks

/-!
Reading into a store goes along with reading into a tree. `Builds held q p R` says that `q` and `p`, from the same place
on and with the nodes `held` in hand, either both give results, which `R` relates, with the nodes that are in hand then, or
both end for the same reason. Whatever else is in hand is left as it is, so steps are put together one after another.
-/

namespace LpcStyle.Arena

open Text
open Store (Key)

/-- a tree and a store are read up to the same place, and some nodes are in hand besides the parked comments -/
structure Stands (held : Multiset Handle) (r : Reading) (s : State) : Prop where
  reading : s.reading = { r with pending := [] }
  owned : ∃ parked : List (Key × Comment), r.pending = parked.map (·.2) ∧ s.parked = parked.map (·.1) ∧
    Owned s.cells (held + ↑(parked.map Handle.ofComment))

namespace Stands

variable {held held' ms : Multiset Handle} {r : Reading} {s : State}

/-- nodes may be let go -/
theorem mono (h : Stands ms r s) (hle : held ≤ ms) : Stands held r s := by
  obtain ⟨hreading, parked, hpending, hparked, howned⟩ := h
  exact ⟨hreading, parked, hpending, hparked, howned.mono (Multiset.add_le_add_right hle)⟩

theorem lt_size {x : Handle} (h : Stands held r s) (hx : x ∈ held) : x.key.index < s.cells.size := by
  obtain ⟨-, parked, -, -, howned⟩ := h
  obtain ⟨c, hc, -⟩ := howned.cell (Multiset.mem_add.2 (.inl hx))
  exact Store.lt_size hc

theorem parkNew (h : Stands held r s) (comment : Comment) :
    Stands held { r with pending := r.pending ++ [comment] } (s.parkNew comment) := by
  obtain ⟨hreading, parked, hpending, hparked, howned⟩ := h
  refine ⟨hreading, parked ++ [((s.cells.alloc (.ofComment comment)).1, comment)], by simp [hpending], ?_, ?_⟩
  · simp [State.parkNew, State.alloc, hparked]
  · have hall := howned.allocComment comment
    rw [← Multiset.singleton_add] at hall
    rw [List.map_append, ← Multiset.coe_add, ← Multiset.add_assoc, Multiset.add_comm]
    exact hall

/-- **Tokens are taken**: the comments that are parked meanwhile get cells. -/
theorem read (h : Stands held r s) (r' : Reading) :
    Stands held (r'.behind r.pending) (r'.pending.foldl .parkNew { s with reading := { r' with pending := [] } }) := by
  have hfold (comments done : List Comment) (s : State) (h : Stands held { r' with pending := done } s) :
      Stands held { r' with pending := done ++ comments } (comments.foldl .parkNew s) := by
    induction comments generalizing done s with
    | nil => simpa using h
    | cons comment comments ih => simpa using ih (done ++ [comment]) _ (h.parkNew comment)
  exact hfold r'.pending r.pending _ ⟨rfl, h.owned⟩

end Stands

/-- comments that are parked leave the cells in the store as they are -/
theorem get?_foldl_parkNew (comments : List Comment) {s : State} {key : Key} (h : key.index < s.cells.size) :
    (comments.foldl State.parkNew s).cells.get? key = s.cells.get? key := by
  induction comments generalizing s with
  | nil => rfl
  | cons comment comments ih =>
    have hsize : (s.parkNew comment).cells.size = s.cells.size + 1 := Store.size_alloc s.cells (.ofComment comment)
    rw [List.foldl_cons, ih (by omega)]
    exact Store.get?_alloc_of_lt s.cells (.ofComment comment) h

/-- what a step from a state leads to: some nodes are in hand besides others, whose cells are as they were -/
structure Leads (s : State) (held others : Multiset Handle) (r' : Reading) (s' : State) : Prop where
  stands : Stands (held + others) r' s'
  stays : ∀ x ∈ others, s'.cells.get? x.key = s.cells.get? x.key

theorem Stands.leads {held others : Multiset Handle} {r : Reading} {s : State} (h : Stands (held + others) r s) :
    Leads s held others r s := ⟨h, fun _ _ => rfl⟩

/-- a change of the store that takes what is in hand, and leaves all others as they are -/
theorem Stands.change {held held' others : Multiset Handle} {r : Reading} {s : State} {changed : Option (Store Cell)}
    (h : Stands (held + others) r s)
    (hchange : ∀ ms, Owned s.cells (held + ms) →
      ∃ cells, changed = some cells ∧ Owned cells (held' + ms) ∧ ∀ x ∈ ms, cells.get? x.key = s.cells.get? x.key) :
    ∃ cells, changed = some cells ∧ Leads s held' others r { s with cells } := by
  obtain ⟨hreading, parked, hpending, hparked, hall⟩ := h
  rw [Multiset.add_assoc] at hall
  obtain ⟨cells, hchanged, howned, hstays⟩ := hchange _ hall
  rw [← Multiset.add_assoc] at howned
  refine ⟨cells, hchanged, ⟨hreading, parked, hpending, hparked, howned⟩, fun x hx => hstays x ?_⟩
  exact Multiset.mem_add.2 (.inl hx)

/-- a new cell, which takes what is in hand -/
theorem Stands.alloc {held held' others : Multiset Handle} {r : Reading} {s : State} {c : Cell}
    (h : Stands (held + others) r s)
    (halloc : ∀ ms, Owned s.cells (held + ms) → Owned (s.cells.alloc c).2 (held' + ms)) :
    Leads s held' others r { s with cells := (s.cells.alloc c).2 } := by
  obtain ⟨_, hcells, hleads⟩ := h.change fun ms howned =>
    ⟨(s.cells.alloc c).2, rfl, halloc ms howned, fun x hx => howned.get?_alloc (Multiset.mem_add.2 (.inr hx))⟩
  cases hcells
  exact hleads

/-- both have a result, and the results are related, or both end for the same reason -/
inductive Agrees {α β : Type} (Q : β → Reading → α → State → Prop) :
    Except Failure (β × Reading) → Except Halt (α × State) → Prop
  | ok {y : β} {r : Reading} {x : α} {s : State} (h : Q y r x s) : Agrees Q (.ok (y, r)) (.ok (x, s))
  | error (failure : Failure) : Agrees Q (.error failure) (.error (.reading failure))

theorem Agrees.mono {α β : Type} {Q Q' : β → Reading → α → State → Prop} {e : Except Failure (β × Reading)}
    {e' : Except Halt (α × State)} (h : Agrees Q e e') (hQ : ∀ y r x s, Q y r x s → Q' y r x s) : Agrees Q' e e' := by
  cases h with
  | ok h => exact .ok (hQ _ _ _ _ h)
  | error failure => exact .error failure

/-- `q` reads into a tree what `p` reads into the store -/
def Builds {α β : Type} (held : Multiset Handle) (q : Parser β) (p : Builder α)
    (R : β → α → Multiset Handle → Prop) : Prop :=
  ∀ others r s, Stands (held + others) r s →
    Agrees (fun y r' x s' => ∃ held', R y x held' ∧ Leads s held' others r' s') (q.run r) (p.run s)

/-! ## What results say -/

/-- one node -/
def One (n : Node) (key : Key) (held : Multiset Handle) : Prop := held = {⟨key, n⟩}

/-- a row of nodes -/
def Many (ns : List Node) (keys : List Key) (held : Multiset Handle) : Prop :=
  ∃ xs : List Handle, ns = xs.map Handle.node ∧ keys = xs.map Handle.key ∧ held = ↑xs

/-- a row of nodes that has a last one; the last one comes first -/
def Row (ns : List Node) (keys : List Key) (held : Multiset Handle) : Prop :=
  ∃ (last : Handle) (before : List Handle), ns = (last :: before).map Handle.node ∧
    keys = (last :: before).map Handle.key ∧ held = ↑(last :: before)

/-- a list up to its closing token -/
def Closed (y : List Node × Token) (x : List Key × Token) (held : Multiset Handle) : Prop := Many y.1 x.1 held ∧ y.2 = x.2

/-- a row of comments -/
def Comments (cs : List Comment) (keys : List Key) (held : Multiset Handle) : Prop :=
  ∃ parked : List (Key × Comment),
    cs = parked.map (·.2) ∧ keys = parked.map (·.1) ∧ held = ↑(parked.map Handle.ofComment)

/-- what a round of two loops leads to -/
def Round {β α ρ σ : Type} (I : ρ → σ → Multiset Handle → Prop) (R : β → α → Multiset Handle → Prop) :
    ρ ⊕ β → σ ⊕ α → Multiset Handle → Prop
  | .inl u, .inl v, held => I u v held
  | .inr y, .inr x, held => R y x held
  | _, _, _ => False

namespace Builds

variable {α β γ δ ρ σ : Type} {held given rest : Multiset Handle} {q q' : Parser β} {p p' : Builder α}
  {R : β → α → Multiset Handle → Prop} {S : δ → γ → Multiset Handle → Prop}
  {f : β → Parser δ} {g : α → Builder γ}

/-! ## Putting steps together -/

theorem mono {R' : β → α → Multiset Handle → Prop} (h : Builds held q p R)
    (hR : ∀ y x held, R y x held → R' y x held) :
    Builds held q p R' := fun others r s hs =>
  (h others r s hs).mono fun y _ x _ ⟨held', hheld', hleads⟩ => ⟨held', hR y x held' hheld', hleads⟩

theorem of_eq (heq : held = given) (h : Builds given q p R) : Builds held q p R := heq ▸ h

/-- nodes may be let go before a step -/
theorem drop (hle : given ≤ held) (h : Builds given q p R) : Builds held q p R := fun others r s hs =>
  h others r s (hs.mono (Multiset.add_le_add_right hle))

theorem pure {y : β} {x : α} (h : R y x held) : Builds held (pure y) (pure x) R := fun _ _ _ hs =>
  .ok ⟨held, h, hs.leads⟩

/-- **One step after another.** What the first does not need stays in hand. -/
theorem bind (heq : held = rest + given) (h : Builds given q p R)
    (hf : ∀ y x held', R y x held' → Builds (rest + held') (f y) (g x) S) : Builds held (q >>= f) (p >>= g) S := by
  intro others r s hs
  rw [heq, Multiset.add_comm rest, Multiset.add_assoc] at hs
  rw [StateT.run_bind, StateT.run_bind]
  have hfirst := h (rest + others) r s hs
  generalize q.run r = e at hfirst
  generalize p.run s = e' at hfirst
  cases hfirst with
  | ok hr =>
    obtain ⟨held', hheld', hs', hstays⟩ := hr
    rw [← Multiset.add_assoc, Multiset.add_comm held'] at hs'
    refine (hf _ _ held' hheld' others _ _ hs').mono ?_
    rintro y r' x s' ⟨held', hS, hlast, hstays'⟩
    exact ⟨held', hS, hlast, fun x hx => (hstays' x hx).trans (hstays x (Multiset.mem_add.2 (.inr hx)))⟩
  | error failure => exact .error failure

/-- one step after another, with all that is in hand -/
theorem andThen (h : Builds held q p R) (hf : ∀ y x held', R y x held' → Builds held' (f y) (g x) S) :
    Builds held (q >>= f) (p >>= g) S := by
  refine bind (Multiset.zero_add held).symm h fun y x held' hR => ?_
  rw [Multiset.zero_add]
  exact hf y x held' hR

/-- a step of the store for something that the tree has at once -/
theorem lift {y : β} {q : Parser δ} (h : Builds held (Pure.pure y) p R)
    (hf : ∀ x held', R y x held' → Builds held' q (g x) S) :
    Builds held q (p >>= g) S := by
  have hat : Builds held (Pure.pure y) p fun y' x held' => y' = y ∧ R y x held' := by
    intro others r s hs
    have hrun := h others r s hs
    generalize p.run s = e at hrun ⊢
    cases hrun with
    | ok hr =>
      obtain ⟨held', hR, hs'⟩ := hr
      exact .ok ⟨held', ⟨rfl, hR⟩, hs'⟩
  rw [← pure_bind y fun _ => q]
  exact andThen hat fun _ x held' hx => hf x held' hx.2

theorem map {f : β → δ} {g : α → γ} (h : Builds held q p fun y x held => S (f y) (g x) held) :
    Builds held (f <$> q) (g <$> p) S := by
  rw [map_eq_pure_bind, map_eq_pure_bind]
  exact andThen h fun y x held' hS => pure hS

theorem ite {c : Prop} [Decidable c] (hp : c → Builds held q p R) (hp' : ¬c → Builds held q' p' R) :
    Builds held (if c then q else q') (if c then p else p') R := by
  split
  · exact hp ‹_›
  · exact hp' ‹_›

/-- the step of one node -/
theorem one_bind {q : Parser Node} {p : Builder Key} {f : Node → Parser δ} {g : Key → Builder γ}
    (h : Builds 0 q p One) (hf : ∀ x : Handle, Builds (held + {x}) (f x.node) (g x.key) S) :
    Builds held (q >>= f) (p >>= g) S := by
  refine bind (Multiset.add_zero held).symm h ?_
  rintro n key _ rfl
  exact hf ⟨key, n⟩

/-- the step of one node, out of others -/
theorem onward_bind {q : Parser Node} {p : Builder Key} {f : Node → Parser δ} {g : Key → Builder γ}
    (heq : held = rest + given) (h : Builds given q p One) (hf : ∀ x : Handle, Builds (rest + {x}) (f x.node) (g x.key) S) :
    Builds held (q >>= f) (p >>= g) S := by
  refine bind heq h ?_
  rintro n key _ rfl
  exact hf ⟨key, n⟩

/-- the step of one node, out of all that is in hand -/
theorem one_then {q : Parser Node} {p : Builder Key} {f : Node → Parser δ} {g : Key → Builder γ} (h : Builds held q p One)
    (hf : ∀ x : Handle, Builds {x} (f x.node) (g x.key) S) : Builds held (q >>= f) (p >>= g) S := by
  refine andThen h ?_
  rintro n key _ rfl
  exact hf ⟨key, n⟩

/-- the step of a row of nodes -/
theorem many_bind {q : Parser (List Node)} {p : Builder (List Key)} {f : List Node → Parser δ} {g : List Key → Builder γ}
    (h : Builds 0 q p Many)
    (hf : ∀ xs : List Handle, Builds (held + ↑xs) (f (xs.map Handle.node)) (g (xs.map Handle.key)) S) :
    Builds held (q >>= f) (p >>= g) S := by
  refine bind (Multiset.add_zero held).symm h ?_
  rintro ns keys _ ⟨xs, rfl, rfl, rfl⟩
  exact hf xs

/-- the step of a row of nodes, out of others -/
theorem row_bind {q : Parser (List Node)} {p : Builder (List Key)} {f : List Node → Parser δ} {g : List Key → Builder γ}
    (heq : held = rest + given) (h : Builds given q p Row)
    (hf : ∀ (last : Handle) (before : List Handle), Builds (rest + ↑(last :: before))
      (f ((last :: before).map Handle.node)) (g ((last :: before).map Handle.key)) S) :
    Builds held (q >>= f) (p >>= g) S := by
  refine bind heq h ?_
  rintro ns keys _ ⟨last, before, rfl, rfl, rfl⟩
  exact hf last before

/-- a node that is missing -/
theorem none_bind {f : Option Node → Parser δ} {g : Option Key → Builder γ}
    (hf : ∀ x : Option Handle, Builds (held + ↑x.toList) (f (x.map Handle.node)) (g (x.map Handle.key)) S) :
    Builds held (Pure.pure none >>= f) (Pure.pure none >>= g) S := by
  rw [pure_bind, pure_bind]
  exact of_eq (Multiset.add_zero held).symm (hf none)

/-- a node where there might be none -/
theorem some_bind {q : Parser Node} {p : Builder Key} {f : Option Node → Parser δ} {g : Option Key → Builder γ}
    (h : Builds 0 q p One)
    (hf : ∀ x : Option Handle, Builds (held + ↑x.toList) (f (x.map Handle.node)) (g (x.map Handle.key)) S) :
    Builds held (some <$> q >>= f) (some <$> p >>= g) S := by
  simp only [map_eq_pure_bind, bind_assoc, pure_bind]
  exact one_bind h fun x => hf (some x)

/-- the step of a node that may be missing -/
theorem maybe_bind {c : Prop} [Decidable c] {q : Parser Node} {p : Builder Key} {f : Option Node → Parser δ}
    {g : Option Key → Builder γ} (h : Builds 0 q p One)
    (hf : ∀ x : Option Handle, Builds (held + ↑x.toList) (f (x.map Handle.node)) (g (x.map Handle.key)) S) :
    Builds held (if c then Pure.pure none >>= f else some <$> q >>= f)
      (if c then Pure.pure none >>= g else some <$> p >>= g) S :=
  ite (fun _ => none_bind hf) fun _ => some_bind h hf

/-- **Loops** in step with each other. -/
theorem loop {I : ρ → σ → Multiset Handle → Prop} {u : ρ} {v : σ}
    {step : ρ → Parser (ρ ⊕ β)} {step' : σ → Builder (σ ⊕ α)}
    (hinit : I u v held) (hstep : ∀ u v held, I u v held → Builds held (step u) (step' v) (Round I R)) :
    Builds held (Parser.loop u step) (Builder.loop v step') R := by
  have hiterate (fuel : Nat) (u : ρ) (v : σ) (held : Multiset Handle) (hI : I u v held) :
      Builds held (Parser.iterate step fuel u) (Builder.iterate step' fuel v) R := by
    induction fuel generalizing u v held with
    | zero => exact fun _ _ _ _ => .error .exhausted
    | succ fuel ih =>
      refine andThen (hstep u v held hI) fun w w' held' hround => ?_
      cases w with
      | inl u =>
        cases w' with
        | inl v => exact ih u v held' hround
        | inr x => exact hround.elim
      | inr y =>
        cases w' with
        | inl v => exact hround.elim
        | inr x => exact pure hround
  intro others r s hs
  have hremaining : s.reading.remaining = r.remaining := by rw [hs.reading]; rfl
  change Agrees _ ((Parser.iterate step (r.remaining + 1) u).run r) ((Builder.iterate step' (s.reading.remaining + 1) v).run s)
  rw [hremaining]
  exact hiterate _ u v held hinit others r s hs

/-- a loop over a node that grows -/
theorem oneLoop {x : Handle} {step : Node → Parser (Node ⊕ Node)} {step' : Key → Builder (Key ⊕ Key)}
    (hstep : ∀ x : Handle, Builds {x} (step x.node) (step' x.key) (Round One One)) :
    Builds {x} (Parser.loop x.node step) (Builder.loop x.key step') One := by
  refine loop (I := One) rfl ?_
  rintro n key _ rfl
  exact hstep ⟨key, n⟩

/-- a loop over a row of nodes -/
theorem manyLoop {step : List Node → Parser (List Node ⊕ List Node)} {step' : List Key → Builder (List Key ⊕ List Key)}
    (hstep : ∀ xs : List Handle, Builds ↑xs (step (xs.map Handle.node)) (step' (xs.map Handle.key)) (Round Many Many)) :
    Builds 0 (Parser.loop [] step) (Builder.loop [] step') Many := by
  refine loop (I := Many) ⟨[], rfl, rfl, rfl⟩ ?_
  rintro _ _ _ ⟨xs, rfl, rfl, rfl⟩
  exact hstep xs

/-! ## Tokens -/

/-- **A step that takes tokens only.** -/
theorem reading {q : Parser β} (hq : Parks q) : Builds held q (Builder.reading q) fun y x held' => x = y ∧ held' = held := by
  intro others r s hs
  have hrun : q.run r = (q.run s.reading).map fun x => (x.1, x.2.behind r.pending) := by
    have hbehind : s.reading.behind r.pending = r := by simp [hs.reading, Reading.behind]
    rw [← hq, hbehind]
  change Agrees _ _ (Builder.reading q s)
  rw [hrun, Builder.reading]
  cases q.run s.reading with
  | error failure => exact .error failure
  | ok result =>
    refine .ok ⟨held, ⟨rfl, rfl⟩, hs.read result.2, fun x hx => get?_foldl_parkNew _ (hs.lt_size ?_)⟩
    exact Multiset.mem_add.2 (.inr hx)

theorem reading_bind {q : Parser β} {g : β → Builder γ} (hq : Parks q) (h : ∀ y, Builds held (f y) (g y) S) :
    Builds held (q >>= f) (Builder.reading q >>= g) S := by
  refine andThen (reading hq) ?_
  rintro y _ _ ⟨rfl, rfl⟩
  exact h _

theorem refuse {cause : Cause} {span : Span} :
    Builds held (Parser.refuse cause span) (Builder.reading (Parser.refuse cause span)) R := fun _ _ _ _ => .error _

/-- the next token is the same one -/
theorem peek_eq {r : Reading} {s : State} (hs : Stands held r s) : s.reading.settle.raw = r.settle.raw := by
  rw [hs.reading]
  rfl

/-- a look at the next token before both refuse it -/
theorem peek_fails {f : Token → Parser β} {g : Token → Parser α}
    (h : ∀ t r r', ∃ failure, (f t).run r = .error failure ∧ (g t).run r' = .error failure) :
    Builds held (Parser.peek >>= f) (Builder.reading (Parser.peek >>= g)) R := by
  intro others r s hs
  obtain ⟨failure, hf, hg⟩ := h r.settle.raw r.settle s.reading.settle
  rw [← peek_eq hs] at hg
  have hq : (Parser.peek >>= f).run r = .error failure := hf
  have hp : (Parser.peek >>= g).run s.reading = .error failure := hg
  change Agrees _ _ (Builder.reading _ s)
  rw [hq, Builder.reading, hp]
  exact .error failure

theorem wanted {what : Wanted} : Builds held (Parser.wanted what) (Builder.reading (Parser.wanted what)) R := by
  refine peek_fails fun token r r' => ?_
  cases token.fault with
  | some fault => exact ⟨_, rfl, rfl⟩
  | none => exact ⟨_, rfl, rfl⟩

theorem wanted_bind {what : Wanted} :
    Builds held (Parser.wanted what >>= f) (Builder.reading (Parser.wanted what) >>= g) S :=
  andThen (R := fun _ _ _ => False) wanted fun _ _ _ h => h.elim

theorem refuse_bind {cause : Cause} {span : Span} :
    Builds held (Parser.refuse cause span >>= f) (Builder.reading (Parser.refuse cause span) >>= g) S :=
  fun _ _ _ _ => .error _

theorem unexpected : Builds held Parser.unexpected (Builder.reading Parser.unexpected) R := by
  refine peek_fails fun token r r' => ?_
  cases token.fault with
  | some fault => exact ⟨_, rfl, rfl⟩
  | none =>
    dsimp only
    split
    · exact ⟨_, rfl, rfl⟩
    · exact ⟨_, rfl, rfl⟩

/-- a look at the state of reading: what is ahead is the same -/
theorem get_bind {f : Reading → Parser δ} {g : State → Builder γ}
    (h : ∀ r s, s.reading.raw = r.raw → s.reading.onOwnLine = r.onOwnLine → s.reading.front = r.front →
      Builds held (f r) (g s) S) :
    Builds held (get >>= f) (get >>= g) S := fun others r s hs =>
  h r s (by rw [hs.reading]; rfl) (by rw [hs.reading]; rfl) (by rw [hs.reading]; rfl) others r s hs

/-! ## Cells -/

theorem run_bind_of_run {s s' : State} {x : α} (h : p.run s = .ok (x, s')) : (p >>= g).run s = (g x).run s' := by
  rw [StateT.run_bind, h]
  rfl

theorem run_update {key : Key} {change : Cell → Cell} {s : State} {cells : Store Cell}
    (h : s.cells.update? key change = some cells) : (Builder.update key change).run s = .ok ((), { s with cells }) := by
  unfold Builder.update
  rw [StateT.run_bind, StateT.run_get]
  simp only [pure_bind, h]
  rfl

/-- a step that only the store takes -/
theorem step_bind {q : Parser δ} (h : ∀ others r s, Stands (held + others) r s →
    ∃ x s' held', p.run s = .ok (x, s') ∧ Leads s held' others r s' ∧ Builds held' q (g x) S) :
    Builds held q (p >>= g) S := by
  intro others r s hs
  obtain ⟨x, s', held', hrun, ⟨hs', hstays⟩, hnext⟩ := h others r s hs
  rw [run_bind_of_run hrun]
  refine (hnext others r s' hs').mono ?_
  rintro y r' x s'' ⟨held', hS, hlast, hstays'⟩
  exact ⟨held', hS, hlast, fun x hx => (hstays' x hx).trans (hstays x hx)⟩

theorem run_cell {key : Key} {c : Cell} {s : State} (h : s.cells.get? key = some c) :
    (Builder.cell key).run s = .ok (c, s) := by
  unfold Builder.cell
  rw [StateT.run_bind, StateT.run_get]
  simp only [pure_bind, h]
  rfl

theorem cell_of_stands {x : Handle} {r : Reading} {s : State} {others : Multiset Handle}
    (hs : Stands (held + others) r s) (hx : x ∈ held) :
    ∃ c, (Builder.cell x.key).run s = .ok (c, s) ∧ s.cells.get? x.key = some c ∧ c.Bears s.cells x.node.branch := by
  obtain ⟨-, parked, -, -, howned⟩ := hs
  obtain ⟨c, hc, hbears⟩ := howned.cell (Multiset.mem_add.2 (.inl (Multiset.mem_add.2 (.inl hx))))
  exact ⟨c, run_cell hc, hc, hbears⟩

/-- the cell of a node in hand -/
theorem cell_bind {x : Handle} {q : Parser δ} {g : Cell → Builder γ} (hx : x ∈ held)
    (h : ∀ c, c.Fits x.node.branch.label → c.suffix.isSome = x.node.hasSuffix → Builds held q (g c) S) :
    Builds held q (Builder.cell x.key >>= g) S := by
  refine step_bind fun others r s hs => ?_
  obtain ⟨c, hrun, -, hbears⟩ := cell_of_stands hs hx
  refine ⟨c, s, held, hrun, hs.leads, h c hbears.fits ?_⟩
  obtain ⟨key, span, shape, suffix⟩ := x
  have hsuffix : Option.Rel (Lone s.cells) c.suffix suffix := hbears.suffix
  change c.suffix.isSome = suffix.isSome
  generalize c.suffix = key at hsuffix
  cases hsuffix <;> rfl

theorem span_eq {x : Handle} {c : Cell} (h : c.Fits x.node.branch.label) : c.span = x.node.span := by
  obtain ⟨key, span, shape, suffix⟩ := x
  exact h.span

/-- an end of the span of a node in hand -/
theorem edge_bind {x : Handle} {q : Parser δ} {g : Nat → Builder γ} (edge : Span → Nat) (hx : x ∈ held)
    (h : Builds held q (g (edge x.node.span)) S) :
    Builds held q ((do return edge (← Builder.cell x.key).span) >>= g) S := by
  rw [bind_assoc]
  refine cell_bind hx fun c hfits _ => ?_
  rw [pure_bind, span_eq hfits]
  exact h

theorem startOf_bind {x : Handle} {q : Parser δ} {g : Nat → Builder γ} (hx : x ∈ held)
    (h : Builds held q (g x.node.start) S) : Builds held q (Builder.startOf x.key >>= g) S := edge_bind Span.start hx h

theorem stopOf_bind {x : Handle} {q : Parser δ} {g : Nat → Builder γ} (hx : x ∈ held)
    (h : Builds held q (g x.node.stop) S) : Builds held q (Builder.stopOf x.key >>= g) S := edge_bind Span.stop hx h

/-- a new cell for a node of a form whose parts are in hand -/
theorem alloc_bind {span : Span} {q : Parser δ} {g : Key → Builder γ} (σ : Shape Handle) (hσ : σ.opening = none)
    (heq : held = rest + ↑σ.parts)
    (h : ∀ key, Builds (rest + {⟨key, .mk span (σ.map Handle.node) none⟩}) q (g key) S) :
    Builds held q (Builder.alloc { span, shape := σ.map Handle.key } >>= g) S := by
  refine step_bind fun others r s hs => ⟨_, _, _, rfl, hs.alloc fun ms howned => ?_, h _⟩
  rw [heq, Multiset.add_comm rest, Multiset.add_assoc] at howned
  rw [Multiset.add_comm rest, Multiset.add_assoc, Multiset.singleton_add]
  exact howned.build σ hσ

theorem alloc {span : Span} (σ : Shape Handle) (hσ : σ.opening = none) (heq : held = ↑σ.parts) :
    Builds held (Pure.pure (Node.mk span (σ.map Handle.node) none))
      (Builder.alloc { span, shape := σ.map Handle.key }) One := by
  rw [← bind_pure (Builder.alloc _)]
  exact alloc_bind σ hσ (heq.trans (Multiset.zero_add _).symm) fun key => pure rfl

/-- **A node of a form** is built of the parts in hand. -/
theorem build {start stop : Nat} (σ : Shape Handle) (hσ : σ.opening = none) (heq : held = ↑σ.parts) :
    Builds held (Parser.build start stop (σ.map Handle.node)) (Builder.build start stop (σ.map Handle.key)) One :=
  reading_bind (.spanning start stop) fun _ => alloc σ hσ heq

/-- a node that is one token -/
theorem leaf {token : Token} (σ : Shape Handle) (hσ : σ.opening = none) (heq : held = ↑σ.parts) :
    Builds held (Pure.pure (Parser.leaf token (σ.map Handle.node))) (Builder.leaf token (σ.map Handle.key)) One :=
  alloc σ hσ heq

/-- a suffix for a node in hand that has none -/
theorem setSuffix_bind {x : Handle} {c : Key × Comment} {q : Parser δ} {g : Unit → Builder γ}
    (hnone : x.node.hasSuffix = false) (heq : held = rest + {x} + {Handle.ofComment c})
    (h : Builds (rest + {⟨x.key, x.node.withSuffix c.2⟩}) q (g ()) S) :
    Builds held q (Builder.setSuffix x.key c.1 >>= g) S := by
  refine step_bind fun others r s hs => ?_
  have hsuffix (ms : Multiset Handle) (howned : Owned s.cells (held + ms)) :
      ∃ cells, (s.cells.update? x.key fun d => { d with suffix := some c.1 }) = some cells ∧
        Owned cells (rest + {⟨x.key, x.node.withSuffix c.2⟩} + ms) ∧
          ∀ y ∈ ms, cells.get? y.key = s.cells.get? y.key := by
    have hheld : held + ms = x ::ₘ Handle.ofComment c ::ₘ (rest + ms) := by
      rw [heq, ← Multiset.singleton_add, ← Multiset.singleton_add (Handle.ofComment c)]
      abel
    have hleft : rest + {⟨x.key, x.node.withSuffix c.2⟩} + ms = ⟨x.key, x.node.withSuffix c.2⟩ ::ₘ (rest + ms) := by
      rw [← Multiset.singleton_add]
      abel
    obtain ⟨cells, hcells, howned', hstays⟩ := (hheld ▸ howned).setSuffix hnone
    exact ⟨cells, hcells, hleft ▸ howned', fun y hy => hstays y (Multiset.mem_add.2 (.inr hy))⟩
  obtain ⟨cells, hcells, hleads⟩ := hs.change hsuffix
  exact ⟨(), _, _, run_update hcells, hleads, h⟩

/-- takes a comment into a cell of its own -/
theorem takeComment_bind {f : Comment → Parser δ} {g : Key → Builder γ}
    (h : ∀ c : Key × Comment, Builds (held + {Handle.ofComment c}) (f c.2) (g c.1) S) :
    Builds held (Parser.takeComment >>= f) (Builder.takeComment >>= g) S := by
  unfold Builder.takeComment
  rw [bind_assoc]
  refine reading_bind .takeComment fun comment => ?_
  exact alloc_bind (.comment comment.kind comment.text) rfl (Multiset.add_zero held).symm fun key => h (key, comment)

/-! ## Parked comments -/

theorem comments_bind {q : Parser (List Comment)} {p : Builder (List Key)} {f : List Comment → Parser δ}
    {g : List Key → Builder γ} (h : Builds 0 q p Comments)
    (hf : ∀ cs : List (Key × Comment),
      Builds (held + ↑(cs.map Handle.ofComment)) (f (cs.map (·.2))) (g (cs.map (·.1))) S) :
    Builds held (q >>= f) (p >>= g) S := by
  refine bind (Multiset.add_zero held).symm h ?_
  rintro _ _ _ ⟨cs, rfl, rfl, rfl⟩
  exact hf cs

theorem park_bind {c : Key × Comment} {f : Unit → Parser δ} {g : Unit → Builder γ}
    (heq : held = rest + {Handle.ofComment c}) (h : Builds rest (f ()) (g ()) S) :
    Builds held (Parser.park c.2 >>= f) (Builder.park c.1 >>= g) S := by
  intro others r s hs
  refine (h others { r with pending := r.pending ++ [c.2] } { s with parked := s.parked ++ [c.1] } ?_).mono
    fun _ _ _ _ ⟨held', hS, hlast, hstays⟩ => ⟨held', hS, hlast, hstays⟩
  obtain ⟨hreading, parked, hpending, hparked, howned⟩ := hs
  refine ⟨hreading, parked ++ [c], by simp [hpending], by simp [hparked], ?_⟩
  have hheld :
      rest + others + ↑((parked ++ [c]).map Handle.ofComment) = held + others + ↑(parked.map Handle.ofComment) := by
    rw [heq, List.map_append, ← Multiset.coe_add, List.map_singleton, Multiset.coe_singleton]
    abel
  exact hheld ▸ howned

theorem parkAll_bind {cs : List (Key × Comment)} {f : Unit → Parser δ} {g : Unit → Builder γ}
    (heq : held = rest + ↑(cs.map Handle.ofComment)) (h : Builds rest (f ()) (g ()) S) :
    Builds held ((cs.map (·.2)).forM Parser.park >>= f) ((cs.map (·.1)).forM Builder.park >>= g) S := by
  induction cs generalizing held with
  | nil => exact of_eq (heq.trans (Multiset.add_zero rest)) h
  | cons c cs ih =>
    change Builds held ((Parser.park c.2 >>= fun _ => (cs.map (·.2)).forM Parser.park) >>= f)
      ((Builder.park c.1 >>= fun _ => (cs.map (·.1)).forM Builder.park) >>= g) S
    rw [bind_assoc, bind_assoc]
    have hheld : held = rest + ↑(cs.map Handle.ofComment) + {Handle.ofComment c} := by
      rw [heq, List.map_cons, ← Multiset.cons_coe, ← Multiset.singleton_add]
      abel
    exact park_bind hheld (ih rfl)

theorem takeParked : Builds 0 Parser.takePending Builder.takeParked Comments := by
  intro others r s hs
  obtain ⟨hreading, parked, hpending, hparked, howned⟩ := hs
  refine .ok ⟨_, ⟨parked, hpending, hparked, rfl⟩, ⟨hreading, [], rfl, rfl, ?_⟩, fun _ _ => rfl⟩
  convert howned using 1
  simp only [List.map_nil, Multiset.coe_nil]
  abel

/-- what is left over of the comments that a node adopts -/
def Adopts (x : Handle) (y : Node × List Comment) (keys : List Key) (held : Multiset Handle) : Prop :=
  ∃ cs : List (Key × Comment),
    y.2 = cs.map (·.2) ∧ keys = cs.map (·.1) ∧ held = {⟨x.key, y.1⟩} + ↑(cs.map Handle.ofComment)

/-- **A node adopts the parked comments.** -/
theorem adoptParked {x : Handle} : Builds {x} (Parser.adoptPending x.node) (Builder.adoptParked x.key) (Adopts x) := by
  unfold Parser.adoptPending Builder.adoptParked
  refine comments_bind takeParked fun cs => ?_
  cases cs with
  | nil => exact pure ⟨[], rfl, rfl, rfl⟩
  | cons c cs =>
    refine cell_bind (x := x) (by simp) fun d _ hsuffix => ?_
    rw [hsuffix]
    simp only [List.map_cons, Node.adopt]
    by_cases hhas : x.node.hasSuffix = true
    · rw [if_pos hhas, if_pos hhas]
      exact pure ⟨c :: cs, rfl, rfl, rfl⟩
    · rw [if_neg hhas, if_neg hhas]
      have hheld : ({x} + ↑(Handle.ofComment c :: cs.map Handle.ofComment) : Multiset Handle) =
          ↑(cs.map Handle.ofComment) + {x} + {Handle.ofComment c} := by
        rw [← Multiset.cons_coe, ← Multiset.singleton_add]
        abel
      exact setSuffix_bind (by simpa using hhas) hheld (pure ⟨cs, rfl, rfl, Multiset.add_comm _ _⟩)

/-- **A node takes the comment that goes on on its last line.** -/
theorem trailingComment {x : Handle} :
    Builds {x} (Parser.trailingComment x.node) (Builder.trailingComment x.key) fun n _ held => held = {⟨x.key, n⟩} := by
  unfold Parser.trailingComment Builder.trailingComment
  refine get_bind fun r s hraw hline _ => cell_bind (x := x) (by simp) fun d _ hsuffix => ?_
  rw [hraw, hline, hsuffix]
  refine ite (fun hc => ?_) fun _ => pure rfl
  refine takeComment_bind fun c => ?_
  have hnone : x.node.hasSuffix = false := by
    simp only [Bool.and_eq_true, Bool.not_eq_true'] at hc
    exact hc.2
  rw [← bind_pure (Builder.setSuffix _ _)]
  have hheld : ({x} + {Handle.ofComment c} : Multiset Handle) = 0 + {x} + {Handle.ofComment c} := by rw [Multiset.zero_add]
  exact setSuffix_bind hnone hheld (pure (Multiset.zero_add _))

/-- a list up to its closing token -/
theorem closed_bind {q : Parser (List Node × Token)} {p : Builder (List Key × Token)} {f : List Node × Token → Parser δ}
    {g : List Key × Token → Builder γ} (h : Builds 0 q p Closed)
    (hf : ∀ (xs : List Handle) (close : Token), Builds (held + ↑xs) (f (xs.map Handle.node, close))
      (g (xs.map Handle.key, close)) S) : Builds held (q >>= f) (p >>= g) S := by
  refine bind (Multiset.add_zero held).symm h ?_
  rintro ⟨ns, close⟩ ⟨keys, _⟩ _ ⟨⟨xs, rfl, rfl, rfl⟩, rfl⟩
  exact hf xs close

end Builds

end LpcStyle.Arena
