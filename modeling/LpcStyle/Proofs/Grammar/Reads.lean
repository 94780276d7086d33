import Mathlib.Tactic
import LpcStyle.Grammar.Parse
import LpcStyle.Proofs.Token.Tiling

/-!
What a rule of the grammar does to the tokens of a source without comments and preprocessor lines. `Reads σ a p Q` says
that `p`, read where the tokens `a` are still to come, gives only results that `Q` relates to the tokens left. There is
one statement for each basic step, one for each way to put steps together, and one for loops.
-/

namespace LpcStyle

open Text Pattern LpcStyle.Parser

/-- the tokens that the grammar reads -/
def significant (ts : List Token) : List Token := ts.filter (!·.kind.isTrivia)

/-- a text without comments and preprocessor lines, and its tokens -/
structure Source where
  text : List Char
  tokens : List Token
  eof : Token
  eof_kind : eof.kind = .endOfFile
  kinds : ∀ t ∈ tokens, t.kind.isComment = false ∧ t.kind ≠ .directive ∧ t.kind ≠ .endOfFile
  spelt : ∀ t ∈ tokens, Spelt t.kind t.text
  tiled : Tiled True 0 text tokens

/-- reading stands before the significant tokens `a` of the source, and no comment is parked -/
structure Fits (σ : Source) (r : Reading) (a : List Token) : Prop where
  source : r.source = σ.text
  eof : r.eof = σ.eof
  pending : r.pending = []
  held : ∀ t ∈ r.held, t.kind = .blankLines
  suffix : r.ahead <:+ σ.tokens
  ahead : significant r.ahead = a

/-- from the tokens `a` on, `p` gives only results that `Q` relates to the tokens left -/
def Reads {α : Type} (σ : Source) (a : List Token) (p : Parser α) (Q : α → List Token → Prop) : Prop :=
  ∀ r, Fits σ r a → ∀ x r', p.run r = .ok (x, r') → ∃ b, Fits σ r' b ∧ Q x b

variable {σ : Source} {α β : Type} {a : List Token}

namespace Reads

variable {p : Parser α} {f : α → Parser β} {P Q : α → List Token → Prop} {R : β → List Token → Prop}

/-! ## Putting steps together -/

theorem mono (h : Reads σ a p P) (hPQ : ∀ x b, P x b → Q x b) : Reads σ a p Q := by
  intro r hr x r' hrun
  obtain ⟨b, hb, hP⟩ := h r hr x r' hrun
  exact ⟨b, hb, hPQ x b hP⟩

theorem pure {x : α} (h : Q x a) : Reads σ a (pure x) Q := by
  intro r hr y r' hrun
  cases hrun
  exact ⟨a, hr, h⟩

theorem bind (h : Reads σ a p P) (hf : ∀ x b, P x b → Reads σ b (f x) R) : Reads σ a (p >>= f) R := by
  intro r hr y r'' hrun
  rw [StateT.run_bind] at hrun
  cases hp : p.run r with
  | error e => simp [hp, Except.bind, Bind.bind] at hrun
  | ok result =>
    obtain ⟨x, r'⟩ := result
    obtain ⟨b, hb, hP⟩ := h r hr x r' hp
    rw [hp] at hrun
    exact hf x b hP r' hb y r'' hrun

theorem map {g : α → β} (h : Reads σ a p fun x b => R (g x) b) : Reads σ a (g <$> p) R := by
  rw [map_eq_pure_bind]
  exact bind h fun x b hx => pure hx

theorem throw {e : Failure} : Reads σ a (throw e : Parser α) Q := by
  intro r _ x r' hrun
  cases hrun

/-- the tokens ahead are the last ones of the source -/
theorem known (h : a <:+ significant σ.tokens → Reads σ a p Q) : Reads σ a p Q := by
  intro r hr
  refine h ?_ r hr
  rw [← hr.ahead]
  exact hr.suffix.filter _

end Reads

/-! ## The next token -/

/-- the next token to be read -/
def Source.next (σ : Source) (a : List Token) : Token := a.headD σ.eof

@[simp] theorem Source.next_cons (t : Token) : σ.next (t :: a) = t := rfl

@[simp] theorem Source.next_nil : σ.next [] = σ.eof := rfl

theorem isTrivia_of_blankLines {k : Kind} (h : k = .blankLines) : k.isTrivia = true := by
  subst h
  rfl

theorem headD_dropWhile (ts : List Token) (e : Token) :
    (ts.dropWhile (·.kind.isTrivia)).headD e = (significant ts).headD e := by
  induction ts with
  | nil => rfl
  | cons t ts ih =>
    cases ht : t.kind.isTrivia with
    | true => simpa [significant, ht] using ih
    | false => simp [significant, ht]

theorem significant_dropWhile (ts : List Token) :
    significant (ts.dropWhile (·.kind.isTrivia)) = significant ts := by
  induction ts with
  | nil => rfl
  | cons t ts ih =>
    cases ht : t.kind.isTrivia with
    | true => simpa [significant, ht] using ih
    | false => simp [significant, ht]

theorem significant_tail_dropWhile (ts : List Token) :
    significant (ts.dropWhile (·.kind.isTrivia)).tail = (significant ts).tail := by
  induction ts with
  | nil => rfl
  | cons t ts ih =>
    cases ht : t.kind.isTrivia with
    | true => simpa [significant, ht] using ih
    | false => simp [significant, ht]

namespace Fits

variable {r : Reading}

theorem mem (hr : Fits σ r a) {t : Token} (ht : t ∈ a) : t ∈ σ.tokens := by
  rw [← hr.ahead] at ht
  exact hr.suffix.mem (List.mem_of_mem_filter ht)

theorem settle (hr : Fits σ r a) : Fits σ r.settle a where
  source := hr.source
  eof := hr.eof
  pending := by
    have hnone : ∀ t ∈ r.ahead.takeWhile (·.kind.isTrivia), t.kind.isComment = false := fun t ht =>
      (σ.kinds t (hr.suffix.mem ((List.takeWhile_sublist _).mem ht))).1
    simpa [Reading.settle, hr.pending] using hnone
  held := by simp [Reading.settle]
  suffix := (List.dropWhile_suffix _).trans hr.suffix
  ahead := by rw [← hr.ahead, Reading.settle, significant_dropWhile]

theorem raw_settle (hr : Fits σ r a) : r.settle.raw = σ.next a := by
  rw [Source.next, ← hr.ahead, ← hr.eof, ← headD_dropWhile]
  rfl

/-- the next token of any kind: blank lines, or the next one to be read -/
theorem raw (hr : Fits σ r a) : r.raw.kind = .blankLines ∨ r.raw = σ.next a := by
  cases hheld : r.held with
  | some t => exact .inl (by simpa [Reading.raw, hheld] using hr.held t (by simp [hheld]))
  | none =>
    rw [Source.next, ← hr.ahead, ← hr.eof]
    cases hahead : r.ahead with
    | nil => exact .inr (by simp [Reading.raw, Reading.front, hheld, hahead, significant])
    | cons t ts =>
      have hkind := σ.kinds t (hr.suffix.mem (by simp [hahead]))
      by_cases hblank : t.kind = .blankLines
      · exact .inl (by simpa [Reading.raw, Reading.front, hheld, hahead] using hblank)
      · refine .inr ?_
        have ht : t.kind.isTrivia = false := by simp [Kind.isTrivia, hkind.1, hblank]
        simp [Reading.raw, Reading.front, hheld, hahead, significant, ht]

theorem dropRaw_settle (hr : Fits σ r a) : Fits σ r.settle.dropRaw a.tail where
  source := hr.source
  eof := hr.eof
  pending := hr.settle.pending
  held := by simp [Reading.settle, Reading.dropRaw]
  suffix := (List.tail_suffix _).trans hr.settle.suffix
  ahead := by
    rw [← hr.ahead, ← significant_tail_dropWhile]
    rfl

/-- blank lines may be dropped -/
theorem dropRaw_blank (hr : Fits σ r a) (hblank : r.raw.kind = .blankLines) : Fits σ r.dropRaw a := by
  cases hheld : r.held with
  | some t =>
    have hdrop : r.dropRaw = { r with held := none } := by simp [Reading.dropRaw, hheld]
    rw [hdrop]
    exact ⟨hr.source, hr.eof, hr.pending, by simp, hr.suffix, hr.ahead⟩
  | none =>
    have hdrop : r.dropRaw = { r with ahead := r.ahead.tail } := by simp [Reading.dropRaw, hheld]
    rw [hdrop]
    refine ⟨hr.source, hr.eof, hr.pending, hr.held, (List.tail_suffix _).trans hr.suffix, ?_⟩
    rw [← hr.ahead]
    cases hahead : r.ahead with
    | nil => rfl
    | cons t ts =>
      have ht : t.kind = .blankLines := by simpa [Reading.raw, Reading.front, hheld, hahead] using hblank
      simp [significant, isTrivia_of_blankLines ht]

end Fits

/-- a next token that is not the end of the file stands ahead -/
theorem Source.eq_cons_of_next {k : Kind} (hk : k ≠ .endOfFile) (h : (σ.next a).kind = k) :
    ∃ t b, a = t :: b ∧ t.kind = k := by
  cases a with
  | nil => exact absurd (h.symm.trans σ.eof_kind) hk
  | cons t b => exact ⟨t, b, rfl, h⟩

namespace Reads

variable {f : α → Parser β} {Q : α → List Token → Prop} {R : β → List Token → Prop}

/-! ## Looking at a token and taking it -/

theorem peek {Q : Token → List Token → Prop} (h : Q (σ.next a) a) : Reads σ a Parser.peek Q := by
  intro r hr t r' hrun
  cases hrun
  exact ⟨a, hr.settle, by rwa [hr.raw_settle]⟩

theorem peek_bind {f : Token → Parser β} (h : Reads σ a (f (σ.next a)) R) : Reads σ a (Parser.peek >>= f) R :=
  bind (peek ⟨rfl, rfl⟩ : Reads σ a Parser.peek fun t b => t = σ.next a ∧ b = a) <| by
    rintro t b ⟨rfl, rfl⟩
    exact h

theorem peekKind_bind {f : Kind → Parser β} (h : Reads σ a (f (σ.next a).kind) R) :
    Reads σ a (Parser.peekKind >>= f) R :=
  bind (peek_bind (pure ⟨rfl, rfl⟩) : Reads σ a Parser.peekKind fun k b => k = (σ.next a).kind ∧ b = a) <| by
    rintro k b ⟨rfl, rfl⟩
    exact h

theorem at_bind {k : Kind} {f : Bool → Parser β} (h : Reads σ a (f (decide ((σ.next a).kind = k))) R) :
    Reads σ a (Parser.at? k >>= f) R :=
  bind (peek_bind (pure ⟨rfl, rfl⟩) :
    Reads σ a (Parser.at? k) fun x b => x = decide ((σ.next a).kind = k) ∧ b = a) <| by
    rintro x b ⟨rfl, rfl⟩
    exact h

theorem atText_bind {k : Kind} {text : String} {f : Bool → Parser β}
    (h : Reads σ a (f (decide ((σ.next a).kind = k) && (σ.next a).text == text.toList)) R) :
    Reads σ a (Parser.atText? k text >>= f) R :=
  bind (peek_bind (pure ⟨rfl, rfl⟩) : Reads σ a (Parser.atText? k text) fun x b =>
    x = (decide ((σ.next a).kind = k) && (σ.next a).text == text.toList) ∧ b = a) <| by
    rintro x b ⟨rfl, rfl⟩
    exact h

theorem take {Q : Token → List Token → Prop} (h : Q (σ.next a) a.tail) : Reads σ a Parser.take Q := by
  intro r hr t r' hrun
  have hpeek : Parser.peek.run r = .ok (r.settle.raw, r.settle) := rfl
  rw [Parser.take, StateT.run_bind, hpeek] at hrun
  simp only [Bind.bind, Except.bind] at hrun
  cases hfault : r.settle.raw.fault with
  | some fault =>
    rw [hfault] at hrun
    cases hrun
  | none =>
    rw [hfault] at hrun
    cases hrun
    exact ⟨a.tail, hr.dropRaw_settle, by rwa [hr.raw_settle]⟩

theorem take_bind {f : Token → Parser β} (h : Reads σ a.tail (f (σ.next a)) R) : Reads σ a (Parser.take >>= f) R :=
  bind (take ⟨rfl, rfl⟩ : Reads σ a Parser.take fun t b => t = σ.next a ∧ b = a.tail) <| by
    rintro t b ⟨rfl, rfl⟩
    exact h

/-- a look at what comes next, blank lines included -/
theorem raw_bind {f : Token → Parser β} (h : ∀ t, t.kind = .blankLines ∨ t = σ.next a → Reads σ a (f t) R) :
    Reads σ a (Parser.raw >>= f) R := by
  intro r hr y r' hrun
  exact h r.raw hr.raw r hr y r' hrun

/-- a look at what comes next, after which blank lines are taken -/
theorem raw_bind_takeRaw {f : Token → Parser β} {g : Token → Parser β}
    (hblank : ∀ t, t.kind = .blankLines → f t = Parser.takeRaw >>= fun _ => g t)
    (hg : ∀ t, t.kind = .blankLines → Reads σ a (g t) R) (h : Reads σ a (f (σ.next a)) R) :
    Reads σ a (Parser.raw >>= f) R := by
  intro r hr y r' hrun
  change (f r.raw).run r = .ok (y, r') at hrun
  rcases hr.raw with hraw | hraw
  · rw [hblank _ hraw] at hrun
    exact hg _ hraw r.dropRaw (hr.dropRaw_blank hraw) y r' hrun
  · rw [hraw] at hrun
    exact h r hr y r' hrun

/-- neither comments nor blank lines nor preprocessor lines are read next -/
theorem known_next {p : Parser α} (h : (σ.next a).kind.isTrivia = false → (σ.next a).kind ≠ .directive → Reads σ a p Q) :
    Reads σ a p Q := by
  refine known fun ha => ?_
  cases a with
  | nil =>
    refine h ?_ ?_
    · rw [Source.next_nil, σ.eof_kind]
      rfl
    · rw [Source.next_nil, σ.eof_kind]
      simp
  | cons t b =>
    obtain ⟨ht, htrivia⟩ := List.mem_filter.1 (ha.mem List.mem_cons_self)
    exact h (by simpa using htrivia) (σ.kinds t ht).2.1

/-! ## Refusing -/

theorem refuse {cause : Cause} {span : Span} : Reads σ a (Parser.refuse cause span : Parser α) Q := throw

theorem wanted {what : Wanted} : Reads σ a (Parser.wanted what : Parser α) Q := by
  refine peek_bind ?_
  cases (σ.next a).fault with
  | some fault => exact refuse
  | none => exact refuse

theorem unexpected : Reads σ a (Parser.unexpected : Parser α) Q := by
  refine peek_bind ?_
  cases (σ.next a).fault with
  | some fault => exact refuse
  | none =>
    dsimp only
    split
    · exact refuse
    · exact refuse

/-- nothing can be claimed wrongly of what is refused -/
theorem wanted_bind {what : Wanted} {f : α → Parser β} : Reads σ a (Parser.wanted what >>= f) R :=
  bind (P := fun _ _ => False) wanted (by simp)

/-! ## Tokens of a kind -/

theorem expect {k : Kind} {what : Wanted} {Q : Token → List Token → Prop} (hk : k ≠ .endOfFile)
    (h : ∀ t b, a = t :: b → t.kind = k → Q t b) : Reads σ a (Parser.expect k what) Q := by
  refine at_bind ?_
  by_cases hkind : (σ.next a).kind = k
  · obtain ⟨t, b, hab, ht⟩ := Source.eq_cons_of_next hk hkind
    simp only [hkind, decide_true, if_true]
    refine take ?_
    rw [hab]
    exact h t b hab ht
  · simp only [hkind, decide_false, Bool.false_eq_true, if_false]
    exact wanted

theorem expect_bind {k : Kind} {what : Wanted} {f : Token → Parser β} (hk : k ≠ .endOfFile)
    (h : ∀ t b, a = t :: b → t.kind = k → Reads σ b (f t) R) : Reads σ a (Parser.expect k what >>= f) R :=
  bind (expect hk fun _ _ hab ht => ⟨hab, ht⟩ :
    Reads σ a (Parser.expect k what) fun t b => a = t :: b ∧ t.kind = k) fun t b hb => h t b hb.1 hb.2

theorem eat_bind {k : Kind} {f : Option Token → Parser β} (hk : k ≠ .endOfFile)
    (hnone : (σ.next a).kind ≠ k → Reads σ a (f none) R)
    (hsome : ∀ t b, a = t :: b → t.kind = k → Reads σ b (f (some t)) R) : Reads σ a (Parser.eat? k >>= f) R := by
  refine bind (P := fun x b => (x = none ∧ b = a ∧ (σ.next a).kind ≠ k) ∨ ∃ t, x = some t ∧ a = t :: b ∧ t.kind = k)
    (at_bind ?_) ?_
  · by_cases hkind : (σ.next a).kind = k
    · obtain ⟨t, b, rfl, ht⟩ := Source.eq_cons_of_next hk hkind
      simp only [hkind, decide_true, if_true]
      exact take_bind (pure (.inr ⟨t, rfl, rfl, ht⟩))
    · simp only [hkind, decide_false, Bool.false_eq_true, if_false]
      exact pure (.inl ⟨rfl, rfl, hkind⟩)
  · rintro x b (⟨rfl, rfl, hkind⟩ | ⟨t, rfl, hab, ht⟩)
    · exact hnone hkind
    · exact hsome t b hab ht

/-! ## Nodes and source text -/

theorem spanning {start stop : Nat} {Q : Span → List Token → Prop} (h : Q ⟨start, stop⟩ a) :
    Reads σ a (Parser.spanning start stop) Q := by
  unfold Parser.spanning
  split
  · exact pure h
  · exact throw

theorem spanning_bind {start stop : Nat} {f : Span → Parser β} (h : Reads σ a (f ⟨start, stop⟩) R) :
    Reads σ a (Parser.spanning start stop >>= f) R :=
  bind (spanning ⟨rfl, rfl⟩ : Reads σ a (Parser.spanning start stop) fun x b => x = ⟨start, stop⟩ ∧ b = a) <| by
    rintro x b ⟨rfl, rfl⟩
    exact h

theorem build {start stop : Nat} {shape : Shape Node} {Q : Node → List Token → Prop}
    (h : Q (.mk ⟨start, stop⟩ shape none) a) : Reads σ a (Parser.build start stop shape) Q :=
  spanning_bind (pure h)

theorem build_bind {start stop : Nat} {shape : Shape Node} {f : Node → Parser β}
    (h : Reads σ a (f (.mk ⟨start, stop⟩ shape none)) R) : Reads σ a (Parser.build start stop shape >>= f) R :=
  bind (build ⟨rfl, rfl⟩ : Reads σ a (Parser.build start stop shape) fun n b =>
    n = .mk ⟨start, stop⟩ shape none ∧ b = a) <| by
    rintro n b ⟨rfl, rfl⟩
    exact h

/-- the state of reading itself -/
theorem get_bind {f : Reading → Parser β} (h : ∀ r, Fits σ r a → Reads σ a (f r) R) : Reads σ a (get >>= f) R := by
  intro r hr y r' hrun
  exact h r hr r hr y r' hrun

theorem modify {g : Reading → Reading} {Q : Unit → List Token → Prop} (hg : ∀ r, Fits σ r a → Fits σ (g r) a)
    (h : Q () a) : Reads σ a (modify g) Q := by
  intro r hr x r' hrun
  cases hrun
  exact ⟨a, hg r hr, h⟩

theorem lexeme {span : Span} {Q : Lexeme → List Token → Prop} (h : Q ⟨span, slice σ.text span⟩ a) :
    Reads σ a (Parser.lexeme span) Q := by
  refine get_bind fun r hr => pure ?_
  rwa [hr.source]

/-! ## Loops -/

theorem iterate {ι : Type} {step : ι → Parser (ι ⊕ α)} {Inv : ι → List Token → Prop}
    (hstep : ∀ s b, Inv s b → Reads σ b (step s) fun x c => x.elim (Inv · c) (Q · c)) (fuel : Nat) {s : ι}
    (h : Inv s a) : Reads σ a (Parser.iterate step fuel s) Q := by
  induction fuel generalizing s a with
  | zero => exact throw
  | succ fuel ih =>
    refine bind (hstep s a h) fun x b hx => ?_
    cases x with
    | inl s => exact ih hx
    | inr y => exact pure hx

/-- **Loops keep their invariant**: what every round keeps and the last one turns into the result holds after all. -/
theorem loop {ι : Type} {init : ι} {step : ι → Parser (ι ⊕ α)} (Inv : ι → List Token → Prop) (h : Inv init a)
    (hstep : ∀ s b, Inv s b → Reads σ b (step s) fun x c => x.elim (Inv · c) (Q · c)) :
    Reads σ a (Parser.loop init step) Q :=
  get_bind fun _ _ => iterate hstep _ h

end Reads

/-! ## Comments, which do not come, and blank lines -/

theorem Fits.raw_not_comment {r : Reading} (hr : Fits σ r a) : r.raw.kind.isComment = false := by
  rcases hr.raw with hraw | hraw
  · rw [hraw]
    rfl
  · rw [hraw]
    cases a with
    | nil =>
      rw [Source.next_nil, σ.eof_kind]
      rfl
    | cons t b => exact (σ.kinds t (hr.mem List.mem_cons_self)).1

namespace Reads

variable {Q : Node → List Token → Prop}

theorem trailingComment_bind {owner : Node} {f : Node → Parser β} {R : β → List Token → Prop}
    (h : Reads σ a (f owner) R) : Reads σ a (Parser.trailingComment owner >>= f) R := by
  refine bind (P := fun n b => n = owner ∧ b = a) (get_bind fun r hr => ?_) ?_
  · rw [hr.raw_not_comment]
    exact pure ⟨rfl, rfl⟩
  · rintro n b ⟨rfl, rfl⟩
    exact h

theorem takePending_bind {f : List Comment → Parser β} {R : β → List Token → Prop} (h : Reads σ a (f []) R) :
    Reads σ a (Parser.takePending >>= f) R := by
  refine bind (P := fun x b => x = [] ∧ b = a) ?_ ?_
  · intro r hr x r' hrun
    cases hrun
    exact ⟨a, ⟨hr.source, hr.eof, rfl, hr.held, hr.suffix, hr.ahead⟩, hr.pending, rfl⟩
  · rintro x b ⟨rfl, rfl⟩
    exact h

theorem addItem {items : List Node} {item : Node} {Q : List Node → List Token → Prop} (h : Q (item :: items) a) :
    Reads σ a (Grammar.addItem items item) Q := by
  refine bind (P := fun x b => x = (item, []) ∧ b = a) ?_ ?_
  · exact takePending_bind (pure ⟨rfl, rfl⟩)
  · rintro x b ⟨rfl, rfl⟩
    exact pure h

theorem addItem_bind {items : List Node} {item : Node} {f : List Node → Parser β} {R : β → List Token → Prop}
    (h : Reads σ a (f (item :: items)) R) : Reads σ a (Grammar.addItem items item >>= f) R :=
  bind (addItem ⟨rfl, rfl⟩ : Reads σ a (Grammar.addItem items item) fun ns b => ns = item :: items ∧ b = a) <| by
    rintro ns b ⟨rfl, rfl⟩
    exact h

theorem holdBlank {Q : Unit → List Token → Prop} (h : Q () a) : Reads σ a Parser.holdBlank Q := by
  refine modify (fun r hr => ?_) h
  split
  · next hblank =>
    simp only [Bool.and_eq_true, decide_eq_true_eq] at hblank
    refine ⟨hr.source, hr.eof, hr.pending, by simpa using hblank.2, (List.tail_suffix _).trans hr.suffix, ?_⟩
    rw [← hr.ahead]
    cases hahead : r.ahead with
    | nil => rfl
    | cons t ts =>
      have ht : t.kind = .blankLines := by simpa [Reading.front, hahead] using hblank.2
      simp [significant, isTrivia_of_blankLines ht]
  · exact hr

theorem dropHeld {Q : Unit → List Token → Prop} (h : Q () a) : Reads σ a Parser.dropHeld Q :=
  modify (fun _ hr => ⟨hr.source, hr.eof, hr.pending, by simp, hr.suffix, hr.ahead⟩) h

end Reads

/-- a token that is no blank lines and stands in front is the next one to be read -/
theorem Fits.front_eq {r : Reading} (hr : Fits σ r a) (hfront : r.front.kind.isTrivia = false) :
    r.front = σ.next a := by
  rw [Source.next, ← hr.ahead, ← hr.eof]
  cases hahead : r.ahead with
  | nil => simp [Reading.front, hahead, significant]
  | cons t ts =>
    have ht : t.kind.isTrivia = false := by simpa [Reading.front, hahead] using hfront
    simp [Reading.front, hahead, significant, ht]

end LpcStyle
