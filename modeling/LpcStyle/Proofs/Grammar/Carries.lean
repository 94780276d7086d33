import Mathlib.Tactic
import LpcStyle.Proofs.Grammar.Runs
import LpcStyle.Proofs.Tree.Comments

/-!
Where comments go while a text is read. A state of reading owes the comments that are parked and those that stand ahead
outside preprocessor lines. `Carries K given p C` says that from a state of which `K` holds, what `p` gives carries, by
the load `C`, together with what is owed after it the comments that were given to `p` and those that were owed before it.
-/

namespace LpcStyle

open Text LpcStyle.Parser

/-- the comments among tokens outside preprocessor lines; `inside` if one is open -/
def commentsOutside : Bool → List Token → List Comment
  | _, [] => []
  | true, t :: ts => commentsOutside (t.kind ≠ .directiveEnd) ts
  | false, t :: ts => (if t.kind.isComment then [.ofToken t] else []) ++ commentsOutside (t.kind = .directive) ts

theorem commentsOutside_comment {t : Token} (h : t.kind.isComment = true) (ts : List Token) :
    commentsOutside false (t :: ts) = .ofToken t :: commentsOutside false ts := by
  have hdirective : t.kind ≠ .directive := by
    intro hkind
    rw [hkind] at h
    cases h
  simp [commentsOutside, h, hdirective]

theorem commentsOutside_other {t : Token} (h : t.kind.isComment = false) (hdirective : t.kind ≠ .directive)
    (ts : List Token) : commentsOutside false (t :: ts) = commentsOutside false ts := by
  simp [commentsOutside, h, hdirective]

/-- what is no comment adds nothing at the end -/
theorem commentsOutside_append {t : Token} (ht : t.kind.isComment = false) (inside : Bool) (ts : List Token) :
    commentsOutside inside (ts ++ [t]) = commentsOutside inside ts := by
  induction ts generalizing inside with
  | nil => cases inside <;> simp [commentsOutside, ht]
  | cons u ts ih => cases inside <;> simp only [List.cons_append, commentsOutside, ih]

theorem commentsOutside_trivia {ts : List Token} (h : ∀ t ∈ ts, t.kind.isTrivia = true) (us : List Token) :
    commentsOutside false (ts ++ us) = (ts.filter (·.kind.isComment)).map .ofToken ++ commentsOutside false us := by
  induction ts with
  | nil => rfl
  | cons t ts ih =>
    obtain ⟨ht, hts⟩ := List.forall_mem_cons.1 h
    cases hcomment : t.kind.isComment with
    | true =>
      have hfilter : (t :: ts).filter (·.kind.isComment) = t :: ts.filter (·.kind.isComment) := by simp [hcomment]
      rw [List.cons_append, commentsOutside_comment hcomment, ih hts, hfilter, List.map_cons, List.cons_append]
    | false =>
      have hblank : t.kind = .blankLines := by simpa [Kind.isTrivia, hcomment] using ht
      rw [List.cons_append, commentsOutside_other hcomment (by simp [hblank]), ih hts,
        List.filter_cons_of_neg (by simp [hcomment])]

namespace Reading

variable {r : Reading} {t : Token}

/-- only blank lines are held back, and the end of the file is what comes last and nothing before -/
structure Sane (r : Reading) : Prop where
  held : ∀ t ∈ r.held, t.kind = .blankLines
  eof : r.eof.kind = .endOfFile
  ahead : ∀ t ∈ r.ahead, t.kind ≠ .endOfFile

/-- the comments that are parked and those that stand ahead -/
def owed (r : Reading) : Multiset Comment := ↑r.pending + ↑(commentsOutside false r.ahead)

theorem Sane.settle (h : r.Sane) : r.settle.Sane :=
  ⟨by simp [Reading.settle], h.eof, fun t ht => h.ahead t ((List.dropWhile_sublist _).subset ht)⟩

theorem Sane.dropRaw (h : r.Sane) : r.dropRaw.Sane := by
  unfold Reading.dropRaw
  split
  · exact ⟨by simp, h.eof, h.ahead⟩
  · exact ⟨h.held, h.eof, fun t ht => h.ahead t (List.mem_of_mem_tail ht)⟩

theorem owed_settle (r : Reading) : r.settle.owed = r.owed := by
  have htrivia : ∀ t ∈ r.ahead.takeWhile (·.kind.isTrivia), t.kind.isTrivia = true := fun t => List.mem_takeWhile_imp
  have houtside := commentsOutside_trivia htrivia (r.ahead.dropWhile (·.kind.isTrivia))
  rw [List.takeWhile_append_dropWhile] at houtside
  rw [owed, owed, houtside, ← Multiset.coe_add, ← add_assoc]
  rfl

/-- what comes next is no comment and no blank line -/
theorem Sane.next_isTrivia (h : r.Sane) : r.settle.raw.kind.isTrivia = false := by
  have hraw : r.settle.raw = (r.ahead.dropWhile (·.kind.isTrivia)).headD r.eof := rfl
  rw [hraw]
  cases hahead : r.ahead.dropWhile (·.kind.isTrivia) with
  | nil =>
    rw [List.headD_nil, h.eof]
    rfl
  | cons t ts =>
    have hhead := List.head?_dropWhile_not (·.kind.isTrivia) r.ahead
    rw [hahead] at hhead
    simpa using hhead

/-- what comes next in the raw is what comes next if it is significant -/
theorem Sane.next_of_raw (h : r.Sane) (hraw : r.raw = t) (ht : t.kind.isTrivia = false) : r.settle.raw = t := by
  cases hheld : r.held with
  | some b =>
    have hb := h.held b (by simp [hheld])
    have : b = t := by simpa [raw, hheld] using hraw
    rw [← this, hb] at ht
    cases ht
  | none =>
    have hfront : r.front = t := by simpa [raw, hheld] using hraw
    cases hahead : r.ahead with
    | nil => simpa [raw, front, Reading.settle, hahead] using hfront
    | cons u us =>
      obtain rfl : u = t := by simpa [front, hahead] using hfront
      simp [raw, front, Reading.settle, hahead, ht]

/-- at the end of the file nothing stands ahead -/
theorem Sane.ahead_eq_nil (h : r.Sane) (hraw : r.raw.kind = .endOfFile) : r.ahead = [] := by
  cases hheld : r.held with
  | some b =>
    rw [raw, hheld, Option.getD_some, h.held b (by simp [hheld])] at hraw
    cases hraw
  | none =>
    cases hahead : r.ahead with
    | nil => rfl
    | cons t ts =>
      have ht : t.kind = .endOfFile := by simpa [raw, front, hheld, hahead] using hraw
      exact absurd ht (h.ahead t (by simp [hahead]))

/-- nothing is parked before a token that stands right ahead -/
theorem Sane.pending_settle (h : r.Sane) (ht : r.raw.kind.isTrivia = false) : r.settle.pending = r.pending := by
  have hheld : r.held = none := by
    cases hheld : r.held with
    | none => rfl
    | some b =>
      rw [raw, hheld, Option.getD_some, h.held b (by simp [hheld])] at ht
      cases ht
  cases hahead : r.ahead with
  | nil => simp [Reading.settle, hahead]
  | cons t ts =>
    have ht : t.kind.isTrivia = false := by simpa [raw, front, hheld, hahead] using ht
    simp [Reading.settle, hahead, ht]

/-- **The next token is no comment**, so taking it changes nothing unless a preprocessor line starts with it. -/
theorem Sane.owed_take (h : r.Sane) (hdirective : r.settle.raw.kind ≠ .directive) : r.settle.dropRaw.owed = r.owed := by
  have htrivia := h.next_isTrivia
  rw [← owed_settle r]
  have hraw : r.settle.raw = r.settle.ahead.headD r.eof := rfl
  rw [hraw] at htrivia hdirective
  change (↑r.settle.pending + ↑(commentsOutside false r.settle.ahead.tail) : Multiset Comment) = _
  rw [owed]
  cases hahead : r.settle.ahead with
  | nil => rfl
  | cons t ts =>
    rw [hahead, List.headD_cons] at htrivia hdirective
    rw [Kind.isTrivia, Bool.or_eq_false_iff] at htrivia
    rw [List.tail_cons, commentsOutside_other htrivia.1 hdirective]

theorem Sane.owed_takeComment (h : r.Sane) (hcomment : r.raw.kind.isComment = true) :
    {Comment.ofToken r.raw} + r.dropRaw.owed = r.owed := by
  have hheld : r.held = none := by
    cases hheld : r.held with
    | none => rfl
    | some b =>
      rw [raw, hheld, Option.getD_some, h.held b (by simp [hheld])] at hcomment
      cases hcomment
  have hraw : r.raw = r.front := by rw [raw, hheld, Option.getD_none]
  have hdrop : r.dropRaw = { r with ahead := r.ahead.tail } := by simp [Reading.dropRaw, hheld]
  rw [hraw] at hcomment ⊢
  rw [hdrop, owed, owed]
  cases hahead : r.ahead with
  | nil =>
    rw [front, hahead, List.headD_nil, h.eof] at hcomment
    cases hcomment
  | cons t ts =>
    rw [front, hahead, List.headD_cons] at hcomment ⊢
    rw [List.tail_cons, commentsOutside_comment hcomment, ← Multiset.cons_coe, ← Multiset.singleton_add]
    abel

theorem owed_dropBlank (hblank : r.raw.kind = .blankLines) : r.dropRaw.owed = r.owed := by
  cases hheld : r.held with
  | some b => simp [Reading.dropRaw, owed, hheld]
  | none =>
    have hdrop : r.dropRaw = { r with ahead := r.ahead.tail } := by simp [Reading.dropRaw, hheld]
    rw [hdrop, owed, owed]
    cases hahead : r.ahead with
    | nil => rfl
    | cons t ts =>
      have ht : t.kind = .blankLines := by simpa [raw, front, hheld, hahead] using hblank
      rw [List.tail_cons, commentsOutside_other (by rw [ht]; rfl) (by simp [ht])]

end Reading

/-! ## Loads -/

/-- the comments that results carry, and what is known of results -/
structure Load (α : Type) where
  amount : α → Multiset Comment
  fine : α → Prop

namespace Load

variable {α : Type}

/-- the same for every result -/
def same (given : Multiset Comment) : Load α := ⟨fun _ => given, fun _ => True⟩

def nothing : Load α := same 0

/-- a node that is no blank line -/
def node : Load Node := ⟨Node.comments, fun n => n.shape.isBlankLine = false⟩

/-- nodes of which the blank lines carry nothing -/
def nodes : Load (List Node) := ⟨commentsAll, fun ns => ∀ n ∈ ns, n.shape.isBlankLine = true → n.comments = 0⟩

/-- a list and the token that closes it -/
def list : Load (List Node × Token) := ⟨fun x => commentsAll x.1, fun _ => True⟩

/-- a part that may be missing -/
def node? : Load (Option Node) := ⟨comments?, fun _ => True⟩

/-- comments that are to be placed -/
def comments : Load (List Comment) := ⟨fun cs => ↑cs, fun _ => True⟩

/-- declarators, the newest one apart -/
def declarators : Load (Node × List Node) :=
  ⟨fun x => commentsAll (x.1 :: x.2), fun x => x.1.shape.isBlankLine = false⟩

@[simp] theorem amount_nothing (x : α) : nothing.amount x = 0 := rfl

@[simp] theorem amount_node (n : Node) : node.amount n = n.comments := rfl

@[simp] theorem amount_nodes (ns : List Node) : nodes.amount ns = commentsAll ns := rfl

@[simp] theorem amount_list (x : List Node × Token) : list.amount x = commentsAll x.1 := rfl

@[simp] theorem amount_declarators (x : Node × List Node) : declarators.amount x = x.1.comments + commentsAll x.2 := rfl

@[simp] theorem amount_node? (n : Option Node) : node?.amount n = comments? n := rfl

/-- what a round of a loop leads to -/
def or {σ : Type} (I : Load σ) (C : Load α) : Load (σ ⊕ α) := ⟨Sum.elim I.amount C.amount, Sum.elim I.fine C.fine⟩

end Load

/-- what is given to a step and owed before it is what its result carries and what is owed after it -/
def Carries {α : Type} (K : Reading → Prop) (given : Multiset Comment) (p : Parser α) (C : Load α) : Prop :=
  ∀ r, r.Sane → K r → ∀ x s, p.run r = .ok (x, s) → s.Sane ∧ C.amount x + s.owed = given + r.owed ∧ C.fine x

/-- nothing is known of the state -/
def Anywhere (_ : Reading) : Prop := True

/-- the token comes next, comments and blank lines aside -/
def Comes (t : Token) (r : Reading) : Prop := r.settle.raw = t

/-- the token comes next -/
def ComesRaw (t : Token) (r : Reading) : Prop := r.raw = t

namespace Carries

variable {α β σ : Type} {K L : Reading → Prop} {given extra : Multiset Comment} {p : Parser α} {f : α → Parser β}
  {C : Load α} {D : Load β} {t : Token}

/-! ## Putting steps together -/

theorem weaken (h : Carries L given p C) (hK : ∀ r, r.Sane → K r → L r) : Carries K given p C := fun r hr hKr =>
  h r hr (hK r hr hKr)

theorem anywhere (h : Carries Anywhere given p C) : Carries K given p C := h.weaken fun _ _ _ => trivial

theorem nextRaw (h : Carries (Comes t) given p C) (ht : t.kind.isTrivia = false) : Carries (ComesRaw t) given p C :=
  h.weaken fun _ hr hraw => hr.next_of_raw hraw ht

theorem pure {x : α} (h : C.amount x = given) (hx : C.fine x) : Carries K given (pure x) C := by
  intro r hr _ y s hrun
  cases hrun
  exact ⟨hr, by rw [h], hx⟩

theorem bind (h : Carries K given p C) (hf : ∀ x, C.fine x → Carries Anywhere (C.amount x) (f x) D) :
    Carries K given (p >>= f) D := by
  intro r hr hK y s hrun
  obtain ⟨x, r', hp, hrun⟩ := Parser.of_run_bind hrun
  obtain ⟨hr', hC, hx⟩ := h r hr hK x r' hp
  obtain ⟨hs, hD, hy⟩ := hf x hx r' hr' trivial y s hrun
  exact ⟨hs, hD.trans hC, hy⟩

/-- what is given besides stays beside the result -/
theorem onto (extra : Multiset Comment) (h : Carries K given p C)
    (hf : ∀ x, C.fine x → Carries Anywhere (extra + C.amount x) (f x) D) : Carries K (extra + given) (p >>= f) D := by
  intro r hr hK y s hrun
  obtain ⟨x, r', hp, hrun⟩ := Parser.of_run_bind hrun
  obtain ⟨hr', hC, hx⟩ := h r hr hK x r' hp
  obtain ⟨hs, hD, hy⟩ := hf x hx r' hr' trivial y s hrun
  exact ⟨hs, by rw [hD, add_assoc, hC, add_assoc], hy⟩

/-- a step that nothing is given to -/
theorem andThen (h : Carries K 0 p C) (hf : ∀ x, C.fine x → Carries Anywhere (given + C.amount x) (f x) D) :
    Carries K given (p >>= f) D := by
  have honto := h.onto given hf
  rwa [add_zero] at honto

/-- a step that carries nothing -/
theorem skip (h : Carries K 0 p .nothing) (hf : ∀ x, Carries Anywhere given (f x) D) : Carries K given (p >>= f) D := by
  refine h.andThen fun x _ => ?_
  have hzero : given + (Load.nothing : Load α).amount x = given := add_zero given
  rw [hzero]
  exact hf x

theorem map {g : α → β} (h : Carries K given p ⟨fun x => D.amount (g x), fun x => D.fine (g x)⟩) :
    Carries K given (g <$> p) D := by
  rw [map_eq_pure_bind]
  exact bind h fun x hx => pure rfl hx

theorem throw {e : Failure} : Carries K given (throw e : Parser α) C := by
  intro r _ _ x s hrun
  cases hrun

theorem ite {c : Prop} [Decidable c] {q : Parser α} (hp : c → Carries K given p C) (hq : ¬c → Carries K given q C) :
    Carries K given (if c then p else q) C := by
  by_cases h : c
  · rw [if_pos h]
    exact hp h
  · rw [if_neg h]
    exact hq h

/-- **Loops**: every round carries what the state of the loop holds. -/
theorem loop {init : σ} {step : σ → Parser (σ ⊕ α)} (I : Load σ) (hinit : I.amount init = given) (hfine : I.fine init)
    (hstep : ∀ u, I.fine u → Carries Anywhere (I.amount u) (step u) (I.or C)) :
    Carries K given (Parser.loop init step) C := by
  have hiterate (fuel : Nat) (u : σ) (hu : I.fine u) : Carries Anywhere (I.amount u) (Parser.iterate step fuel u) C := by
    induction fuel generalizing u with
    | zero => exact throw
    | succ fuel ih =>
      refine bind (hstep u hu) fun x hx => ?_
      cases x with
      | inl u => exact ih u hx
      | inr result => exact pure rfl hx
  intro r hr _
  rw [← hinit]
  exact hiterate _ init hfine r hr trivial

/-- a round that is followed by another one -/
theorem again {I : Load σ} {u : σ} (h : I.amount u = given) (hu : I.fine u) :
    Carries K given (Pure.pure (.inl u)) (I.or C) := pure h hu

/-- the last round -/
theorem done {I : Load σ} {x : α} (h : C.amount x = given) (hx : C.fine x) :
    Carries K given (Pure.pure (.inr x)) (I.or C) := pure h hx

/-! ## Looking at a token -/

theorem get_bind {f : Reading → Parser β} (h : ∀ r, r.Sane → K r → Carries (· = r) given (f r) D) :
    Carries K given (get >>= f) D := fun r hr hK => h r hr hK r hr rfl

theorem raw_bind {f : Token → Parser β} (h : ∀ t, Carries (ComesRaw t) given (f t) D) :
    Carries K given (Parser.raw >>= f) D := fun r hr _ => h r.raw r hr rfl

theorem peek_bind {f : Token → Parser β} (h : ∀ t, Carries (Comes t) given (f t) D) :
    Carries K given (Parser.peek >>= f) D := by
  intro r hr _ y s hrun
  obtain ⟨hs, hD, hy⟩ := h r.settle.raw r.settle hr.settle r.raw_settle_settle y s hrun
  exact ⟨hs, by rw [hD, r.owed_settle], hy⟩

/-- a token that comes next is seen again -/
theorem peekAgain_bind {f : Token → Parser β} (h : Carries (Comes t) given (f t) D) :
    Carries (Comes t) given (Parser.peek >>= f) D := by
  rintro r hr rfl y s hrun
  obtain ⟨hs, hD, hy⟩ := h r.settle hr.settle r.raw_settle_settle y s hrun
  exact ⟨hs, by rw [hD, r.owed_settle], hy⟩

theorem peekKind_bind {f : Kind → Parser β} (h : ∀ t, Carries (Comes t) given (f t.kind) D) :
    Carries K given (Parser.peekKind >>= f) D := by
  rw [Parser.peekKind, bind_assoc]
  simp only [pure_bind]
  exact peek_bind h

theorem at_bind {k : Kind} {f : Bool → Parser β} (h : ∀ t, Carries (Comes t) given (f (decide (t.kind = k))) D) :
    Carries K given (Parser.at? k >>= f) D := by
  rw [Parser.at?, bind_assoc]
  simp only [pure_bind]
  exact peek_bind h

theorem atText_bind {k : Kind} {text : String} {f : Bool → Parser β}
    (h : ∀ t, Carries (Comes t) given (f (decide (t.kind = k) && t.text == text.toList)) D) :
    Carries K given (Parser.atText? k text >>= f) D := by
  rw [Parser.atText?, bind_assoc]
  simp only [pure_bind]
  exact peek_bind h

/-! ## Taking a token -/

theorem refuse {cause : Cause} {span : Span} : Carries K given (Parser.refuse cause span : Parser α) C := throw

theorem unexpected : Carries K given (Parser.unexpected : Parser α) C := by
  refine peek_bind fun t => ?_
  cases t.fault with
  | some fault => exact refuse
  | none => exact ite (fun _ => refuse) fun _ => refuse

theorem wanted {what : Wanted} : Carries K given (Parser.wanted what : Parser α) C := by
  refine peek_bind fun t => ?_
  cases t.fault with
  | some fault => exact refuse
  | none => exact refuse

/-- nothing comes after a refusal -/
theorem refuse_bind {cause : Cause} {span : Span} {f : α → Parser β} :
    Carries K given (Parser.refuse cause span >>= f) D :=
  bind (C := ⟨fun _ => 0, fun _ => False⟩) refuse fun _ h => h.elim

theorem wanted_bind {what : Wanted} {f : α → Parser β} : Carries K given (Parser.wanted what >>= f) D :=
  bind (C := ⟨fun _ => 0, fun _ => False⟩) wanted fun _ h => h.elim

/-- **A token is taken** that does not start a preprocessor line. -/
theorem take (ht : t.kind ≠ .directive) : Carries (Comes t) given Parser.take (.same given) := by
  rintro r hr rfl u s hrun
  obtain ⟨-, rfl⟩ := Parser.eq_of_take hrun
  exact ⟨hr.settle.dropRaw, by rw [hr.owed_take ht]; rfl, trivial⟩

theorem take_bind (ht : t.kind ≠ .directive) {f : Token → Parser β} (h : ∀ u, Carries Anywhere given (f u) D) :
    Carries (Comes t) given (Parser.take >>= f) D := (take ht).bind fun u _ => h u

theorem expect_bind {k : Kind} {what : Wanted} (hk : k ≠ .directive) {f : Token → Parser β}
    (h : ∀ u, Carries Anywhere given (f u) D) : Carries K given (Parser.expect k what >>= f) D := by
  refine bind (C := .same given) (at_bind fun t => ite (fun ht => ?_) fun _ => wanted) fun u _ => h u
  exact take (by rwa [of_decide_eq_true ht])

theorem eat_bind {k : Kind} (hk : k ≠ .directive) {f : Option Token → Parser β}
    (hsome : ∀ u, Carries Anywhere given (f (some u)) D) (hnone : Carries Anywhere given (f none) D) :
    Carries K given (Parser.eat? k >>= f) D := by
  rw [Parser.eat?, bind_assoc]
  refine at_bind fun t => ?_
  by_cases ht : t.kind = k
  · simp only [ht, decide_true, if_true, bind_assoc, pure_bind]
    exact take_bind (by rwa [ht]) hsome
  · simp only [ht, decide_false, Bool.false_eq_true, if_false, pure_bind]
    exact hnone.anywhere

/-- a comment is taken as it stands -/
theorem takeComment_bind (ht : t.kind.isComment = true) {f : Comment → Parser β}
    (h : ∀ c, Carries Anywhere (given + {c}) (f c) D) : Carries (ComesRaw t) given (Parser.takeComment >>= f) D := by
  have htake : Carries (ComesRaw t) 0 Parser.takeComment ⟨fun c => {c}, fun _ => True⟩ := by
    rintro r hr rfl c s hrun
    cases hrun
    exact ⟨hr.dropRaw, by rw [zero_add, hr.owed_takeComment ht], trivial⟩
  exact htake.andThen fun c _ => h c

theorem takeBlank_bind (ht : t.kind = .blankLines) {f : Token → Parser β} (h : ∀ u, Carries Anywhere given (f u) D) :
    Carries (ComesRaw t) given (Parser.takeRaw >>= f) D := by
  have htake : Carries (ComesRaw t) given Parser.takeRaw (.same given) := by
    rintro r hr rfl u s hrun
    cases hrun
    exact ⟨hr.dropRaw, by rw [Reading.owed_dropBlank ht]; rfl, trivial⟩
  exact htake.bind fun u _ => h u

/-! ## Nodes -/

theorem spanning_bind {start stop : Nat} {f : Span → Parser β} (h : ∀ span, Carries Anywhere given (f span) D) :
    Carries K given (Parser.spanning start stop >>= f) D :=
  skip (ite (fun _ => pure rfl trivial) fun _ => throw) h

/-- a node of a form that is made of what was given -/
theorem build {start stop : Nat} {shape : Shape Node} (hform : shape.isComment = false ∧ shape.isBlankLine = false)
    (h : shape.comments = given) : Carries K given (Parser.build start stop shape) .node := by
  refine spanning_bind fun span => pure ?_ hform.2
  exact (Node.comments_mk hform.1).trans (by rw [h]; exact add_zero given)

theorem lexeme_bind {span : Span} {f : Lexeme → Parser β} (h : ∀ l, Carries Anywhere given (f l) D) :
    Carries K given (Parser.lexeme span >>= f) D :=
  skip (get_bind fun _ _ _ => pure rfl trivial) h

/-! ## Parked comments -/

/-- what is parked is owed again -/
theorem park {c : Comment} : Carries K {c} (Parser.park c) .nothing := by
  intro r hr _ x s hrun
  cases hrun
  refine ⟨⟨hr.held, hr.eof, hr.ahead⟩, ?_, trivial⟩
  change 0 + (↑(r.pending ++ [c]) + ↑(commentsOutside false r.ahead)) = {c} + r.owed
  rw [Reading.owed, ← Multiset.coe_add, Multiset.coe_singleton]
  abel

theorem parkAll (cs : List Comment) : Carries K ↑cs (cs.forM Parser.park) .nothing := by
  induction cs generalizing K with
  | nil => exact pure rfl trivial
  | cons c cs ih =>
    rw [← Multiset.cons_coe, ← Multiset.singleton_add, add_comm]
    refine park.onto ↑cs fun _ _ => ?_
    exact (add_zero (↑cs : Multiset Comment)).symm ▸ ih

theorem takePending_bind {f : List Comment → Parser β} (hK : ∀ r : Reading, K r → L { r with pending := [] })
    (h : ∀ cs, Carries L (given + ↑cs) (f cs) D) : Carries K given (Parser.takePending >>= f) D := by
  intro r hr hKr y s hrun
  obtain ⟨hs, hD, hy⟩ := h r.pending { r with pending := [] } ⟨hr.held, hr.eof, hr.ahead⟩
    (hK r hKr) y s hrun
  refine ⟨hs, hD.trans ?_, hy⟩
  simp only [Reading.owed, Multiset.coe_nil, zero_add, add_assoc]

/-- a comment on the last line of a node becomes its suffix -/
theorem trailingComment {n : Node} (hn : n.shape.isBlankLine = false) :
    Carries K n.comments (Parser.trailingComment n) .node := by
  unfold Parser.trailingComment
  refine get_bind fun r _ _ => ite (fun h => ?_) fun _ => pure rfl hn
  simp only [Bool.and_eq_true, Bool.not_eq_true'] at h
  obtain ⟨⟨hcomment, -⟩, hsuffix⟩ := h
  refine (takeComment_bind hcomment fun c => ?_).weaken fun s _ hs => by rw [ComesRaw, hs]
  exact pure (Node.comments_withSuffix hsuffix c) hn

theorem holdBlank : Carries K 0 Parser.holdBlank .nothing := by
  intro r hr _ x s hrun
  cases hrun
  dsimp only
  split
  · next h =>
    simp only [Bool.and_eq_true, decide_eq_true_eq] at h
    obtain ⟨hheld, hblank⟩ := h
    have hdrop := Reading.owed_dropBlank (r := { r with held := none }) hblank
    exact ⟨⟨by simpa using hblank, hr.eof, fun t ht => hr.ahead t (List.mem_of_mem_tail ht)⟩, congrArg (0 + ·) hdrop,
      trivial⟩
  · exact ⟨hr, rfl, trivial⟩

/-- what stands behind a held blank line comes next once that is dropped -/
theorem dropHeld_bind {r : Reading} (hr : r.front.kind.isTrivia = false) {f : Unit → Parser β}
    (h : Carries (Comes r.front) given (f ()) D) : Carries (· = r) given (Parser.dropHeld >>= f) D := by
  intro r' hsane hr' y s hrun
  subst hr'
  have hdrop : Reading.Sane { r' with held := none } := ⟨by simp, hsane.eof, hsane.ahead⟩
  exact h _ hdrop (hdrop.next_of_raw rfl hr) y s hrun

end Carries

end LpcStyle
