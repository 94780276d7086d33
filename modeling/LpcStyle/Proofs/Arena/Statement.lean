import Mathlib.Tactic
import LpcStyle.Arena.Statement
import LpcStyle.Grammar.Statement
import LpcStyle.Proofs.Arena.Declaration

/-!
Statements are built alike. A call that turns out to be a function keeps its cell. The keys of the callee and of the
arguments are read off that cell before the body is read, and put back into it afterwards: in between nothing else may
change it (`BuildsBeside`).
-/

namespace LpcStyle.Arena

open Text LpcStyle.Parser
open Store (Key)

variable {x : Handle} {rules : LpcStyle.Rules} {rules' : Rules}

theorem builds_headComments : Builds 0 Grammar.headComments headComments Comments := by
  unfold Grammar.headComments headComments
  refine .andThen (.loop (I := Comments) (R := Comments) ⟨[], rfl, rfl, rfl⟩ ?_) ?_
  · rintro _ _ _ ⟨cs, rfl, rfl, rfl⟩
    refine .reading_bind .raw fun token => .ite (fun _ => .takeComment_bind fun c => ?_) fun _ => .pure ⟨cs, rfl, rfl, rfl⟩
    exact .pure ⟨c :: cs, rfl, rfl, Multiset.add_comm _ _⟩
  · rintro _ _ _ ⟨cs, rfl, rfl, rfl⟩
    exact .pure ⟨cs.reverse, by simp, by simp, by simp⟩

theorem builds_placeholder : Builds 0 Grammar.placeholder placeholder One :=
  .reading_bind (.expect _ _) fun semicolon => .leaf (.literal .placeholder semicolon.text) rfl rfl

theorem builds_body (h : SameRules rules rules') : Builds 0 (Grammar.body rules) (body rules') One := by
  unfold Grammar.body body
  refine .comments_bind builds_headComments fun cs => .of_eq (Multiset.zero_add _) (.parkTail_bind ?_)
  refine .reading_bind (.at_ _) fun atBrace => ?_
  rw [List.head?_map, List.head?_map]
  refine .ite (fun _ => builds_block h cs.head?) fun _ => ?_
  have hrest : Builds 0 (do if ← at? .semicolon then Grammar.placeholder else rules.statement .block)
      (do if ← Builder.reading (at? .semicolon) then placeholder else rules'.statement .block) One :=
    .reading_bind (.at_ _) fun _ => .ite (fun _ => builds_placeholder) fun _ => h.statement _
  cases cs.head? with
  | none => exact hrest
  | some c => exact .park_bind (Multiset.zero_add _).symm hrest

theorem builds_condition (h : SameRules rules rules') : Builds 0 (Grammar.condition rules) (condition rules') One := by
  unfold Grammar.condition condition
  refine .reading_bind (.expect _ _) fun _ => .one_bind h.expression fun test => .reading_bind (.expect _ _) fun _ => ?_
  exact .pure rfl

theorem builds_ifElse (h : SameRules rules rules') : Builds 0 (Grammar.ifElse rules) (ifElse rules') One := by
  unfold Grammar.ifElse ifElse
  refine .reading_bind .take fun keyword => .reading_bind (.expect _ _) fun _ => .one_bind h.expression fun test => ?_
  refine .reading_bind (.at_ _) fun comma => ?_
  extract_lets join join'
  refine .ite (fun _ => .reading_bind .peek fun token => .refuse_bind) fun _ => ?_
  refine .reading_bind (.expect _ _) fun _ => .one_bind (builds_body h) fun consequent => .bind rfl .trailingComment ?_
  rintro n _ _ rfl
  refine .reading_bind .holdBlank fun _ => .get_bind fun r s _ _ hfront => ?_
  rw [hfront]
  refine .ite (fun _ => ?_) fun _ => ?_
  · refine .reading_bind .dropHeld fun _ => .reading_bind .take fun _ => .reading_bind (.at_ _) fun isIf => ?_
    extract_lets join join'
    have hjoin (alternate : Handle) :
        Builds (0 + {test} + {⟨consequent.key, n⟩} + {alternate}) (join alternate.node) (join' alternate.key) One := by
      refine .stopOf_bind (x := alternate) (by simp) ?_
      exact .build (.ifElse test ⟨consequent.key, n⟩ (some alternate)) rfl rfl
    exact .ite (fun _ => .one_bind (h.statement _) hjoin) fun _ => .one_bind (builds_body h) hjoin
  · refine .stopOf_bind (x := ⟨consequent.key, n⟩) (by simp) ?_
    exact .build (.ifElse test ⟨consequent.key, n⟩ none) rfl rfl

theorem builds_whileLoop (h : SameRules rules rules') : Builds 0 (Grammar.whileLoop rules) (whileLoop rules') One := by
  unfold Grammar.whileLoop whileLoop
  refine .reading_bind .take fun keyword => .one_bind (builds_condition h) fun test => .one_bind (builds_body h) fun body => ?_
  refine .stopOf_bind (x := body) (by simp) ?_
  exact .build (.whileLoop test body) rfl rfl

theorem builds_doWhile (h : SameRules rules rules') : Builds 0 (Grammar.doWhile rules) (doWhile rules') One := by
  unfold Grammar.doWhile doWhile
  refine .reading_bind .take fun keyword => .one_bind (builds_body h) fun body => .reading_bind (.expect _ _) fun _ => ?_
  refine .one_bind (builds_condition h) fun test => .reading_bind (.expect _ _) fun semicolon => ?_
  exact .build (.doWhile body test) rfl rfl

theorem builds_commaList (h : SameRules rules rules') : Builds 0 (Grammar.commaList rules) (commaList rules') One := by
  unfold Grammar.commaList commaList
  refine .one_bind h.expression fun first => .of_eq (Multiset.zero_add _) ?_
  -- the first expression stays the last one of the list, whose newest element comes first
  let I (ns : List Node) (keys : List Key) (held : Multiset Handle) : Prop := ∃ xs : List Handle,
    ns = (xs ++ [first]).map Handle.node ∧ keys = (xs ++ [first]).map Handle.key ∧ held = ↑(xs ++ [first])
  refine .andThen (.loop (I := I) (R := I) ⟨[], rfl, rfl, rfl⟩ ?_) ?_
  · rintro _ _ _ ⟨xs, rfl, rfl, rfl⟩
    refine .reading_bind (.eat _) fun comma => ?_
    cases comma with
    | none => exact .pure ⟨xs, rfl, rfl, rfl⟩
    | some _ => exact .one_bind h.expression fun x => .pure ⟨x :: xs, rfl, rfl, Multiset.add_comm _ _⟩
  · rintro _ _ _ ⟨xs, rfl, rfl, rfl⟩
    cases xs with
    | nil => exact .pure rfl
    | cons last before =>
      obtain ⟨second, others, hothers⟩ : ∃ second others, before ++ [first] = second :: others :=
        List.exists_cons_of_ne_nil (by simp)
      have hmem : first ∈ second :: others := hothers ▸ by simp
      rw [List.cons_append, hothers]
      refine .startOf_bind (x := first) (by simp [List.mem_cons.1 hmem]) (.stopOf_bind (x := last) (by simp) ?_)
      rw [← List.map_reverse, ← List.map_reverse, ← Multiset.coe_reverse]
      exact .build (.multiExpression (last :: second :: others).reverse) rfl rfl

theorem builds_forLoop (h : SameRules rules rules') : Builds 0 (Grammar.forLoop rules) (forLoop rules') One := by
  unfold Grammar.forLoop forLoop
  refine .reading_bind .take fun keyword => .reading_bind (.expect _ _) fun _ => .reading_bind .peekKind fun kind => ?_
  extract_lets join join'
  have hjoin (init : Option Handle) :
      Builds (0 + ↑init.toList) (join (init.map Handle.node)) (join' (init.map Handle.key)) One := by
    refine .reading_bind (.expect _ _) fun _ => .reading_bind (.at_ _) fun _ => .maybe_bind h.expression fun test => ?_
    refine .reading_bind (.expect _ _) fun _ => .reading_bind (.at_ _) fun _ => ?_
    refine .maybe_bind (builds_commaList h) fun update => ?_
    refine .reading_bind (.expect _ _) fun _ => .one_bind (builds_body h) fun body => .stopOf_bind (x := body) (by simp) ?_
    refine .build (.forLoop init test update body) rfl ?_
    simp [Shape.parts, ← Multiset.coe_add, Multiset.add_assoc]
  cases kind with
  | semicolon => exact .none_bind hjoin
  | modifier => exact .some_bind (builds_localDeclaration h) hjoin
  | typeWord => exact .some_bind (builds_localDeclaration h) hjoin
  | _ => exact .some_bind (builds_commaList h) hjoin

theorem builds_maybeRange (h : SameRules rules rules') : Builds 0 (Grammar.maybeRange rules) (maybeRange rules') One := by
  unfold Grammar.maybeRange maybeRange
  refine .one_bind h.expression fun first => .reading_bind (.eat _) fun range => ?_
  cases range with
  | none => exact .pure rfl
  | some _ =>
    refine .one_bind h.expression fun last => .startOf_bind (x := first) (by simp) (.stopOf_bind (x := last) (by simp) ?_)
    exact .build (.range first last) rfl rfl

theorem builds_foreachLoop (h : SameRules rules rules') :
    Builds 0 (Grammar.foreachLoop rules) (foreachLoop rules') One := by
  unfold Grammar.foreachLoop foreachLoop
  refine .reading_bind .take fun keyword => .reading_bind (.expect _ _) fun _ => ?_
  refine .many_bind (.manyLoop fun xs => ?_) fun xs => ?_
  · refine .one_bind h.argument fun x => .reading_bind (.eat _) fun comma => ?_
    cases comma with
    | none => exact .pure ⟨x :: xs, rfl, rfl, Multiset.add_comm _ _⟩
    | some _ => exact .pure ⟨x :: xs, rfl, rfl, Multiset.add_comm _ _⟩
  · refine .reading_bind (.expect _ _) fun _ => .one_bind (builds_maybeRange h) fun iterable => ?_
    refine .reading_bind (.expect _ _) fun _ => ?_
    refine .one_bind (builds_body h) fun body => .stopOf_bind (x := body) (by simp) ?_
    rw [← List.map_reverse, ← List.map_reverse, ← Multiset.coe_reverse xs]
    refine .build (.foreachLoop xs.reverse iterable body) rfl ?_
    rw [Multiset.zero_add, Multiset.add_assoc]
    rfl

theorem Builds.lastStop_bind {γ δ : Type} {held : Multiset Handle} {start : Nat} {xs : List Handle} {q : Parser δ}
    {g : Nat → Builder γ} {S : δ → γ → Multiset Handle → Prop} (hxs : ∀ x ∈ xs, x ∈ held)
    (h : Builds held q (g (((xs.map Handle.node).getLast?.map Node.stop).getD start)) S) :
    Builds held q (lastStop start (xs.map Handle.key) >>= g) S := by
  unfold lastStop
  rw [List.getLast?_map] at h ⊢
  cases hlast : xs.getLast? with
  | none =>
    rw [hlast] at h
    exact h
  | some x =>
    rw [hlast] at h
    exact .stopOf_bind (x := x) (hxs x (List.mem_of_getLast? hlast)) h

theorem builds_switchCase (h : SameRules rules rules') : Builds 0 (Grammar.switchCase rules) (switchCase rules') One := by
  unfold Grammar.switchCase switchCase
  refine .reading_bind .take fun keyword => ?_
  extract_lets join join'
  have hjoin (test : Option Handle) :
      Builds (0 + ↑test.toList) (join (test.map Handle.node)) (join' (test.map Handle.key)) One := by
    refine .reading_bind (.expect _ _) fun colon => .many_bind (builds_statementList h _ _) fun xs => ?_
    refine .lastStop_bind (fun x hx => by simp [hx]) ?_
    refine .build (.switchCase test xs) rfl ?_
    simp [Shape.parts, ← Multiset.coe_add]
  exact .ite (fun _ => .some_bind (builds_maybeRange h) hjoin) fun _ => .none_bind hjoin

theorem builds_switch (h : SameRules rules rules') : Builds 0 (Grammar.switch rules) (switch rules') One := by
  unfold Grammar.switch switch
  refine .reading_bind .take fun keyword => .one_bind (builds_condition h) fun test => .reading_bind (.expect _ _) fun _ => ?_
  refine .many_bind (.manyLoop fun xs => .reading_bind .raw fun token => ?_) fun xs => ?_
  · have hcomment : Builds ↑xs (do return .inl (.ofComment (← takeComment) :: xs.map Handle.node))
        (do return .inl ((← Builder.takeComment) :: xs.map Handle.key)) (Round Many Many) :=
      .takeComment_bind fun c => .pure ⟨.ofComment c :: xs, rfl, rfl, Multiset.add_comm _ _⟩
    have hcase : Builds ↑xs (do return .inl ((← Grammar.switchCase rules) :: xs.map Handle.node))
        (do return .inl ((← switchCase rules') :: xs.map Handle.key)) (Round Many Many) :=
      .one_bind (builds_switchCase h) fun x => .pure ⟨x :: xs, rfl, rfl, Multiset.add_comm _ _⟩
    cases token.kind with
    | lineComment => exact hcomment
    | blockComment => exact hcomment
    | blankLines => exact .reading_bind .takeRaw fun _ => .pure ⟨xs, rfl, rfl, rfl⟩
    | caseWord => exact hcase
    | defaultWord => exact hcase
    | _ => exact .pure ⟨xs, rfl, rfl, rfl⟩
  · refine .reading_bind (.expect _ _) fun close => ?_
    rw [← List.map_reverse, ← List.map_reverse, ← Multiset.coe_reverse xs]
    exact .build (.switch test xs.reverse) rfl rfl

theorem builds_returnValue (h : SameRules rules rules') :
    Builds 0 (Grammar.returnValue rules) (returnValue rules') One := by
  unfold Grammar.returnValue returnValue
  refine .reading_bind .take fun keyword => .reading_bind .peekKind fun kind => ?_
  extract_lets join join'
  have hjoin (argument : Option Handle) :
      Builds (0 + ↑argument.toList) (join (argument.map Handle.node)) (join' (argument.map Handle.key)) One := by
    have hbuild (stop : Nat) : Builds (0 + ↑argument.toList)
        (Parser.build keyword.span.start stop (.returnValue (argument.map Handle.node)))
        (Builder.build keyword.span.start stop (.returnValue (argument.map Handle.key))) One :=
      .build (.returnValue argument) rfl (Multiset.zero_add _)
    refine .reading_bind (.eat _) fun semicolon => ?_
    cases semicolon with
    | some semicolon => exact hbuild _
    | none =>
      refine .reading_bind (.at_ _) fun _ => .ite (fun _ => ?_) fun _ => .wanted
      rw [Option.toList_map]
      refine .lastStop_bind (fun x hx => by simpa using hx) ?_
      cases argument with
      | none => exact hbuild _
      | some x => exact hbuild _
  exact .maybe_bind h.expression hjoin

theorem builds_jump : Builds 0 Grammar.jump jump One := by
  unfold Grammar.jump jump
  refine .reading_bind .take fun keyword => .reading_bind (.expect _ _) fun semicolon => ?_
  exact .build (.jump (if keyword.kind = .breakWord then .breakOff else .goOn)) rfl rfl

/-! ## Calls that are functions -/

/-- as `Builds`, beside another node in hand whose cell is known -/
def BuildsBeside {α β : Type} (x : Handle) (c : Cell) (held : Multiset Handle) (q : Parser β) (p : Builder α)
    (R : β → α → Multiset Handle → Prop) : Prop :=
  ∀ others r s, Stands (held + ({x} + others)) r s → s.cells.get? x.key = some c →
    Agrees (fun y r' v s' => ∃ held', R y v held' ∧ Leads s held' others r' s') (q.run r) (p.run s)

namespace BuildsBeside

variable {α β γ δ : Type} {held : Multiset Handle} {c : Cell} {q : Parser β} {p : Builder α}
  {R : β → α → Multiset Handle → Prop} {S : δ → γ → Multiset Handle → Prop}
  {f : β → Parser δ} {g : α → Builder γ}

/-- the cell is not needed any more -/
theorem of_builds (h : Builds (held + {x}) q p R) : BuildsBeside x c held q p R := fun others r s hs _ =>
  h others r s (by rwa [Multiset.add_assoc])

/-- **The cell is the same after a step.** -/
theorem bind (h : Builds held q p R) (hf : ∀ y v held', R y v held' → BuildsBeside x c held' (f y) (g v) S) :
    BuildsBeside x c held (q >>= f) (p >>= g) S := by
  intro others r s hs hc
  rw [StateT.run_bind, StateT.run_bind]
  have hfirst := h ({x} + others) r s hs
  generalize q.run r = e at hfirst
  generalize p.run s = e' at hfirst
  cases hfirst with
  | ok hr =>
    obtain ⟨held', hheld', hs', hstays⟩ := hr
    have hsame := hstays x (Multiset.mem_add.2 (.inl (Multiset.mem_singleton_self x)))
    refine (hf _ _ held' hheld' others _ _ hs' (hsame.trans hc)).mono ?_
    rintro y r' v s' ⟨held', hS, hlast, hstays'⟩
    exact ⟨held', hS, hlast, fun y hy => (hstays' y hy).trans (hstays y (Multiset.mem_add.2 (.inr hy)))⟩
  | error failure => exact .error failure

theorem reading_bind {q : Parser β} {g : β → Builder γ} (hq : Parks q) (h : ∀ y, BuildsBeside x c held (f y) (g y) S) :
    BuildsBeside x c held (q >>= f) (Builder.reading q >>= g) S := by
  refine bind (.reading hq) ?_
  rintro y _ _ ⟨rfl, rfl⟩
  exact h _

theorem ite {d : Prop} [Decidable d] {q' : Parser β} {p' : Builder α} (hp : d → BuildsBeside x c held q p R)
    (hp' : ¬d → BuildsBeside x c held q' p' R) :
    BuildsBeside x c held (if d then q else q') (if d then p else p') R := by
  split
  · exact hp ‹_›
  · exact hp' ‹_›

/-- a look at cells -/
theorem look_bind {q : Parser δ} (h : ∀ others r s, Stands (held + {x} + others) r s → s.cells.get? x.key = some c →
    c.Bears s.cells x.node.branch → ∃ v, p.run s = .ok (v, s) ∧ BuildsBeside x c held q (g v) S) :
    BuildsBeside x c held q (p >>= g) S := by
  intro others r s hs hc
  have hs' : Stands (held + {x} + others) r s := by rwa [Multiset.add_assoc]
  obtain ⟨d, -, hd, hbears⟩ := Builds.cell_of_stands (x := x) hs' (by simp)
  obtain rfl := Option.some.inj (hc.symm.trans hd)
  obtain ⟨v, hrun, hnext⟩ := h others r s hs' hc hbears
  rw [Builds.run_bind_of_run hrun]
  exact hnext others r s hs hc

/-- an end of the span of a node in hand -/
theorem edge_bind {y : Handle} {q : Parser δ} {g : Nat → Builder γ} (edge : Span → Nat) (hy : y ∈ held + {x})
    (h : BuildsBeside x c held q (g (edge y.node.span)) S) :
    BuildsBeside x c held q ((do return edge (← Builder.cell y.key).span) >>= g) S := by
  rw [bind_assoc]
  refine look_bind fun others r s hs _ _ => ?_
  obtain ⟨d, hrun, -, hbears⟩ := Builds.cell_of_stands hs hy
  refine ⟨d, hrun, ?_⟩
  rw [pure_bind, Builds.span_eq hbears.fits]
  exact h

/-- **A call becomes a function**, with a body that is in hand. The keys are those that its cell had from the first. -/
theorem becomeFunction {callee : Key} {args : List Key} {callee' : Node} {args' : List Node} {span : Span}
    (body : Option Handle) (hc : c.shape = .call callee args) (hx : x.node.shape = .call callee' args') :
    BuildsBeside x c ↑body.toList
      (pure (.mk span (.function [] none false callee' args' (body.map Handle.node)) x.node.suffix))
      (do
        Builder.replace x.key (.function [] none false callee args (body.map Handle.key)) span
        return x.key) One := by
  intro others r s hs hget
  have hchange (ms : Multiset Handle) (howned : Owned s.cells (↑body.toList + {x} + ms)) :
      ∃ cells, (s.cells.update? x.key fun d =>
          { d with shape := .function [] none false callee args (body.map Handle.key), span }) = some cells ∧
        Owned cells
          ({⟨x.key, .mk span (.function [] none false callee' args' (body.map Handle.node)) x.node.suffix⟩} + ms) ∧
        ∀ y ∈ ms, cells.get? y.key = s.cells.get? y.key := by
    obtain ⟨d, hd, hbears⟩ := howned.cell (x := x) (by simp)
    obtain rfl := Option.some.inj (hget.symm.trans hd)
    obtain ⟨key, span', shape, suffix⟩ := x
    obtain rfl : shape = .call callee' args' := hx
    obtain ⟨y, ys, hcall, hopener, rfl, rfl, hgrown⟩ := hbears.call
    obtain ⟨rfl, rfl⟩ : callee = y.key ∧ args = ys.map Handle.key := by
      rw [hc] at hcall
      cases hcall
      exact ⟨rfl, rfl⟩
    have hheld : ↑body.toList + {⟨key, .mk span' (.call y.node (ys.map Handle.node)) suffix⟩} + ms =
        (⟨key, .mk span' (.call y.node (ys.map Handle.node)) suffix⟩ : Handle) ::ₘ (↑body.toList + ms) := by
      rw [← Multiset.singleton_add]
      abel
    rw [hheld] at howned
    refine howned.replace (.function [] none false y ys body) rfl hget hbears hopener ?_ ?_
    · rw [hcall]
      simp [Shape.parts]
    · intro z hz
      rcases List.mem_append.1 hz with hz | hz
      · exact hgrown z hz
      · exact howned.grown z (Multiset.mem_cons_of_mem (Multiset.mem_add.2 (.inl hz)))
  have hs' : Stands (↑body.toList + {x} + others) r s := by rwa [Multiset.add_assoc]
  obtain ⟨cells, hcells, hleads⟩ := hs'.change hchange
  unfold Builder.replace
  rw [Builds.run_bind_of_run (Builds.run_update hcells)]
  exact .ok ⟨_, rfl, hleads⟩

end BuildsBeside

theorem Builds.beside {γ δ : Type} {q : Parser δ} {g : Cell → Builder γ} {S : δ → γ → Multiset Handle → Prop}
    (h : ∀ c, c.Fits x.node.branch.label → BuildsBeside x c 0 q (g c) S) : Builds {x} q (Builder.cell x.key >>= g) S := by
  intro others r s hs
  obtain ⟨c, hrun, hc, hbears⟩ := cell_of_stands hs (Multiset.mem_singleton_self x)
  rw [run_bind_of_run hrun]
  exact h c hbears.fits others r s (by rwa [Multiset.zero_add]) hc

theorem Cell.Fits.isVarDecl {c : Cell} {n : Node} (h : c.Fits n.branch.label) : c.shape.isVarDecl = n.shape.isVarDecl :=
  h.ask Shape.isVarDecl (fun _ σ => by cases σ <;> rfl) fun σ => by cases σ <;> rfl

/-- a cell has the form of a call exactly if its node has it -/
theorem Cell.Fits.call_iff {c : Cell} {n : Node} (h : c.Fits n.branch.label) :
    (∃ callee args, c.shape = .call callee args) ↔ ∃ callee args, n.shape = .call callee args := by
  refine iff_of_eq (h.ask (fun σ => ∃ callee args, σ = .call callee args) (fun _ σ => ?_) fun σ => ?_)
  · cases σ <;> simp [Shape.map]
  · cases σ <;> simp [Shape.closed]

/-- the arguments are asked cell by cell -/
theorem run_anyVarDecl {s : State} {xs : List Handle} (h : ∀ x ∈ xs, Grown s.cells x.key x.node.branch) :
    (anyVarDecl (xs.map Handle.key)).run s = .ok ((xs.map Handle.node).any (·.shape.isVarDecl), s) := by
  obtain ⟨cells, hrun, hany⟩ : ∃ cells : List Cell, ((xs.map Handle.key).mapM Builder.cell).run s = .ok (cells, s) ∧
      cells.any (·.shape.isVarDecl) = (xs.map Handle.node).any (·.shape.isVarDecl) := by
    induction xs with
    | nil => exact ⟨[], rfl, rfl⟩
    | cons x xs ih =>
      obtain ⟨hx, hxs⟩ := List.forall_mem_cons.1 h
      obtain ⟨cells, hrun, hany⟩ := ih hxs
      obtain ⟨c, hc, hbears⟩ := grown_iff.1 hx
      refine ⟨c :: cells, ?_, ?_⟩
      · rw [List.map_cons, List.mapM_cons, Builds.run_bind_of_run (Builds.run_cell hc), Builds.run_bind_of_run hrun]
        rfl
      · rw [List.any_cons, List.map_cons, List.any_cons, hany, hbears.fits.isVarDecl]
  unfold anyVarDecl
  rw [Builds.run_bind_of_run hrun, hany]
  rfl

theorem builds_expressionStatement (h : SameRules rules rules') (scope : Scope) :
    Builds 0 (Grammar.expressionStatement rules scope) (expressionStatement rules' scope) One := by
  unfold Grammar.expressionStatement expressionStatement
  refine .one_then (builds_expression h) fun x => .beside fun c hfits => ?_
  have hplain : BuildsBeside x c 0 (do Grammar.statementEnd; return x.node)
      (do Builder.reading Grammar.statementEnd; return x.key) One :=
    .of_builds (.reading_bind .statementEnd fun _ => .pure (Multiset.zero_add _))
  split
  · next callee args hx =>
    obtain ⟨key, keys, hc⟩ := hfits.call_iff.2 ⟨callee, args, hx⟩
    simp only [hc]
    have hparts {cells : Store Cell} (hbears : c.Bears cells x.node.branch) :
        ∃ (y : Handle) (ys : List Handle), key = y.key ∧ keys = ys.map Handle.key ∧ callee = y.node ∧
          args = ys.map Handle.node ∧ ∀ z ∈ y :: ys, Grown cells z.key z.node.branch := by
      obtain ⟨xkey, span, shape, suffix⟩ := x
      obtain rfl : shape = .call callee args := hx
      obtain ⟨y, ys, hcall, -, hcallee, hargs, hgrown⟩ := hbears.call
      rw [hc] at hcall
      cases hcall
      exact ⟨y, ys, rfl, rfl, hcallee, hargs, hgrown⟩
    refine .look_bind fun others r s hs hget hbears => ?_
    obtain ⟨y, ys, rfl, -, rfl, -, hgrown⟩ := hparts hbears
    obtain ⟨d, hd, hdbears⟩ := grown_iff.1 (hgrown y (List.mem_cons_self ..))
    refine ⟨d, Builds.run_cell hd, ?_⟩
    rw [hdbears.fits.isIdentifier]
    refine .ite (fun _ => hplain) fun _ => .reading_bind (.at_ _) fun atBrace => .ite (fun _ => ?_) fun _ => ?_
    · refine .bind (builds_functionBody h) ?_
      rintro n body _ rfl
      refine .edge_bind (y := x) Span.start (by simp) (.edge_bind (y := ⟨body, n⟩) Span.stop (by simp) ?_)
      refine .reading_bind (.spanning _ _) fun span => ?_
      exact .becomeFunction (some ⟨body, n⟩) hc hx
    · refine .look_bind fun others r s hs hget hbears => ?_
      obtain ⟨_, ys, -, rfl, -, rfl, hgrown⟩ := hparts hbears
      refine ⟨_, run_anyVarDecl (List.forall_mem_cons.1 hgrown).2, ?_⟩
      refine .reading_bind .statementEnd fun _ => .ite (fun _ => ?_) fun _ => .of_builds (.pure (Multiset.zero_add _))
      refine .look_bind fun others r s hs hget hbears => ⟨c, Builds.run_cell hget, ?_⟩
      rw [Builds.span_eq hbears.fits]
      exact .becomeFunction none hc hx
  · next hx =>
    split
    · next key keys hc =>
      obtain ⟨callee, args, hshape⟩ := hfits.call_iff.1 ⟨key, keys, hc⟩
      exact (hx callee args hshape).elim
    · exact hplain

theorem builds_statement (h : SameRules rules rules') (scope : Scope) :
    Builds 0 (Grammar.statement rules scope) (statement rules' scope) One := by
  unfold Grammar.statement statement
  refine .reading_bind .peekKind fun kind => ?_
  cases kind with
  | leftBrace => exact builds_block h none
  | ifWord => exact builds_ifElse h
  | whileWord => exact builds_whileLoop h
  | doWord => exact builds_doWhile h
  | forWord => exact builds_forLoop h
  | foreachWord => exact builds_foreachLoop h
  | switchWord => exact builds_switch h
  | returnWord => exact builds_returnValue h
  | breakWord => exact builds_jump
  | continueWord => exact builds_jump
  | inheritWord => exact .reading_bind .peek fun token => builds_inherit h _ _
  | directive => exact builds_directive
  | modifier => exact builds_declaration h scope
  | typeWord => exact builds_declaration h scope
  | _ => exact builds_expressionStatement h scope

end LpcStyle.Arena
