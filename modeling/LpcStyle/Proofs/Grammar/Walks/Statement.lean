import Mathlib.Tactic
import LpcStyle.Proofs.Grammar.Walks.Declaration

/-!
Walks through statements. A statement starts with its keyword and ends with its last token or part; only a case of a
switch ends where its last statement ends, which is known to lie behind its start in a text without comments.
-/

namespace LpcStyle

open Text LpcStyle.Parser

/-- a part that may be missing, read between two offsets -/
structure Node.SitMaybe (text : List Char) (lo : Nat) (o : Option Node) (hi : Nat) : Prop where
  le : lo ≤ hi
  given : ∀ n ∈ o, n.Sits text lo hi

namespace Node.SitMaybe

variable {text : List Char} {lo hi : Nat} {o : Option Node}

theorem none (h : lo ≤ hi) : Node.SitMaybe text lo none hi := ⟨h, fun _ hn => nomatch hn⟩

theorem row (h : Node.SitMaybe text lo o hi) : Branch.Row (Quiet text) lo hi (Node.optionBranch o) := by
  cases o with
  | none => exact .nil h.le
  | some n => exact (h.given n rfl).toRests.alone

/-- up to the end of the part, or of what stands before it -/
theorem rowTight (h : Node.SitMaybe text lo o hi) :
    Branch.Row (Quiet text) lo ((o.map Node.stop).getD lo) (Node.optionBranch o) ∧ (o.map Node.stop).getD lo ≤ hi := by
  cases o with
  | none => exact ⟨.nil le_rfl, h.le⟩
  | some n => exact ⟨(h.given n rfl).tight le_rfl, (h.given n rfl).stop⟩

end Node.SitMaybe

namespace Grammar

variable {text : List Char} {K : Reading → Prop} {opened later : List Enclosure} {lo m hi : Nat} {rules : Rules}
  {t : Token} {β : Type} {R : β → Nat → Prop}

/-! ## Bodies -/

/-- comments before a body are comments of the text -/
theorem walks_headComments : Walks text K opened lo headComments opened fun cs _ => cs ≠ [] → ¬Quiet text := by
  unfold headComments
  refine .loop_bind (fun cs _ => cs ≠ [] → ¬Quiet text) (by simp) ?_ ?_
  · intro cs m _ hcs
    refine .raw_bind fun t => .ite (fun ht => ?_) fun _ => .pure hcs
    exact .takeComment_bind ht fun c m _ hq => .pure fun _ => hq
  · intro cs m _ hcs
    exact .pure fun hne => hcs (by simpa using hne)

theorem walks_placeholder : Walks text K opened lo placeholder opened (Node.Sits text lo) := by
  unfold placeholder
  exact .expect_bind rfl rfl fun semicolon hsemicolon => .pure (sits_leaf hsemicolon rfl rfl)

theorem walks_body (ok : rules.Walk text) : Walks text K opened lo (body rules) opened (Node.Sits text lo) := by
  unfold body
  refine .bind walks_headComments ?_
  intro cs m hm hcs
  have hsits {n : Node} {hi : Nat} (hn : n.Sits text m hi) : n.Sits text lo hi := hn.widen hm le_rfl
  refine .parkAll_bind (tail_ne_nil hcs) (.at_bind fun t => .ite (fun _ => ?_) fun _ => ?_)
  · exact (walks_block ok (head?_ne_none hcs)).imp fun _ _ _ hn => hsits hn
  · have hpark : Walks text (Comes t) opened m (cs.head?.forM park) opened fun _ hi => hi = m := by
      cases hhead : cs.head? with
      | none => exact .pure rfl
      | some c => exact .park (head?_ne_none hcs (by simp [hhead])) rfl
    refine hpark.bind ?_
    rintro _ _ - rfl
    refine .at_bind fun u => .ite (fun _ => ?_) fun _ => ?_
    · exact walks_placeholder.imp fun _ _ _ hn => hsits hn
    · exact (ok.statement .block).imp fun _ _ _ hn => hsits hn

theorem walks_condition (ok : rules.Walk text) :
    Walks text K opened lo (condition rules) opened (Node.Sits text lo) := by
  unfold condition
  refine .expect_bind rfl rfl fun start hstart => .bind ok.expression fun test m _ htest => ?_
  exact .expect_bind rfl rfl fun close hclose => .pure (htest.widen hstart.lt.le hclose.lt.le)

/-! ## Branches and loops -/

theorem walks_ifElse (ok : rules.Walk text) (ht : t.kind = .ifWord) :
    Walks text (Comes t) opened lo (ifElse rules) opened (Node.Sits text lo) := by
  unfold ifElse
  refine .takeKind_bind ht rfl rfl fun hword => .expect_bind rfl rfl fun start hstart => ?_
  refine .bind ok.expression fun test m₁ _ htest => ?_
  extract_lets closes
  have hcloses {K : Reading → Prop} : Walks text K (.paren :: opened) m₁ (closes ()) opened (Node.Sits text lo) := by
    refine .expect_bind rfl rfl fun close hclose => .bind (walks_body ok) fun consequent m₂ _ hconsequent => ?_
    have htestRow : Branch.Row (Quiet text) t.span.stop close.span.stop [test.branch] :=
      htest.toRests.alone.widen hstart.lt.le hclose.lt.le
    refine .trailingComment_bind fun consequent' m₃ hm₃ hsuffix => ?_
    have hconsequent' : consequent'.Sits text close.span.stop m₃ := by
      rcases hsuffix with rfl | ⟨c, rfl⟩
      · exact hconsequent.widen le_rfl hm₃
      · exact (hconsequent.withSuffix c).widen le_rfl hm₃
    refine .holdBlank_bind (.get_bind fun r _ _ => .ite (fun helse => ?_) fun _ => .build fun _ => ?_)
    · refine .dropHeld_bind (by rw [helse]; rfl) (.takeKind_bind helse rfl rfl fun helse => ?_)
      extract_lets ends
      have hends {m₄ : Nat} (alternate : Node) (halternate : alternate.Sits text r.front.span.stop m₄) :
          Walks text Anywhere opened m₄ (ends alternate) opened (Node.Sits text lo) := by
        refine .build fun _ => ⟨.opened hword.start hword.pos halternate.stop ?_, rfl⟩
        exact (htestRow.append (hconsequent'.toRests.alone)).append (halternate.tight helse.lt.le)
      refine .at_bind fun u => .ite (fun _ => ?_) fun _ => ?_
      · exact .bind (ok.statement .block) fun alternate _ _ h => hends alternate h
      · exact .bind (walks_body ok) fun alternate _ _ h => hends alternate h
    · exact ⟨.opened hword.start hword.pos hconsequent'.stop (htestRow.append (hconsequent'.tight le_rfl)), rfl⟩
  refine .at_bind fun u => .ite (fun hu => .peekAgain_bind fun hcomma => .refuse_bind ?_) fun _ => hcloses
  exact (hcomma.placed.reached (by rw [of_decide_eq_true hu]; rfl)).blames nofun

theorem walks_whileLoop (ok : rules.Walk text) (ht : t.kind = .whileWord) :
    Walks text (Comes t) opened lo (whileLoop rules) opened (Node.Sits text lo) := by
  unfold whileLoop
  refine .takeKind_bind ht rfl rfl fun hword => .bind (walks_condition ok) fun test m _ htest => ?_
  refine .bind (walks_body ok) fun body hi _ hbody => .build fun _ => ?_
  exact ⟨.opened hword.start hword.pos hbody.stop (htest.toRests.alone.append (hbody.tight le_rfl)), rfl⟩

theorem walks_doWhile (ok : rules.Walk text) (ht : t.kind = .doWord) :
    Walks text (Comes t) opened lo (doWhile rules) opened (Node.Sits text lo) := by
  unfold doWhile
  refine .takeKind_bind ht rfl rfl fun hword => .bind (walks_body ok) fun body m₁ _ hbody => ?_
  refine .expect_bind rfl rfl fun again hagain => .bind (walks_condition ok) fun test m₂ _ htest => ?_
  refine .expect_bind rfl rfl fun semicolon hsemicolon => .build fun _ => ?_
  refine ⟨.opened hword.start hword.pos le_rfl ?_, rfl⟩
  exact (hbody.toRests.alone.widen le_rfl hagain.lt.le).append (htest.toRests.alone.widen le_rfl hsemicolon.lt.le)

/-- **Expressions with commas between them** start with the first and end with the last of them. -/
theorem walks_commaList (ok : rules.Walk text) :
    Walks text K opened lo (commaList rules) opened (Node.Sits text lo) := by
  unfold commaList
  refine .bind ok.expression fun first m _ hfirst => ?_
  refine .loop_bind (fun items hi => items = [first] ∨
    ∃ last before, items = last :: (before ++ [first]) ∧ Node.Trail text m (last, before) hi) (.inl rfl) ?_ ?_
  · intro items m' hm hitems
    refine .eat_bind rfl rfl (fun comma hcomma => .bind ok.expression ?_) (.pure hitems)
    intro item hi _ hitem
    refine .pure (.inr ?_)
    rcases hitems with rfl | ⟨last, before, rfl, htrail⟩
    · exact ⟨item, [], rfl, .first (hitem.toRests.widen (hm.trans hcomma.lt.le) le_rfl)⟩
    · exact ⟨item, last :: before, rfl, htrail.next (hitem.toRests.widen hcomma.lt.le le_rfl)⟩
  · rintro items hi hhi (rfl | ⟨last, before, rfl, htrail⟩)
    · exact .pure (hfirst.widen le_rfl hhi)
    · have hbuild : Walks text Anywhere opened hi
          (build first.start last.stop (.multiExpression (last :: (before ++ [first])).reverse)) opened (Node.Sits text lo) := by
        refine .build fun _ => ⟨.grown hfirst.toRests ?_ htrail.lt htrail.stop_le htrail.sitAll, rfl⟩
        change Node.branches (last :: (before ++ [first])).reverse = first.branch :: Node.branches (last :: before).reverse
        simp
      cases before with
      | nil => exact hbuild
      | cons n before => exact hbuild

/-- a part that is there -/
theorem walks_given {p : Parser Node} (h : Walks text K opened lo p opened (Node.Sits text lo)) :
    Walks text K opened lo (some <$> p) opened (Node.SitMaybe text lo) := by
  refine .map (h.imp ?_)
  intro n hi hhi hn
  refine ⟨hhi, fun n' hn' => ?_⟩
  cases hn'
  exact hn

theorem walks_missing : Walks text K opened lo (pure none) opened (Node.SitMaybe text lo) := .pure (.none le_rfl)

theorem walks_forLoop (ok : rules.Walk text) (ht : t.kind = .forWord) :
    Walks text (Comes t) opened lo (forLoop rules) opened (Node.Sits text lo) := by
  unfold forLoop
  refine .takeKind_bind ht rfl rfl fun hword => .expect_bind rfl rfl fun start hstart => ?_
  refine .peekKind_bind fun u => ?_
  extract_lets afterInit
  have hinit {m₁ : Nat} (init : Option Node) (hinit : Node.SitMaybe text start.span.stop init m₁) :
      Walks text Anywhere (.paren :: opened) m₁ (afterInit init) opened (Node.Sits text lo) := by
    refine .expect_bind rfl rfl fun first hfirst => .at_bind fun u => ?_
    extract_lets afterTest
    have htest {m₂ : Nat} (test : Option Node) (htest : Node.SitMaybe text first.span.stop test m₂) :
        Walks text Anywhere (.paren :: opened) m₂ (afterTest test) opened (Node.Sits text lo) := by
      refine .expect_bind rfl rfl fun second hsecond => .at_bind fun u => ?_
      extract_lets afterUpdate
      have hupdate {m₃ : Nat} (update : Option Node) (hupdate : Node.SitMaybe text second.span.stop update m₃) :
          Walks text Anywhere (.paren :: opened) m₃ (afterUpdate update) opened (Node.Sits text lo) := by
        refine .expect_bind rfl rfl fun close hclose => .bind (walks_body ok) fun body hi _ hbody => .build fun _ => ?_
        have hinitRow := hinit.row.widen hstart.lt.le hfirst.lt.le
        have htestRow := htest.row.widen le_rfl hsecond.lt.le
        have hupdateRow := hupdate.row.widen le_rfl hclose.lt.le
        refine ⟨.opened hword.start hword.pos hbody.stop ?_, rfl⟩
        exact ((hinitRow.append htestRow).append hupdateRow).append (hbody.tight le_rfl)
      refine .ite (fun _ => .bind walks_missing fun x _ _ h => hupdate x h) fun _ => ?_
      exact .bind (walks_given (walks_commaList ok)) fun x _ _ h => hupdate x h
    refine .ite (fun _ => .bind walks_missing fun x _ _ h => htest x h) fun _ => ?_
    exact .bind (walks_given ok.expression) fun x _ _ h => htest x h
  split
  · exact .bind walks_missing fun x _ _ h => hinit x h
  · exact .bind (walks_given (walks_localDeclaration ok)) fun x _ _ h => hinit x h
  · exact .bind (walks_given (walks_localDeclaration ok)) fun x _ _ h => hinit x h
  · exact .bind (walks_given (walks_commaList ok)) fun x _ _ h => hinit x h

theorem walks_maybeRange (ok : rules.Walk text) :
    Walks text K opened lo (maybeRange rules) opened (Node.Sits text lo) := by
  unfold maybeRange
  refine .bind ok.expression fun first m _ hfirst => .eat_bind rfl rfl (fun dots hdots => ?_) (.pure hfirst)
  refine .bind ok.expression fun last hi _ hlast => .build fun _ => ?_
  exact ⟨.joins hfirst.toRests hdots.lt.le hlast.toRests rfl, rfl⟩

theorem walks_foreachLoop (ok : rules.Walk text) (ht : t.kind = .foreachWord) :
    Walks text (Comes t) opened lo (foreachLoop rules) opened (Node.Sits text lo) := by
  unfold foreachLoop
  refine .takeKind_bind ht rfl rfl fun hword => .expect_bind rfl rfl fun start hstart => ?_
  refine .loop_bind (Node.Stack text start.span.stop) (.nil le_rfl) ?_ ?_
  · intro vars m₁ _ hvars
    refine .bind ok.argument fun var m₂ _ hvar => ?_
    have hnext : Node.Stack text start.span.stop (var :: vars) m₂ := hvars.push hvar.toRests
    exact .eat_bind rfl rfl (fun comma hcomma => .pure (hnext.widen hcomma.lt.le)) (.pure hnext)
  · intro vars m₁ _ hvars
    refine .expect_bind rfl rfl fun mark hmark => .bind (walks_maybeRange ok) fun iterable m₂ _ hiterable => ?_
    refine .expect_bind rfl rfl fun close hclose => .bind (walks_body ok) fun body hi _ hbody => .build fun _ => ?_
    have hiterableRow := hiterable.toRests.alone.widen le_rfl hclose.lt.le
    refine ⟨.opened hword.start hword.pos hbody.stop ?_, rfl⟩
    exact (Node.SitAll.widen hvars hstart.lt.le hmark.lt.le).append (hiterableRow.append (hbody.tight le_rfl))

/-! ## Switches -/

/-- **A case** ends where its last statement ends. In a text with comments that may be anywhere. -/
theorem row_switchCase {test : Option Node} {body : List Node} {colon : Token} (ht : t.Solid text lo)
    (htest : Node.SitMaybe text t.span.stop test m) (hcolon : colon.Solid text m)
    (hbody : Node.SitAll text colon.span.stop body hi) :
    Branch.Row (Quiet text) lo hi [(Node.mk ⟨t.span.start, (body.getLast?.map Node.stop).getD colon.span.stop⟩
      (.switchCase test body) none).branch] := by
  have htestRow := htest.row.widen le_rfl hcolon.lt.le
  have hkids : Branch.Row (Quiet text) t.span.stop hi (Shape.branches (.switchCase test body)) := htestRow.append hbody
  have hstart : t.span.start < colon.span.stop := ht.pos.trans_le (htest.le.trans hcolon.lt.le)
  refine .node ht.start (hstart.trans_le hbody.le) (hkids.widen ht.pos.le le_rfl) ?_ ?_
  · intro d hd
    exact .inl (ht.pos.trans_le (hkids.bounds d hd).1)
  · intro hq
    have htestStop : ∀ k ∈ Node.optionBranch test, k.stop ≤ colon.span.stop := fun k hk => (htestRow.within hq k hk).2
    rcases List.eq_nil_or_concat body with rfl | ⟨before, last, rfl⟩
    · refine ⟨hstart, hbody.le, fun k hk => htestStop k ?_⟩
      exact (List.append_nil (Node.optionBranch test)) ▸ hk
    · have hrow : Branch.Row (Quiet text) colon.span.stop hi (Node.branches before ++ [last.branch]) := by
        simpa [Node.SitAll] using hbody
      have htight := hrow.tight hq
      have hlast : last.branch.stop ≤ hi := (hrow.within hq last.branch (by simp)).2
      rw [Node.stop_branch] at htight hlast
      simp only [List.concat_eq_append, List.getLast?_concat, Option.map_some, Option.getD_some]
      refine ⟨hstart.trans_le htight.le, hlast, fun k hk => ?_⟩
      rcases List.mem_append.1 hk with hk | hk
      · exact (htestStop k hk).trans htight.le
      · exact (htight.within hq k (by simpa using hk)).2

theorem walks_switchCase (ok : rules.Walk text) (ht : t.kind = .caseWord ∨ t.kind = .defaultWord) :
    Walks text (Comes t) opened lo (switchCase rules) opened fun n hi => Branch.Row (Quiet text) lo hi [n.branch] := by
  have hplain : t.kind.turn opened = some opened ∧ t.kind.isFirm = true := by
    rcases ht with ht | ht <;> rw [ht] <;> exact ⟨rfl, rfl⟩
  unfold switchCase
  refine .take_bind hplain.1 hplain.2 ?_
  intro hword
  extract_lets afterTest
  have htest {m : Nat} (test : Option Node) (htest : Node.SitMaybe text t.span.stop test m) :
      Walks text Anywhere opened m (afterTest test) opened fun n hi => Branch.Row (Quiet text) lo hi [n.branch] := by
    refine .expect_bind rfl rfl fun colon hcolon => .bind (walks_statementList ok _ _) ?_
    intro body hi _ hbody
    exact .build fun _ => row_switchCase hword htest hcolon hbody
  refine .ite (fun _ => ?_) fun _ => ?_
  · exact .bind (walks_given (walks_maybeRange ok)) fun x _ _ h => htest x h
  · exact .bind walks_missing fun x _ _ h => htest x h

theorem walks_switch (ok : rules.Walk text) (ht : t.kind = .switchWord) :
    Walks text (Comes t) opened lo (switch rules) opened (Node.Sits text lo) := by
  unfold switch
  refine .takeKind_bind ht rfl rfl fun hword => .bind (walks_condition ok) fun test m₁ _ htest => ?_
  refine .expect_bind rfl rfl fun brace hbrace => ?_
  refine .loop_bind (Node.Stack text brace.span.stop) (.nil le_rfl) ?_ ?_
  · intro cases m₂ _ hcases
    refine .raw_bind fun u => ?_
    have hcomment (hu : u.kind.isComment = true) : Walks text (ComesRaw u) (.brace :: opened) m₂
        (do return .inl (.ofComment (← takeComment) :: cases) : Parser (List Node ⊕ List Node)) (.brace :: opened)
        (Sum.elim (Node.Stack text brace.span.stop) (Node.Stack text brace.span.stop)) :=
      .takeComment_bind hu fun c m hm hq => .pure ((hcases.widen hm).comment c hq)
    have hcase (hu : u.kind = .caseWord ∨ u.kind = .defaultWord) : Walks text (ComesRaw u) (.brace :: opened) m₂
        (do return .inl ((← switchCase rules) :: cases) : Parser (List Node ⊕ List Node)) (.brace :: opened)
        (Sum.elim (Node.Stack text brace.span.stop) (Node.Stack text brace.span.stop)) := by
      refine .bind ((walks_switchCase ok hu).nextRaw (by rcases hu with hu | hu <;> rw [hu] <;> rfl)) ?_
      intro n hi _ hn
      exact .pure (hcases.pushRow hn)
    split
    · next hu => exact hcomment (by rw [hu]; rfl)
    · next hu => exact hcomment (by rw [hu]; rfl)
    · next hu => exact .takeBlank_bind hu fun hstart hpos => .pure (hcases.widen (hstart.trans hpos.le))
    · next hu => exact hcase (.inl hu)
    · next hu => exact hcase (.inr hu)
    · exact .pure hcases
  · intro cases m₂ _ hcases
    refine .expect_bind rfl rfl fun close hclose => .build fun _ => ?_
    refine ⟨.opened hword.start hword.pos le_rfl ?_, rfl⟩
    exact (htest.toRests.alone.widen le_rfl hbrace.lt.le).append (hcases.widen hclose.lt.le)

/-! ## Other statements -/

theorem walks_returnValue (ok : rules.Walk text) (ht : t.kind = .returnWord) :
    Walks text (Comes t) opened lo (returnValue rules) opened (Node.Sits text lo) := by
  unfold returnValue
  refine .takeKind_bind ht rfl rfl fun hword => .peekKind_bind fun u => ?_
  extract_lets last
  have hlast {m : Nat} (argument : Option Node) (hargument : Node.SitMaybe text t.span.stop argument m) :
      Walks text Anywhere opened m (last argument) opened (Node.Sits text lo) := by
    refine .eat_bind rfl rfl (fun semicolon hsemicolon => .build fun _ => ?_) ?_
    · exact ⟨.opened hword.start hword.pos le_rfl (hargument.row.widen le_rfl hsemicolon.lt.le), rfl⟩
    · obtain ⟨hrow, hstop⟩ := hargument.rowTight
      refine .at_bind fun u => .ite (fun _ => .build fun _ => ?_) fun _ => .wanted
      exact ⟨.opened hword.start hword.pos hstop hrow, rfl⟩
  refine .ite (fun _ => .bind walks_missing fun x _ _ h => hlast x h) fun _ => ?_
  exact .bind (walks_given ok.expression) fun x _ _ h => hlast x h

theorem walks_jump (ht : t.kind = .breakWord ∨ t.kind = .continueWord) :
    Walks text (Comes t) opened lo jump opened (Node.Sits text lo) := by
  have hplain : t.kind.turn opened = some opened ∧ t.kind.isFirm = true := by
    rcases ht with ht | ht <;> rw [ht] <;> exact ⟨rfl, rfl⟩
  unfold jump
  refine .take_bind hplain.1 hplain.2 fun hword => .expect_bind rfl rfl ?_
  intro semicolon hsemicolon
  exact .build fun _ => ⟨.opened hword.start hword.pos le_rfl (.nil hsemicolon.lt.le), rfl⟩

/-- a function takes the place of the call that it starts with -/
theorem sits_function {span : Span} {callee body : Node} {args : List Node} {suffix : Option Comment}
    (hcall : (Node.mk span (.call callee args) suffix).Sits text lo m) (hbody : body.Sits text m hi) :
    (Node.mk ⟨span.start, body.stop⟩ (.function [] none false callee args (some body)) suffix).Sits text lo hi := by
  have hpos : span.start < span.stop := hcall.pos
  have hstop : span.stop ≤ m := hcall.stop
  have hend : m < body.stop := hbody.starts
  refine ⟨.ofParts hcall.start (by simp only; omega) hbody.stop ?_ ?_, rfl⟩
  · exact (hcall.kids.widen le_rfl hstop).append (hbody.tight le_rfl)
  · change ∀ d ∈ Branch.solidsOf (Shape.branches (.call callee args) ++ [body.branch]), _
    rw [Branch.solidsOf_append]
    intro d hd
    rcases List.mem_append.1 hd with hd | hd
    · rcases hcall.clear d hd with h | h | ⟨h, -⟩
      · exact .inl h
      · exact .inr (.inl ((show d.span.stop < span.stop from h).trans (hstop.trans_lt hend)))
      · exact .inr (.inl ((show d.span.stop ≤ span.stop from h).trans_lt (hstop.trans_lt hend)))
    · have hstart : m ≤ d.span.start := (hbody.toRests.alone.bounds d hd).1
      exact .inl (hpos.trans_le (hstop.trans hstart))

/-- a prototype takes the place of the call that it is written as -/
theorem sits_prototype {span : Span} {callee : Node} {args : List Node} {suffix : Option Comment}
    (hcall : (Node.mk span (.call callee args) suffix).Sits text lo hi) :
    (Node.mk span (.function [] none false callee args none) suffix).Sits text lo hi := by
  have hbranches : Shape.branches (.function [] none false callee args none) = Shape.branches (.call callee args) :=
    List.append_nil _
  refine ⟨.ofParts hcall.start hcall.pos hcall.stop ?_ ?_, rfl⟩
  · rw [hbranches]
    exact hcall.kids
  · rw [hbranches]
    intro d hd
    rcases hcall.clear d hd with h | h | ⟨-, hshell, -⟩
    · exact .inl h
    · exact .inr (.inl h)
    · cases hshell

theorem walks_expressionStatement (ok : rules.Walk text) (scope : Scope) :
    Walks text K opened lo (expressionStatement rules scope) opened (Node.Sits text lo) := by
  unfold expressionStatement
  refine .bind (walks_expression ok) ?_
  intro node m _ hnode
  have hend {K : Reading → Prop} :
      Walks text K opened m (do statementEnd; return node) opened (Node.Sits text lo) :=
    .bind walks_statementEnd fun _ hi hhi _ => .pure (hnode.widen le_rfl hhi)
  split
  · next callee args hshape =>
    obtain ⟨span, shape, suffix⟩ := node
    obtain rfl : shape = .call callee args := hshape
    refine .ite (fun _ => hend) fun _ => ?_
    have hprototype {K : Reading → Prop} : Walks text K opened m (do
        statementEnd
        if args.any (·.shape.isVarDecl) then return .mk span (.function [] none false callee args none) suffix
        else return .mk span (.call callee args) suffix) opened (Node.Sits text lo) := by
      refine .bind walks_statementEnd fun _ hi hhi _ => .ite (fun _ => .pure ?_) fun _ => .pure ?_
      · exact sits_prototype (hnode.widen le_rfl hhi)
      · exact hnode.widen le_rfl hhi
    refine .at_bind fun u => .ite (fun _ => .bind (walks_functionBody ok) ?_) fun _ => hprototype
    intro body hi _ hbody
    exact .spanning_bind fun _ => .pure (sits_function hnode hbody)
  · exact hend

theorem walks_statement (ok : rules.Walk text) (scope : Scope) :
    Walks text K opened lo (statement rules scope) opened (Node.Sits text lo) := by
  unfold statement
  refine .peekKind_bind fun t => ?_
  split
  · exact walks_block ok fun hne => absurd rfl hne
  · next ht => exact walks_ifElse ok ht
  · next ht => exact walks_whileLoop ok ht
  · next ht => exact walks_doWhile ok ht
  · next ht => exact walks_forLoop ok ht
  · next ht => exact walks_foreachLoop ok ht
  · next ht => exact walks_switch ok ht
  · next ht => exact walks_returnValue ok ht
  · next ht => exact walks_jump (.inl ht)
  · next ht => exact walks_jump (.inr ht)
  · refine .peekStart_bind fun u hu => (walks_inherit ok _ le_rfl).imp ?_
    exact fun _ _ _ hn => hn.widen hu.start le_rfl
  · next ht => exact walks_directive ht
  · exact walks_declaration ok scope
  · exact walks_declaration ok scope
  · exact walks_expressionStatement ok scope

end Grammar

end LpcStyle
