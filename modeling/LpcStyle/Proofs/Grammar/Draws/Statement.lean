import Mathlib.Tactic
import LpcStyle.Proofs.Grammar.Draws.Expression
import LpcStyle.Proofs.Grammar.Walks.Parse

/-!
Declarations, statements and whole texts are drawn from the text. Main statement:
- `legible_parse`: the nodes of a text that is read to a tree can be read again from it.
-/

namespace LpcStyle

open Text LpcStyle.Parser

/-- a token that may be missing, taken from an edge on -/
def Token.Maybe (text : List Char) (lo : Nat) (t : Option Token) (hi : Nat) : Prop :=
  ∀ u ∈ t, u.Taken text lo ∧ u.span.stop ≤ hi

namespace Grammar

/-- what stands before and after the name of a declarator lies between two edges -/
structure DeclaratorHead.Drawn (text : List Char) (lo : Nat) (head : DeclaratorHead) (hi : Nat) : Prop where
  start : From text lo head.start
  stop : UpTo text head.stop hi
  name : AllLegible text head.name.toList

/-- the words before a name are pieces of the text -/
structure DeclarationHead.Legible (text : List Char) (head : DeclarationHead) : Prop where
  start : Boundary text head.start
  words : ∀ l ∈ head.modifiers ++ head.typeName.toList, l.Copied text

variable {text : List Char} {K : Reading → Prop} {lo m hi : Nat} {rules : Rules} {t : Token} {β : Type}
  {R : β → Nat → Prop}

/-! ## Words and marks -/

theorem draws_modifiers : Draws text K lo modifiers fun ms _ => ∀ l ∈ ms, l.Copied text := by
  unfold modifiers
  refine .loop_bind (fun ms _ => ∀ l ∈ ms, l.Copied text) (by simp) (fun ms m _ hms => ?_) fun ms m _ hms => ?_
  · exact .eat_bind (fun t ht => .pure (List.forall_mem_cons.2 ⟨ht.lexeme, hms⟩)) (.pure hms)
  · exact .pure fun l hl => hms l (List.mem_reverse.1 hl)

theorem draws_eat {k : Kind} : Draws text K lo (eat? k) (Token.Maybe text lo) := by
  rw [← bind_pure (eat? k)]
  refine .eat_bind (fun t ht => .pure ?_) (.pure fun t ht => nomatch ht)
  rintro u ⟨⟩
  exact ⟨ht, le_rfl⟩

theorem draws_eatAmpersand : Draws text K lo eatAmpersand? (Token.Maybe text lo) := by
  unfold eatAmpersand? atAmpersand
  refine .atText_bind fun b => .ite (fun _ => .take_bind fun t ht => .pure ?_) fun _ => .pure fun t ht => nomatch ht
  rintro u ⟨⟩
  exact ⟨ht, le_rfl⟩

theorem draws_atDeclarator : Draws text K lo atDeclarator fun _ _ => True := by
  unfold atDeclarator atAmpersand
  refine draws_atName_bind fun b => .ite (fun _ => .pure trivial) fun _ => .peekKind_bind fun k => ?_
  refine .ite (fun _ => .pure trivial) fun _ => ?_
  rw [← bind_pure (atText? .arithOp "&")]
  exact .atText_bind fun b => .pure trivial

theorem draws_isTypeUsedAsName (modifiers : List Lexeme) (token : Token) :
    Draws text K lo (isTypeUsedAsName modifiers token) fun _ _ => True :=
  .ite (fun _ => .bind draws_atDeclarator fun _ _ _ _ => .pure trivial) fun _ => .pure trivial

/-- the text from one token to another, which ends at the edge -/
theorem draws_lexemeBetween {first last : Token} (hfirst : first.Taken text m) (hlast : last.Taken text hi)
    (hstop : last.span.stop ≤ lo) :
    Draws text K lo (lexemeBetween first last) fun l hi => l.Copied text ∧ UpTo text l.span.stop hi := by
  unfold lexemeBetween
  refine .spanning_bind fun hle => ?_
  rw [← bind_pure (lexeme _)]
  refine .lexeme_bind ⟨hle, hfirst.range.start, hlast.range.stop⟩ fun l hl hspan => .pure ⟨hl, ?_⟩
  rw [hspan]
  exact ⟨hstop, hlast.range.stop⟩

theorem draws_typeFrom {first : Token} (hfirst : first.Taken text m) (hstop : first.span.stop ≤ lo) :
    Draws text K lo (typeFrom first) fun l hi => l.Copied text ∧ UpTo text l.span.stop hi := by
  unfold typeFrom
  refine .ite (fun _ => .expect_bind fun name _ hname => ?_) fun _ => .pure ⟨hfirst.lexeme, hstop, hfirst.range.stop⟩
  exact draws_lexemeBetween hfirst hname le_rfl

/-! ## Declarators -/

theorem draws_declaratorRest (ok : rules.Draw text) {head : DeclaratorHead} (hhead : head.Drawn text lo m)
    (allowDefault : Bool) : Draws text K m (declaratorRest rules head allowDefault) (Node.Drawn text lo) := by
  unfold declaratorRest
  refine .bind draws_eat fun ellipsis m' hm hellipsis => ?_
  extract_lets stop shape rest
  have hstop : UpTo text stop m' := by
    cases ellipsis with
    | none => exact hhead.stop.weaken hm
    | some u => exact ⟨(hellipsis u rfl).2, (hellipsis u rfl).1.range.stop⟩
  have hrest (hasValue : Bool) : Draws text Anywhere m' (rest hasValue) (Node.Drawn text lo) := by
    refine .ite (fun _ => .take_bind fun mark _ => .bind ok.expression fun value _ _ hvalue => ?_) fun _ => ?_
    · exact .drawn hhead.start hvalue.atStop trivial (.append hhead.name (.cons hvalue.legible .nil))
    · exact .drawn hhead.start hstop trivial (.append hhead.name .nil)
  refine .atText_bind fun b => .ite (fun _ => ?_) fun _ => .ite (fun _ => .at_bind fun b => hrest b) fun _ => ?_
  · rw [pure_bind]
    exact hrest true
  · rw [pure_bind]
    exact hrest false

theorem draws_declarator (ok : rules.Draw text) (allowDefault : Bool) :
    Draws text K lo (declarator rules allowDefault) (Node.Drawn text lo) := by
  unfold declarator
  refine .peekStart_bind fun t ht => .bind draws_eat fun star m₁ hm₁ hstar => .bind draws_eatAmpersand ?_
  intro ampersand m₂ hm₂ hampersand
  extract_lets stop head rest
  refine draws_atName_bind fun b => .ite (fun _ => .bind draws_name fun name _ _ hname => ?_) fun _ => ?_
  · exact draws_declaratorRest ok ⟨ht.atStart, hname.atStop, by exact AllLegible.cons hname.legible .nil⟩ allowDefault
  · -- without a name the head ends with its marks, or where it starts
    have hstop : UpTo text stop m₂ := by
      cases ampersand with
      | some u => exact ⟨(hampersand u rfl).2, (hampersand u rfl).1.range.stop⟩
      | none =>
        cases star with
        | some u => exact ⟨(hstar u rfl).2.trans hm₂, (hstar u rfl).1.range.stop⟩
        | none => exact ⟨hm₁.trans hm₂, ht.range.start⟩
    refine .at_bind fun b => .ite (fun _ => .wanted_bind) fun _ => ?_
    exact draws_declaratorRest ok ⟨ht.atStart, hstop, .nil⟩ allowDefault

theorem draws_statementEnd : Draws text K lo statementEnd fun _ _ => True := by
  unfold statementEnd
  refine .peekKind_bind fun k => ?_
  split
  · exact .take_bind fun _ _ => .pure trivial
  · exact .take_bind fun _ _ => .pure trivial
  · exact .pure trivial
  · exact .pure trivial
  · exact .wanted

/-- declarators, the last one first -/
theorem draws_moreDeclarators (ok : rules.Draw text) (comments : Bool) {first : Node} (hfirst : first.Legible text) :
    Draws text K m (moreDeclarators rules comments first) fun x _ => AllLegible text (x.1 :: x.2) := by
  refine .loop (fun x _ => AllLegible text (x.1 :: x.2)) (.cons hfirst .nil) ?_
  rintro ⟨last, before⟩ m' - hdeclarators
  obtain ⟨hlast, hbefore⟩ := List.forall_mem_cons.1 hdeclarators
  refine .eat_bind (fun comma _ => ?_) (.pure hdeclarators)
  have hnext {m : Nat} {last : Node} (hlast : last.Legible text) : Draws text Anywhere m
      (do return .inl (← declarator rules false, last :: before) : Parser ((Node × List Node) ⊕ (Node × List Node)))
      (Sum.elim (fun x _ => AllLegible text (x.1 :: x.2)) fun x _ => AllLegible text (x.1 :: x.2)) :=
    .bind (draws_declarator ok false) fun n _ _ hn => .pure (.cons hn.legible (.cons hlast hbefore))
  cases comments with
  | false => exact hnext hlast
  | true => exact .trailingComment_bind hlast fun n _ _ hn => hnext hn

theorem draws_localDeclaration (ok : rules.Draw text) :
    Draws text K lo (localDeclaration rules) fun n _ => n.Legible text := by
  unfold localDeclaration
  refine .peek_bind fun t ht => .bind draws_modifiers fun modifiers _ _ hmodifiers => .expect_bind fun word _ hword => ?_
  refine .bind (draws_typeFrom hword le_rfl) fun typeName _ _ htype => .bind (draws_declarator ok false) ?_
  intro first _ _ hfirst
  refine .bind (draws_moreDeclarators ok false hfirst.legible) ?_
  rintro ⟨last, before⟩ _ - hdeclarators
  refine .legible ht.range.start (hdeclarators last (by simp)).stop ?_ hdeclarators.reverse
  exact List.forall_mem_append.2 ⟨hmodifiers, by simpa using htype.1⟩

theorem draws_parameter (ok : rules.Draw text) : Draws text K lo (parameter rules) (Node.Drawn text lo) := by
  unfold parameter
  refine .peek_bind fun t ht => .bind draws_modifiers fun modifiers m₁ hm₁ hmodifiers => ?_
  refine .expect_bind fun first _ hfirst => .bind (draws_isTypeUsedAsName _ _) fun isName m₂ hm₂ _ => .ite ?_ ?_
  · intro _
    have hleaf : (leaf first (.identifier first.text)).Drawn text m₁ first.span.stop := .leaf hfirst hfirst.slice? rfl
    exact draws_expressionFrom ok (hleaf.widen hm₁ hm₂)
  · intro _
    refine .bind (draws_typeFrom hfirst hm₂) fun typeName _ _ htype => .bind draws_atDeclarator fun _ _ hle _ => ?_
    have hwords : ∀ l ∈ modifiers ++ [typeName], l.Copied text :=
      List.forall_mem_append.2 ⟨hmodifiers, List.forall_mem_singleton.2 htype.1⟩
    refine .ite (fun _ => .bind (draws_declarator ok true) fun declarator _ _ hdeclarator => ?_) fun _ => ?_
    · exact .drawn ht.atStart hdeclarator.atStop hwords (.cons hdeclarator.legible .nil)
    · exact .drawn ht.atStart (htype.2.weaken hle) hwords .nil

theorem draws_argument (ok : rules.Draw text) : Draws text K lo (argument rules) (Node.Drawn text lo) := by
  unfold argument
  refine .peekKind_bind fun k => ?_
  split
  · exact draws_parameter ok
  · exact draws_parameter ok
  · exact draws_expression ok

/-! ## Blocks and functions -/

theorem draws_block (ok : rules.Draw text) {openComment : Option Comment} (hopen : ∀ c ∈ openComment, c.Copied text) :
    Draws text K lo (block rules openComment) fun n _ => n.Legible text := by
  unfold block
  refine .expect_bind fun start _ hstart => .get_bind fun r => ?_
  extract_lets rest
  have hrest {m : Nat} (c : Option Comment) (hc : ∀ d ∈ c, d.Copied text) :
      Draws text Anywhere m (rest c) fun n _ => n.Legible text := by
    refine .bind (draws_statementList ok _ _) fun statements _ _ hstatements => .expect_bind fun close _ hclose => ?_
    exact .legible hstart.range.start hclose.range.stop hc hstatements
  refine .ite (fun _ => ?_) fun _ => ?_
  · rw [map_eq_pure_bind, bind_assoc]
    refine .takeComment_bind fun c _ _ hc => ?_
    rw [pure_bind]
    exact hrest (some c) (by simpa using hc)
  · rw [pure_bind]
    exact hrest openComment hopen

theorem copied_head? {cs : List Comment} (h : AllCopied text cs) : ∀ c ∈ cs.head?, c.Copied text :=
  fun c hc => h c (List.mem_of_mem_head? hc)

theorem copied_tail {cs : List Comment} (h : AllCopied text cs) : AllCopied text cs.tail :=
  fun c hc => h c (List.mem_of_mem_tail hc)

theorem draws_functionBody (ok : rules.Draw text) :
    Draws text K lo (functionBody rules) fun n _ => n.Legible text := by
  unfold functionBody
  refine .at_bind fun b => .ite (fun _ => .wanted_bind) fun _ => .takePending_bind fun cs hcs => ?_
  exact .parkAll_bind (copied_tail hcs) fun _ => draws_block ok (copied_head? hcs)

theorem draws_function (ok : rules.Draw text) (scope : Scope) {head : DeclarationHead} {name : Node}
    (hhead : head.Legible text) (hname : name.Legible text) :
    Draws text K m (function rules scope head name) fun n _ => n.Legible text := by
  unfold function
  refine .expect_bind fun start _ _ => .bind (draws_delimited ok.argument.plain) ?_
  rintro ⟨params, close⟩ m₁ - hparams
  dsimp -zeta only
  extract_lets shape
  refine .eat_bind (fun semicolon _ => ?_) (.ite (fun _ => .throw_bind) fun _ => ?_)
  · exact .legible hhead.start hparams.stop.boundary hhead.words (.cons hname (.append hparams.items .nil))
  · refine .bind (draws_functionBody ok) fun body _ _ hbody => ?_
    exact .legible hhead.start hbody.stop hhead.words (.cons hname (.append hparams.items (.cons hbody .nil)))

theorem draws_structDefinition (ok : rules.Draw text) {start : Nat} {name : Token} (hstart : Boundary text start)
    (hname : name.Taken text lo) : Draws text K m (structDefinition rules start name) fun n _ => n.Legible text := by
  unfold structDefinition
  refine .expect_bind fun brace _ _ => .bind (draws_statementList ok _ _) fun members _ _ hmembers => ?_
  refine .expect_bind fun close _ hclose => ?_
  have hbuild {m : Nat} : Draws text Anywhere m
      (build start close.span.stop (.structDef (leaf name (.identifier name.text)) members)) fun n _ => n.Legible text :=
    .legible hstart hclose.range.stop trivial (.cons (legible_leaf hname hname.slice? rfl) hmembers)
  exact .eat_bind (fun semicolon _ => hbuild) hbuild

theorem draws_inherit (ok : rules.Draw text) {modifiers : List Lexeme} (hmodifiers : ∀ l ∈ modifiers, l.Copied text)
    {start : Nat} (hstart : Boundary text start) :
    Draws text K lo (inherit rules modifiers start) fun n _ => n.Legible text := by
  unfold inherit
  refine .expect_bind fun word _ _ => .bind ok.expression fun argument _ _ hargument => ?_
  refine .expect_bind fun semicolon _ hsemicolon => ?_
  exact .legible hstart hsemicolon.range.stop hmodifiers (.cons hargument.legible .nil)

/-- **A function or variables** from the name on. -/
theorem draws_declared (ok : rules.Draw text) (scope : Scope) {start : Nat} {modifiers : List Lexeme}
    {typeName : Option Lexeme} (hstart : Boundary text start) (hwords : ∀ l ∈ modifiers ++ typeName.toList, l.Copied text) :
    Draws text K lo (declared rules scope start modifiers typeName) fun n _ => n.Legible text := by
  unfold declared
  refine .peek_bind fun t ht => .bind draws_eat fun star m₁ hm₁ _ => .bind draws_eatAmpersand ?_
  intro ampersand m₂ hm₂ _
  refine .bind draws_name fun name _ _ hname => .at_bind fun b => .ite (fun _ => ?_) fun _ => ?_
  · exact draws_function ok scope ⟨hstart, hwords⟩ hname.legible
  · refine .bind (draws_declaratorRest ok ⟨ht.atStart, hname.atStop, by exact AllLegible.cons hname.legible .nil⟩ false) ?_
    intro first _ _ hfirst
    refine .bind (draws_moreDeclarators ok true hfirst.legible) ?_
    rintro ⟨last, before⟩ _ - hdeclarators
    refine .bind draws_statementEnd fun _ _ _ _ => ?_
    exact .legible hstart (hdeclarators last (by simp)).stop hwords hdeclarators.reverse

theorem draws_declaration (ok : rules.Draw text) (scope : Scope) :
    Draws text K lo (declaration rules scope) fun n _ => n.Legible text := by
  unfold declaration
  refine .peek_bind fun t ht => .bind draws_modifiers fun modifiers _ _ hmodifiers => .peekKind_bind fun k => ?_
  have hstart : Boundary text t.span.start := ht.range.start
  have hwords {l : Lexeme} (hl : l.Copied text) : ∀ l' ∈ modifiers ++ (some l).toList, l'.Copied text :=
    List.forall_mem_append.2 ⟨hmodifiers, by simpa using hl⟩
  split
  · exact draws_inherit ok hmodifiers hstart
  · refine .take_bind fun first hfirst => .bind (draws_isTypeUsedAsName _ _) fun isName m hm _ => ?_
    refine .ite (fun _ => ?_) fun _ => .ite (fun _ => .expect_bind fun name _ hname => ?_) fun _ => ?_
    · have hleaf : (leaf first (.identifier first.text)).Drawn text _ first.span.stop := .leaf hfirst hfirst.slice? rfl
      refine .bind (draws_expressionFrom ok (hleaf.widen le_rfl hm)) fun node _ _ hnode => .bind draws_statementEnd ?_
      exact fun _ _ _ _ => .pure hnode.legible
    · refine .at_bind fun b => .ite (fun _ => ?_) fun _ => ?_
      · cases modifiers with
        | nil => exact draws_structDefinition ok hstart hname
        | cons modifier modifiers => exact .throw
      · refine .bind (draws_lexemeBetween hfirst hname le_rfl) fun l _ _ hl => ?_
        exact draws_declared ok _ hstart (hwords hl.1)
    · exact draws_declared ok _ hstart (hwords hfirst.lexeme)
  · exact .ite (fun _ => .wanted) fun _ => draws_declared ok _ hstart (by simpa using hmodifiers)

/-! ## Bodies -/

theorem draws_headComments : Draws text K lo headComments fun cs _ => AllCopied text cs := by
  unfold headComments
  refine .loop_bind (fun cs _ => AllCopied text cs) (by simp [AllCopied]) (fun cs m _ hcs => ?_) fun cs m _ hcs => ?_
  · refine .raw_bind fun t _ => .ite (fun _ => ?_) fun _ => .pure hcs
    exact .takeComment_bind fun c _ _ hc => .pure (List.forall_mem_cons.2 ⟨hc, hcs⟩)
  · exact .pure fun c hc => hcs c (List.mem_reverse.1 hc)

theorem draws_body (ok : rules.Draw text) : Draws text K lo (body rules) fun n _ => n.Legible text := by
  unfold body
  refine .bind draws_headComments fun cs m _ hcs => .parkAll_bind (copied_tail hcs) fun _ => ?_
  refine .at_bind fun b => .ite (fun _ => draws_block ok (copied_head? hcs)) fun _ => ?_
  have hrest : Draws text Anywhere m (do if ← at? .semicolon then placeholder else rules.statement .block)
      fun n _ => n.Legible text := by
    refine .at_bind fun b => .ite (fun _ => ?_) fun _ => ok.statement .block
    exact .expect_bind fun semicolon _ h => .pure (legible_leaf h (h.literal (by simp)) rfl)
  cases hhead : cs.head? with
  | none => exact hrest
  | some c => exact .park_bind (copied_head? hcs c hhead) fun _ => hrest

theorem draws_condition (ok : rules.Draw text) : Draws text K lo (condition rules) fun n _ => n.Legible text := by
  unfold condition
  refine .expect_bind fun start _ _ => .bind ok.expression fun test _ _ htest => ?_
  exact .expect_bind fun close _ _ => .pure htest.legible

/-! ## Branches and loops -/

theorem draws_ifElse (ok : rules.Draw text) : Draws text K lo (ifElse rules) fun n _ => n.Legible text := by
  unfold ifElse
  refine .take_bind fun word hword => .expect_bind fun start _ _ => .bind ok.expression fun test m _ htest => ?_
  extract_lets closes
  have hcloses : Draws text Anywhere m (closes ()) fun n _ => n.Legible text := by
    refine .expect_bind fun close _ _ => .bind (draws_body ok) fun body _ _ hbody => .trailingComment_bind hbody ?_
    intro consequent _ _ hconsequent
    refine .holdBlank_bind fun _ => .get_bind fun r => .ite (fun _ => .dropHeld_bind fun _ => .take_bind ?_) fun _ => ?_
    · intro elseWord _
      extract_lets ends
      have hends {m : Nat} (alternate : Node) (h : alternate.Legible text) :
          Draws text Anywhere m (ends alternate) fun n _ => n.Legible text :=
        .legible hword.range.start h.stop trivial (.cons htest.legible (.cons hconsequent (.cons h .nil)))
      refine .at_bind fun b => .ite (fun _ => ?_) fun _ => ?_
      · exact .bind (ok.statement .block) fun alternate _ _ h => hends alternate h
      · exact .bind (draws_body ok) fun alternate _ _ h => hends alternate h
    · exact .legible hword.range.start hconsequent.stop trivial (.cons htest.legible (.cons hconsequent .nil))
  exact .at_bind fun b => .ite (fun _ => .peek_bind fun _ _ => .throw_bind) fun _ => hcloses

theorem draws_whileLoop (ok : rules.Draw text) : Draws text K lo (whileLoop rules) fun n _ => n.Legible text := by
  unfold whileLoop
  refine .take_bind fun word hword => .bind (draws_condition ok) fun test _ _ htest => ?_
  refine .bind (draws_body ok) fun body _ _ hbody => ?_
  exact .legible hword.range.start hbody.stop trivial (.cons htest (.cons hbody .nil))

theorem draws_doWhile (ok : rules.Draw text) : Draws text K lo (doWhile rules) fun n _ => n.Legible text := by
  unfold doWhile
  refine .take_bind fun word hword => .bind (draws_body ok) fun body _ _ hbody => .expect_bind fun again _ _ => ?_
  refine .bind (draws_condition ok) fun test _ _ htest => .expect_bind fun semicolon _ hsemicolon => ?_
  exact .legible hword.range.start hsemicolon.range.stop trivial (.cons hbody (.cons htest .nil))

theorem draws_commaList (ok : rules.Draw text) : Draws text K lo (commaList rules) fun n _ => n.Legible text := by
  unfold commaList
  refine .bind ok.expression fun first _ _ hfirst => ?_
  refine .loop_bind (fun items _ => AllLegible text items) (.cons hfirst.legible .nil) (fun items m _ hitems => ?_) ?_
  · refine .eat_bind (fun comma _ => ?_) (.pure hitems)
    exact .bind ok.expression fun item _ _ hitem => .pure (.cons hitem.legible hitems)
  · intro items m _ hitems
    split
    · exact .pure hfirst.legible
    · exact .pure hfirst.legible
    · next last before _ =>
      exact .legible hfirst.legible.start (hitems last (by simp)).stop trivial hitems.reverse

/-- a part that is there -/
theorem draws_given {p : Parser Node} (h : Draws text K lo p fun n _ => n.Legible text) :
    Draws text K lo (some <$> p) fun o _ => AllLegible text o.toList :=
  .map (h.imp fun _ _ _ hn => .cons hn .nil)

theorem draws_missing : Draws text K lo (pure none) fun (o : Option Node) _ => AllLegible text o.toList := .pure .nil

theorem draws_forLoop (ok : rules.Draw text) : Draws text K lo (forLoop rules) fun n _ => n.Legible text := by
  unfold forLoop
  refine .take_bind fun word hword => .expect_bind fun start _ _ => .peekKind_bind fun k => ?_
  extract_lets afterInit
  have hinit {m : Nat} (init : Option Node) (hinit : AllLegible text init.toList) :
      Draws text Anywhere m (afterInit init) fun n _ => n.Legible text := by
    refine .expect_bind fun first _ _ => .at_bind fun b => ?_
    extract_lets afterTest
    have htest {m : Nat} (test : Option Node) (htest : AllLegible text test.toList) :
        Draws text Anywhere m (afterTest test) fun n _ => n.Legible text := by
      refine .expect_bind fun second _ _ => .at_bind fun b => ?_
      extract_lets afterUpdate
      have hupdate {m : Nat} (update : Option Node) (hupdate : AllLegible text update.toList) :
          Draws text Anywhere m (afterUpdate update) fun n _ => n.Legible text := by
        refine .expect_bind fun close _ _ => .bind (draws_body ok) fun body _ _ hbody => ?_
        refine .legible hword.range.start hbody.stop trivial ?_
        exact .append (.append (.append hinit htest) hupdate) (.cons hbody .nil)
      refine .ite (fun _ => .bind draws_missing fun x _ _ h => hupdate x h) fun _ => ?_
      exact .bind (draws_given (draws_commaList ok)) fun x _ _ h => hupdate x h
    refine .ite (fun _ => .bind draws_missing fun x _ _ h => htest x h) fun _ => ?_
    exact .bind (draws_given ok.expression.plain) fun x _ _ h => htest x h
  split
  · exact .bind draws_missing fun x _ _ h => hinit x h
  · exact .bind (draws_given (draws_localDeclaration ok)) fun x _ _ h => hinit x h
  · exact .bind (draws_given (draws_localDeclaration ok)) fun x _ _ h => hinit x h
  · exact .bind (draws_given (draws_commaList ok)) fun x _ _ h => hinit x h

theorem draws_maybeRange (ok : rules.Draw text) : Draws text K lo (maybeRange rules) (Node.Drawn text lo) := by
  unfold maybeRange
  refine .bind ok.expression fun first _ _ hfirst => .eat_bind (fun dots _ => ?_) (.pure hfirst)
  exact .bind ok.expression fun last _ _ hlast => draws_join hfirst hlast trivial rfl

/-- **The iterable of a loop comes behind its variables**, so what stands between them is a range of the text. -/
theorem draws_foreachLoop (ok : rules.Draw text) : Draws text K lo (foreachLoop rules) fun n _ => n.Legible text := by
  unfold foreachLoop
  refine .take_bind fun word hword => .expect_bind fun start _ _ => ?_
  -- the newest variable is the last one
  refine .loop_bind (fun vars hi => AllLegible text vars ∧ ∀ v ∈ vars.head?, v.stop ≤ hi) ⟨.nil, by simp⟩ ?_ ?_
  · rintro vars m - ⟨hvars, -⟩
    refine .bind ok.argument fun var m' _ hvar => ?_
    have hnext {hi : Nat} (hhi : m' ≤ hi) : AllLegible text (var :: vars) ∧ ∀ v ∈ (var :: vars).head?, v.stop ≤ hi :=
      ⟨.cons hvar.legible hvars, by simpa using hvar.stop.trans hhi⟩
    exact .eat_bind (fun comma hcomma => .pure (hnext hcomma.le)) (.pure (hnext le_rfl))
  · rintro vars m - ⟨hvars, hlast⟩
    refine .expect_bind fun mark _ hmark => .bind (draws_maybeRange ok) fun iterable _ _ hiterable => ?_
    refine .expect_bind fun close _ _ => .bind (draws_body ok) fun body _ _ hbody => ?_
    refine .legible hword.range.start hbody.stop ?_ (.append hvars.reverse (.cons hiterable.legible (.cons hbody .nil)))
    intro v hv
    rw [List.getLast?_reverse] at hv
    exact (hlast v hv).trans (hmark.le.trans hiterable.start)

/-! ## Switches -/

theorem draws_switchCase (ok : rules.Draw text) : Draws text K lo (switchCase rules) fun n _ => n.Legible text := by
  unfold switchCase
  refine .take_bind fun word hword => ?_
  extract_lets afterTest
  have htest {m : Nat} (test : Option Node) (htest : AllLegible text test.toList) :
      Draws text Anywhere m (afterTest test) fun n _ => n.Legible text := by
    refine .expect_bind fun colon _ hcolon => .bind (draws_statementList ok _ _) fun body _ _ hbody => ?_
    refine .legible hword.range.start ?_ trivial (.append htest hbody)
    -- a case without statements ends with its colon
    cases hlast : body.getLast? with
    | none => exact hcolon.range.stop
    | some last => exact (hbody last (List.mem_of_getLast? hlast)).stop
  refine .ite (fun _ => ?_) fun _ => .bind draws_missing fun x _ _ h => htest x h
  exact .bind (draws_given (draws_maybeRange ok).plain) fun x _ _ h => htest x h

theorem draws_switch (ok : rules.Draw text) : Draws text K lo (switch rules) fun n _ => n.Legible text := by
  unfold switch
  refine .take_bind fun word hword => .bind (draws_condition ok) fun test _ _ htest => .expect_bind fun brace _ _ => ?_
  refine .loop_bind (fun cases _ => AllLegible text cases) .nil (fun cases m _ hcases => ?_) fun cases m _ hcases => ?_
  · refine .raw_bind fun t _ => ?_
    split
    · exact .takeComment_bind fun c _ _ hc => .pure (.cons (.ofComment hc) hcases)
    · exact .takeComment_bind fun c _ _ hc => .pure (.cons (.ofComment hc) hcases)
    · exact .takeRaw_bind fun _ _ => .pure hcases
    · exact .bind (draws_switchCase ok) fun n _ _ hn => .pure (.cons hn hcases)
    · exact .bind (draws_switchCase ok) fun n _ _ hn => .pure (.cons hn hcases)
    · exact .pure hcases
  · refine .expect_bind fun close _ hclose => ?_
    exact .legible hword.range.start hclose.range.stop trivial (.cons htest hcases.reverse)

/-! ## Other statements -/

theorem draws_returnValue (ok : rules.Draw text) : Draws text K lo (returnValue rules) fun n _ => n.Legible text := by
  unfold returnValue
  refine .take_bind fun word hword => .peekKind_bind fun k => ?_
  extract_lets last
  have hlast {m : Nat} (argument : Option Node) (h : AllLegible text argument.toList) :
      Draws text Anywhere m (last argument) fun n _ => n.Legible text := by
    refine .eat_bind (fun semicolon hsemicolon => ?_) (.at_bind fun b => .ite (fun _ => ?_) fun _ => .wanted)
    · exact .legible hword.range.start hsemicolon.range.stop trivial h
    · -- without a semicolon the statement ends with its value, or with its word
      refine .legible hword.range.start ?_ trivial h
      cases argument with
      | none => exact hword.range.stop
      | some n => exact (h n (by simp)).stop
  refine .ite (fun _ => .bind draws_missing fun x _ _ h => hlast x h) fun _ => ?_
  exact .bind (draws_given ok.expression.plain) fun x _ _ h => hlast x h

theorem draws_jump : Draws text K lo jump fun n _ => n.Legible text := by
  unfold jump
  refine .take_bind fun word hword => .expect_bind fun semicolon _ hsemicolon => ?_
  exact .legible hword.range.start hsemicolon.range.stop trivial .nil

theorem draws_expressionStatement (ok : rules.Draw text) (scope : Scope) :
    Draws text K lo (expressionStatement rules scope) fun n _ => n.Legible text := by
  unfold expressionStatement
  refine .bind (draws_expression ok) fun node m _ hnode => ?_
  have hend {n : Node} (hn : n.Legible text) :
      Draws text Anywhere m (do statementEnd; return n) fun n _ => n.Legible text :=
    .bind draws_statementEnd fun _ _ _ _ => .pure hn
  split
  · next callee args hshape =>
    obtain ⟨span, shape, suffix⟩ := node
    obtain rfl : shape = .call callee args := hshape
    -- the call gives its parts to a function, which ends with its body, or where the call does
    have hlegible := hnode.legible
    refine .ite (fun _ => hend hlegible) fun _ => .at_bind fun b => .ite (fun _ => ?_) fun _ => ?_
    · refine .bind (draws_functionBody ok) fun body _ _ hbody => .spanning_bind fun hle => .pure ?_
      exact ⟨⟨hle, hlegible.start, hbody.stop⟩, by simp [Shape.Legible], hlegible.trail,
        AllLegible.append hlegible.parts (.cons hbody .nil)⟩
    · refine .bind draws_statementEnd fun _ _ _ _ => .ite (fun _ => .pure ?_) fun _ => .pure hlegible
      exact ⟨hlegible.range, by simp [Shape.Legible], hlegible.trail, AllLegible.append hlegible.parts .nil⟩
  · exact hend hnode.legible

theorem draws_statement (ok : rules.Draw text) (scope : Scope) :
    Draws text K lo (statement rules scope) fun n _ => n.Legible text := by
  unfold statement
  refine .peekKind_bind fun k => ?_
  split
  · exact draws_block ok (by simp)
  · exact draws_ifElse ok
  · exact draws_whileLoop ok
  · exact draws_doWhile ok
  · exact draws_forLoop ok
  · exact draws_foreachLoop ok
  · exact draws_switch ok
  · exact draws_returnValue ok
  · exact draws_jump
  · exact draws_jump
  · exact .peek_bind fun t ht => draws_inherit ok (by simp) ht.range.start
  · exact draws_directive
  · exact draws_declaration ok scope
  · exact draws_declaration ok scope
  · exact draws_expressionStatement ok scope

end Grammar

/-! ## Whole texts -/

open Grammar

variable {text : List Char}

/-- **Every depth** that is allowed draws from the text. -/
theorem Rules.draw_upTo (text : List Char) (depth : Nat) : (Rules.upTo depth).Draw text := by
  induction depth with
  | zero => exact ⟨.throw, .throw, fun _ _ => .throw, .throw, fun _ => .throw⟩
  | succ depth ih =>
    exact ⟨draws_expression ih, draws_operand ih, fun h => draws_climb ih h, draws_argument ih, draws_statement ih⟩

theorem draws_sourceFile {rules : Rules} (ok : rules.Draw text) :
    Draws text Anywhere 0 (sourceFile rules) fun roots _ => AllLegible text roots := by
  unfold sourceFile
  refine .bind (draws_statementList ok .file []) fun roots m _ hroots => .raw_bind fun t _ => ?_
  cases hfault : t.fault with
  | some fault => exact .throw_bind
  | none => exact .ite (fun _ => .unexpected_bind) fun _ => .pure hroots

/-- **What was read can be read again**: all ranges of a document are ranges of its text, and select what its nodes
hold. -/
theorem legible_parse {d : Document} (h : parse text = .ok d) : d.text = text ∧ AllLegible text d.roots := by
  obtain ⟨htext, s, hrun⟩ := parseWith_eq_ok_iff.1 h
  have hfollows : (Reading.ofText text).Follows text 0 :=
    ⟨rfl, rfl, List.suffix_rfl, fun t ht => ht, Stream.ascends_ofText text, by simp [AllCopied, Reading.ofText]⟩
  obtain ⟨hi, -, -, hroots⟩ := draws_sourceFile (Rules.draw_upTo text _) _ hfollows trivial _ _ hrun
  exact ⟨htext, hroots⟩

end LpcStyle
