import Mathlib.Tactic
import LpcStyle.Proofs.Grammar.Walks.Expression

/-!
Walks through declarations. A declaration starts with a modifier or a type, so its parts lie behind its start; a
declarator may be nothing but its name.
-/

namespace LpcStyle

open Text LpcStyle.Parser

/-- a token that may be missing, taken from an edge on -/
def Token.Found (text : List Char) (lo : Nat) (t : Option Token) (hi : Nat) : Prop :=
  ∀ u ∈ t, u.Solid text lo ∧ u.span.stop ≤ hi

namespace Grammar

/-- what stands before and after the name of a declarator lies around it -/
structure DeclaratorHead.Sits (text : List Char) (lo : Nat) (head : DeclaratorHead) (hi : Nat) : Prop where
  start : lo ≤ head.start
  stop : head.stop ≤ hi
  row : Branch.Row (Quiet text) head.start head.stop (Node.optionBranch head.name)
  clear : ∀ d ∈ Branch.solidsOf (Node.optionBranch head.name),
    head.start < d.span.start ∨ d.span.stop < head.stop ∨ d.span.stop ≤ head.stop ∧ d.shape.isShell = false

namespace DeclaratorHead.Sits

variable {text : List Char} {lo m hi stop : Nat} {head : DeclaratorHead}

/-- a head with a name ends with it -/
theorem named {name : Node} {isArray byRef : Bool} {start : Nat} (hlo : lo ≤ start) (hstart : start ≤ m)
    (hname : name.Sits text m hi) : DeclaratorHead.Sits text lo ⟨start, name.stop, some name, isArray, byRef⟩ hi := by
  refine ⟨hlo, hname.stop, hname.tight hstart, ?_⟩
  intro d hd
  rw [Node.optionBranch, Branch.solidsOf_cons, Branch.solidsOf_nil, List.append_nil] at hd
  rcases hname.label hd with h | h | h
  · exact .inl (hstart.trans_lt (hname.start.trans_lt h))
  · exact .inr (.inl h)
  · exact .inr (.inr h)

theorem unnamed {isArray byRef : Bool} {start : Nat} (hlo : lo ≤ start) (hstart : start ≤ stop) (hstop : stop ≤ hi) :
    DeclaratorHead.Sits text lo ⟨start, stop, none, isArray, byRef⟩ hi :=
  ⟨hlo, hstop, .nil hstart, fun _ hd => nomatch hd⟩

/-- **A declarator without a value** is a shell around its name if nothing else belongs to it. -/
theorem bare {shape : Shape Node} (h : head.Sits text lo m) (hstop : head.stop ≤ stop) (hpos : head.start < stop)
    (hle : stop ≤ hi) (hshell : shape.isShell = true) (hbranches : shape.branches = Node.optionBranch head.name) :
    (Node.mk ⟨head.start, stop⟩ shape none).Rests text lo hi := by
  refine .ofParts h.start hpos hle ?_ ?_
  · rw [hbranches]
    exact h.row.widen le_rfl hstop
  · rw [hbranches]
    intro d hd
    rcases h.clear d hd with hstart | hend | ⟨hend, hplain⟩
    · exact .inl hstart
    · exact .inr (.inl (hend.trans_le hstop))
    · exact .inr (.inr ⟨hend.trans hstop, (Node.isShell_map shape).trans hshell, hplain⟩)

/-- **A declarator with a value**, which stands behind a mark. -/
theorem valued {shape : Shape Node} {value : Node} {m' : Nat} (h : head.Sits text lo m) (hm : m < m')
    (hvalue : value.Sits text m' hi)
    (hbranches : shape.branches = Node.optionBranch head.name ++ [value.branch]) :
    (Node.mk ⟨head.start, value.stop⟩ shape none).Rests text lo hi := by
  have hhead : head.start ≤ head.stop := h.row.le
  have hstop : head.stop ≤ m := h.stop
  have hvalueStop : m' < value.stop := hvalue.starts
  refine .ofParts h.start (by simp only; omega) hvalue.stop ?_ ?_
  · rw [hbranches]
    exact h.row.append (hvalue.tight (by omega))
  · rw [hbranches, Branch.solidsOf_append]
    intro d hd
    rcases List.mem_append.1 hd with hd | hd
    · rcases h.clear d hd with hstart | hend | ⟨hend, -⟩
      · exact .inl hstart
      · exact .inr (.inl (by simp only; omega))
      · exact .inr (.inl (by simp only; omega))
    · have := (hvalue.toRests.alone.bounds d hd).1
      exact .inl (by simp only; omega)

end DeclaratorHead.Sits

variable {text : List Char} {K : Reading → Prop} {opened later : List Enclosure} {lo m hi : Nat} {rules : Rules}
  {t : Token} {β : Type} {R : β → Nat → Prop}

/-! ## Words and marks -/

theorem walks_modifiers : Walks text K opened lo modifiers opened fun ms hi =>
    (∀ l ∈ ms, Reached text l.span) ∧ (ms ≠ [] → lo < hi) := by
  unfold modifiers
  refine .loop_bind (fun ms hi => (∀ l ∈ ms, Reached text l.span) ∧ (ms ≠ [] → lo < hi)) (by simp) ?_ ?_
  · intro ms m hm hms
    refine .eat_bind rfl rfl (fun u hu => .pure ?_) (.pure hms)
    exact ⟨List.forall_mem_cons.2 ⟨hu.reached, hms.1⟩, fun _ => hm.trans_lt hu.lt⟩
  · intro ms m _ hms
    exact .pure (by simpa using hms)

theorem walks_eat {k : Kind} (hturn : k.turn opened = some opened) (hfirm : k.isFirm = true) :
    Walks text K opened lo (eat? k) opened (Token.Found text lo) := by
  rw [← bind_pure (eat? k)]
  refine .eat_bind hturn hfirm (fun u hu => .pure ?_) (.pure fun u hu => nomatch hu)
  intro v hv
  cases hv
  exact ⟨hu, le_rfl⟩

theorem walks_eatAmpersand : Walks text K opened lo eatAmpersand? opened (Token.Found text lo) := by
  unfold eatAmpersand? atAmpersand
  refine .atText_bind fun t => .ite (fun ht => ?_) fun _ => .pure fun u hu => nomatch hu
  have hkind : t.kind = .arithOp := of_decide_eq_true (Bool.and_eq_true_iff.1 ht).1
  refine .takeKind_bind hkind rfl rfl fun ht => .pure ?_
  intro u hu
  cases hu
  exact ⟨ht, le_rfl⟩

theorem walks_atDeclarator : Walks text K opened lo atDeclarator opened fun _ _ => True := by
  unfold atDeclarator atAmpersand
  refine walks_atName_bind fun t => .ite (fun _ => .pure trivial) fun _ => .peekKind_bind fun t => ?_
  refine .ite (fun _ => .pure trivial) fun _ => ?_
  rw [← bind_pure (atText? .arithOp "&")]
  exact .atText_bind fun t => .pure trivial

theorem walks_isTypeUsedAsName (modifiers : List Lexeme) (token : Token) :
    Walks text K opened lo (isTypeUsedAsName modifiers token) opened fun _ _ => True :=
  .ite (fun _ => .bind walks_atDeclarator fun _ _ _ _ => .pure trivial) fun _ => .pure trivial

theorem walks_lexemeBetween (first last : Token) :
    Walks text K opened lo (lexemeBetween first last) opened fun l hi => l.span.stop = last.span.stop ∧ hi = lo := by
  unfold lexemeBetween
  refine .spanning_bind fun _ => ?_
  rw [← bind_pure (lexeme _)]
  exact .lexeme_bind fun l hl => .pure ⟨by rw [hl], rfl⟩

/-- a type ends behind the start of its first word -/
theorem walks_typeFrom {first : Token} (hpos : first.span.start < first.span.stop) (hstop : first.span.stop ≤ lo) :
    Walks text K opened lo (typeFrom first) opened fun l hi => first.span.start < l.span.stop ∧ l.span.stop ≤ hi := by
  unfold typeFrom
  refine .ite (fun _ => .expect_bind rfl rfl fun name hname => ?_) fun _ => .pure ⟨hpos, hstop⟩
  refine (walks_lexemeBetween first name).imp ?_
  rintro l hi - ⟨hl, rfl⟩
  have := hname.lt
  omega

/-! ## Declarators -/

theorem walks_declaratorRest (ok : rules.Walk text) {head : DeclaratorHead} (hhead : head.Sits text lo m)
    (hpos : head.start < head.stop ∨ ∃ t : Token, t.kind = .ellipsis ∧ ∀ r, K r → Comes t r) (allowDefault : Bool) :
    Walks text K opened m (declaratorRest rules head allowDefault) opened (Node.Rests text lo) := by
  unfold declaratorRest
  -- an ellipsis makes up for a head that is empty
  have hellipsis : Walks text K opened m (eat? .ellipsis) opened fun e hi =>
      head.stop ≤ (e.map (·.span.stop)).getD head.stop ∧ (e.map (·.span.stop)).getD head.stop ≤ hi ∧
        head.start < (e.map (·.span.stop)).getD head.stop := by
    have hordered : head.start ≤ head.stop := hhead.row.le
    have hstop : head.stop ≤ m := hhead.stop
    have hsome {u : Token} (hu : u.Solid text m) : head.stop ≤ u.span.stop ∧ u.span.stop ≤ u.span.stop ∧
        head.start < u.span.stop := ⟨hstop.trans hu.lt.le, le_rfl, hordered.trans_lt (hstop.trans_lt hu.lt)⟩
    rw [← bind_pure (eat? .ellipsis)]
    rcases hpos with hpos | ⟨t, ht, hK⟩
    · exact .eat_bind rfl rfl (fun u hu => .pure (hsome hu)) (.pure ⟨le_rfl, hstop, hpos⟩)
    · exact (Walks.eatThere_bind rfl rfl ht fun hu => .pure (hsome hu)).weaken fun r _ hr => hK r hr
  refine hellipsis.bind ?_
  rintro ellipsis m' hm ⟨hle, hstop, hpos⟩
  extract_lets stop shape rest
  have hvalue {t : Token} {k : Kind} (ht : t.kind = k) (hturn : k.turn opened = some opened) (hfirm : k.isFirm = true) :
      Walks text (Comes t) opened m' (rest true) opened (Node.Rests text lo) := by
    refine .takeKind_bind ht hturn hfirm fun hmark => .bind ok.expression ?_
    intro value hi _ hvalue
    exact .build fun _ => hhead.valued (hm.trans_lt hmark.lt) hvalue rfl
  have hnone {K : Reading → Prop} : Walks text K opened m' (rest false) opened (Node.Rests text lo) :=
    .build fun _ => hhead.bare hle hpos hstop rfl (List.append_nil _)
  refine .atText_bind fun t => .ite (fun ht => ?_) fun _ => .ite (fun _ => .at_bind fun t => ?_) fun _ => ?_
  · have hkind : t.kind = .assignOp := of_decide_eq_true (Bool.and_eq_true_iff.1 ht).1
    rw [pure_bind]
    exact hvalue hkind rfl rfl
  · cases hcolon : decide (t.kind = .colon) with
    | true =>
      have hkind : t.kind = .colon := of_decide_eq_true hcolon
      exact hvalue hkind rfl rfl
    | false => exact hnone
  · rw [pure_bind]
    exact hnone

/-- what marks before a name end at the edge, and where they start if there are none -/
theorem marks_found {star ampersand : Option Token} (hstar : Token.Found text lo star m)
    (hampersand : Token.Found text m ampersand hi) (hlo : lo ≤ m) (hm : m ≤ hi) :
    lo ≤ ((ampersand.or star).map (·.span.stop)).getD lo ∧ ((ampersand.or star).map (·.span.stop)).getD lo ≤ hi := by
  cases ampersand with
  | some u =>
    obtain ⟨hu, hstop⟩ := hampersand u rfl
    exact ⟨hlo.trans hu.lt.le, hstop⟩
  | none =>
    cases star with
    | some u =>
      obtain ⟨hu, hstop⟩ := hstar u rfl
      exact ⟨hu.lt.le, hstop.trans hm⟩
    | none => exact ⟨le_rfl, hlo.trans hm⟩

theorem walks_declarator (ok : rules.Walk text) (allowDefault : Bool) :
    Walks text K opened lo (declarator rules allowDefault) opened (Node.Rests text lo) := by
  unfold declarator
  refine .peekStart_bind fun t ht => .bind (walks_eat rfl rfl) fun star m₁ hm₁ hstar => .bind walks_eatAmpersand ?_
  intro ampersand m₂ hm₂ hampersand
  extract_lets stop head rest
  obtain ⟨hstart, hstop⟩ := marks_found hstar hampersand hm₁ hm₂
  refine walks_atName_bind fun u => .ite (fun _ => .bind walks_nameNode ?_) fun _ => .at_bind fun u => ?_
  · intro name m₃ _ hname
    refine walks_declaratorRest ok (.named ht.start (hm₁.trans hm₂) hname) (.inl ?_) allowDefault
    exact (hm₁.trans hm₂).trans_lt hname.starts
  · have hhead : (head stop none).Sits text lo m₂ := .unnamed ht.start hstart hstop
    refine .ite (fun _ => .wanted_bind) ?_
    intro hbegun
    refine walks_declaratorRest ok hhead ?_ allowDefault
    by_cases hempty : stop = t.span.start
    · -- without a mark the next token is an ellipsis
      simp only [hempty, decide_true, Bool.true_and, Bool.not_eq_true', decide_eq_false_iff_not, Decidable.not_not] at hbegun
      exact .inr ⟨u, hbegun, fun _ hr => hr⟩
    · exact .inl (lt_of_le_of_ne hstart (Ne.symm hempty))

theorem walks_statementEnd : Walks text K opened lo statementEnd opened fun _ _ => True := by
  unfold statementEnd
  refine .peekKind_bind fun t => ?_
  split
  · next ht => exact .takeKind_bind ht rfl rfl fun _ => .pure trivial
  · next ht => exact .takeKind_bind ht rfl rfl fun _ => .pure trivial
  · exact .pure trivial
  · exact .pure trivial
  · exact .wanted

/-- **Declarators** come one behind the other. -/
theorem walks_moreDeclarators (ok : rules.Walk text) (comments : Bool) {first : Node} (hfirst : first.Rests text lo m) :
    Walks text K opened m (moreDeclarators rules comments first) opened (Node.Trail text lo) := by
  refine .loop (Node.Trail text lo) (.first hfirst) ?_
  rintro ⟨last, before⟩ m' - htrail
  refine .eat_bind rfl rfl (fun comma hcomma => ?_) (.pure htrail)
  have htrail : Node.Trail text lo (last, before) comma.span.stop := htrail.widen le_rfl hcomma.lt.le
  have hnext {m' : Nat} {last : Node} (htrail : Node.Trail text lo (last, before) m') :
      Walks text Anywhere opened m' (do return .inl (← declarator rules false, last :: before)) opened
        (Sum.elim (Node.Trail text lo) (Node.Trail text lo)) := by
    refine .bind (walks_declarator ok false) ?_
    intro n hi _ hn
    exact .pure (htrail.next hn)
  cases comments with
  | false => exact hnext htrail
  | true =>
    refine .trailingComment_bind ?_
    rintro last' m'' hm (rfl | ⟨c, rfl⟩)
    · exact hnext (htrail.widen le_rfl hm)
    · exact hnext ((htrail.withSuffix c).widen le_rfl hm)

theorem walks_localDeclaration (ok : rules.Walk text) :
    Walks text K opened lo (localDeclaration rules) opened (Node.Sits text lo) := by
  unfold localDeclaration
  refine .peekStart_bind fun t ht => .bind walks_modifiers fun modifiers m₁ hm₁ _ => ?_
  refine .expect_bind rfl rfl fun word hword => .bind (walks_typeFrom hword.pos le_rfl) fun typeName m₂ hm₂ _ => ?_
  refine .bind (walks_declarator ok false) fun first m₃ _ hfirst => .bind (walks_moreDeclarators ok false hfirst) ?_
  rintro ⟨last, before⟩ hi - htrail
  exact .build fun _ => ⟨.opened ht.start (hm₁.trans_lt (hword.lt.trans_le hm₂)) htrail.stop_le htrail.sitAll, rfl⟩

theorem walks_parameter (ok : rules.Walk text) :
    Walks text K opened lo (parameter rules) opened (Node.Sits text lo) := by
  unfold parameter
  refine .peekStart_bind fun t ht => .bind walks_modifiers fun modifiers m₁ hm₁ _ => ?_
  refine .expect_bind rfl rfl fun first hfirst => .bind (walks_isTypeUsedAsName _ _) fun isName m₂ hm₂ _ => .ite ?_ ?_
  · intro _
    have hleaf : (leaf first (.identifier first.text)).Sits text lo m₂ :=
      (sits_leaf hfirst rfl rfl).widen (ht.start.trans hm₁) hm₂
    exact walks_expressionFrom ok hleaf
  · intro _
    have hstart : t.span.start < first.span.stop := hm₁.trans_lt hfirst.lt
    refine .bind (walks_typeFrom hfirst.pos hm₂) fun typeName m₃ hm₃ htype => .bind walks_atDeclarator ?_
    intro isDeclarator m₄ hm₄ _
    refine .ite (fun _ => .bind (walks_declarator ok true) ?_) fun _ => .build fun _ => ?_
    · intro declarator hi _ hdeclarator
      refine .build fun _ => ⟨.opened ht.start ?_ hdeclarator.stop (hdeclarator.tight le_rfl), rfl⟩
      exact hstart.trans_le (hm₂.trans (hm₃.trans hm₄))
    · have hpos : t.span.start < typeName.span.stop := (hm₁.trans hfirst.start).trans_lt htype.1
      exact ⟨.opened ht.start hpos (htype.2.trans hm₄) (.nil le_rfl), rfl⟩

theorem walks_argument (ok : rules.Walk text) : Walks text K opened lo (argument rules) opened (Node.Sits text lo) := by
  unfold argument
  refine .peekKind_bind fun t => ?_
  split
  · exact walks_parameter ok
  · exact walks_parameter ok
  · exact walks_expression ok

/-! ## Blocks and functions -/

/-- **A block** between braces; a comment that opens it is one of the text. -/
theorem walks_block (ok : rules.Walk text) {openComment : Option Comment} (hopen : openComment ≠ none → ¬Quiet text) :
    Walks text K opened lo (block rules openComment) opened (Node.Sits text lo) := by
  unfold block
  refine .expect_bind rfl rfl fun start hstart => .get_bind fun r _ _ => ?_
  extract_lets rest
  have hrest {K : Reading → Prop} {m : Nat} (c : Option Comment) (hm : start.span.stop ≤ m) (hc : c ≠ none → ¬Quiet text) :
      Walks text K (.brace :: opened) m (rest c) opened (Node.Sits text lo) := by
    refine .bind (walks_statementList ok _ _) fun statements m' _ hstatements => .expect_bind rfl rfl ?_
    intro close hclose
    refine .build fun _ => ⟨.opened hstart.start hstart.pos le_rfl ?_, rfl⟩
    refine Branch.Row.append ?_ (hstatements.widen hm hclose.lt.le)
    cases c with
    | none => exact .nil le_rfl
    | some c => exact .comment c (hc (Option.some_ne_none c)) le_rfl
  refine .ite (fun h => ?_) fun _ => ?_
  · simp only [Bool.and_eq_true] at h
    rw [map_eq_pure_bind, bind_assoc]
    refine (Walks.takeComment_bind h.1.2 fun c m hm hq => ?_).weaken fun s _ hs => by rw [ComesRaw, hs]
    rw [pure_bind]
    exact hrest (some c) hm fun _ => hq
  · rw [pure_bind]
    exact hrest openComment le_rfl hopen

theorem head?_ne_none {cs : List Comment} (h : cs ≠ [] → ¬Quiet text) : cs.head? ≠ none → ¬Quiet text := by
  intro hne
  exact h fun hnil => hne (by rw [hnil]; rfl)

theorem tail_ne_nil {cs : List Comment} (h : cs ≠ [] → ¬Quiet text) : cs.tail ≠ [] → ¬Quiet text := by
  intro hne
  exact h fun hnil => hne (by rw [hnil]; rfl)

theorem walks_functionBody (ok : rules.Walk text) :
    Walks text K opened lo (functionBody rules) opened (Node.Sits text lo) := by
  unfold functionBody
  refine .at_bind fun t => .ite (fun _ => .wanted_bind) fun _ => ?_
  refine .takePending_bind (L := Anywhere) (fun _ _ => trivial) ?_
  intro cs hcs
  exact .parkAll_bind (tail_ne_nil hcs) (walks_block ok (head?_ne_none hcs))

/-- **A function** from its parameters on, which come behind its name. -/
theorem walks_function (ok : rules.Walk text) (scope : Scope) {head : DeclarationHead} {name : Node} {m' : Nat}
    (hstart : head.start < m') (hname : name.Sits text m' m) (hreached : Reached text name.span) :
    Walks text K opened m (function rules scope head name) opened (Node.Sits text head.start) := by
  unfold function
  refine .expect_bind rfl rfl fun start hopen => .bind (walks_delimited rfl rfl ok.argument.rests) ?_
  rintro ⟨params, close⟩ m₁ - hparams
  dsimp -zeta only
  extract_lets shape
  have hrow : Branch.Row (Quiet text) m' close.span.stop (name.branch :: Node.branches params) :=
    (hname.toRests.alone.widen le_rfl hopen.lt.le).append hparams.items
  refine .eat_bind rfl rfl (fun semicolon hsemicolon => .build fun _ => ?_) ?_
  · exact ⟨.opened le_rfl hstart (hparams.stop.trans hsemicolon.lt.le) (hrow.append (.nil le_rfl)), rfl⟩
  · refine .ite (fun _ => .refuse_bind (hreached.blames nofun)) fun _ => .bind (walks_functionBody ok) ?_
    intro body hi _ hbody
    exact .build fun _ => ⟨.opened le_rfl hstart hbody.stop (hrow.append (hbody.tight hparams.stop)), rfl⟩

theorem walks_structDefinition (ok : rules.Walk text) {start : Nat} {name : Token} {m' : Nat} (hstart : start < m')
    (hname : name.Solid text m') (hm : name.span.stop ≤ m) :
    Walks text K opened m (structDefinition rules start name) opened (Node.Sits text start) := by
  unfold structDefinition
  refine .expect_bind rfl rfl fun brace hbrace => .bind (walks_statementList ok _ _) fun members m₁ _ hmembers => ?_
  refine .expect_bind rfl rfl fun close hclose => ?_
  have hrow : Branch.Row (Quiet text) m' close.span.stop
      ((leaf name (.identifier name.text)).branch :: Node.branches members) :=
    ((rests_leaf hname rfl).alone.widen le_rfl (hm.trans hbrace.lt.le)).append (hmembers.widen le_rfl hclose.lt.le)
  have hbuild {hi : Nat} (hhi : close.span.stop ≤ hi) : Walks text Anywhere opened hi
      (build start close.span.stop (.structDef (leaf name (.identifier name.text)) members)) opened
      (Node.Sits text start) := .build fun _ => ⟨.opened le_rfl hstart hhi hrow, rfl⟩
  exact .eat_bind rfl rfl (fun semicolon hsemicolon => hbuild hsemicolon.lt.le) (hbuild le_rfl)

theorem walks_inherit (ok : rules.Walk text) (modifiers : List Lexeme) {start : Nat} (hstart : start ≤ lo) :
    Walks text K opened lo (inherit rules modifiers start) opened (Node.Sits text start) := by
  unfold inherit
  refine .expect_bind rfl rfl fun word hword => .bind ok.expression fun argument m _ hargument => ?_
  refine .expect_bind rfl rfl fun semicolon hsemicolon => .build fun _ => ?_
  exact ⟨.opened le_rfl (hstart.trans_lt hword.lt) le_rfl (hargument.toRests.alone.widen le_rfl hsemicolon.lt.le), rfl⟩

/-- **A function or variables** from the name on, behind a modifier or a type. -/
theorem walks_declared (ok : rules.Walk text) (scope : Scope) {start : Nat} (hstart : start < lo)
    (modifiers : List Lexeme) (typeName : Option Lexeme) :
    Walks text K opened lo (declared rules scope start modifiers typeName) opened (Node.Sits text start) := by
  unfold declared
  refine .peekStart_bind fun t ht => .bind (walks_eat rfl rfl) fun star m₁ hm₁ _ => .bind walks_eatAmpersand ?_
  intro ampersand m₂ hm₂ _
  refine .bind walks_name ?_
  rintro name m₃ - ⟨hname, hreached⟩
  have hbefore : t.span.start ≤ m₂ := hm₁.trans hm₂
  refine .at_bind fun u => .ite (fun _ => ?_) fun _ => ?_
  · exact walks_function ok scope (hstart.trans_le (ht.start.trans hbefore)) hname hreached
  · refine .bind (walks_declaratorRest ok (.named ht.start hbefore hname) (.inl ?_) false) fun first m₄ _ hfirst => ?_
    · exact hbefore.trans_lt hname.starts
    refine .bind (walks_moreDeclarators ok true hfirst) ?_
    rintro ⟨last, before⟩ m₅ - htrail
    refine .bind walks_statementEnd fun _ hi hhi _ => .build fun _ => ?_
    exact ⟨.opened le_rfl hstart (htrail.stop_le.trans hhi) htrail.sitAll, rfl⟩

theorem walks_declaration (ok : rules.Walk text) (scope : Scope) :
    Walks text K opened lo (declaration rules scope) opened (Node.Sits text lo) := by
  unfold declaration
  refine .peekStart_bind fun t ht => .bind walks_modifiers ?_
  rintro modifiers m₁ hm₁ ⟨hreached, hmodifiers⟩
  have hsits {n : Node} {hi : Nat} (hn : n.Sits text t.span.start hi) : n.Sits text lo hi := hn.widen ht.start le_rfl
  refine .peekKind_bind fun u => ?_
  split
  · exact (walks_inherit ok _ hm₁).imp fun _ _ _ hn => hsits hn
  · next hu =>
    refine .takeKind_bind hu rfl rfl fun hfirst => .bind (walks_isTypeUsedAsName _ _) ?_
    intro isName m₂ hm₂ _
    have hstart : t.span.start < u.span.stop := hm₁.trans_lt hfirst.lt
    refine .ite (fun _ => ?_) fun _ => .ite (fun _ => .expect_bind rfl rfl fun name hname => ?_) fun _ => ?_
    · have hleaf : (leaf u (.identifier u.text)).Sits text lo m₂ :=
        (sits_leaf hfirst rfl rfl).widen (ht.start.trans hm₁) hm₂
      refine .bind (walks_expressionFrom ok hleaf) fun node m₃ _ hnode => .bind walks_statementEnd ?_
      exact fun _ hi hhi _ => .pure (hnode.widen le_rfl hhi)
    · refine .at_bind fun v => .ite (fun _ => ?_) fun _ => ?_
      · cases modifiers with
        | nil =>
          refine (walks_structDefinition ok (hstart.trans_le hm₂) hname le_rfl).imp ?_
          exact fun _ _ _ hn => hsits hn
        | cons modifier modifiers => exact .refuse ((hreached modifier (by simp)).blames nofun)
      · refine .bind (walks_lexemeBetween _ _) ?_
        rintro l m₃ hm₃ -
        have hbehind : t.span.start < m₃ := hstart.trans_le (hm₂.trans (hname.lt.le.trans hm₃))
        exact (walks_declared ok _ hbehind _ _).imp fun _ _ _ hn => hsits hn
    · exact (walks_declared ok _ (hstart.trans_le hm₂) _ _).imp fun _ _ _ hn => hsits hn
  · refine .ite (fun _ => .wanted) fun hempty => ?_
    have hne : modifiers ≠ [] := by
      intro hnil
      simp [hnil] at hempty
    exact (walks_declared ok _ (hmodifiers hne) _ _).imp fun _ _ _ hn => hsits hn

end Grammar

end LpcStyle
