import Mathlib.Tactic
import LpcStyle.Proofs.Grammar.Spends.Expression

/-!
Declarations and statements spend tokens.
-/

namespace LpcStyle.Grammar

open Text LpcStyle.Parser

variable {K : Reading → Prop} {n m c : Nat} {rules : Rules} {t : Token}

/-! ## Parts of declarations -/

/-- one round of modifiers -/
def modifierRound (found : List Lexeme) : Parser (List Lexeme ⊕ List Lexeme) := do
  match ← eat? .modifier with
  | some token => return .inl (.ofToken token :: found)
  | none => return .inr found

theorem modifiers_eq : modifiers = (do
    let found ← loop [] modifierRound
    return found.reverse) := rfl

theorem spends_modifierRound (hc : m < c) (found : List Lexeme) : Spends K m (modifierRound found) (Goes m c) :=
  .eat_bind (by decide) (fun _ _ hk => .goOn hk) (.last hc)

theorem spends_modifiers : Spends K m modifiers (Fewer (m + 1)) := by
  rw [modifiers_eq]
  exact .bind (.loop fun found k hk => spends_modifierRound (by omega) found) fun _ _ hk => .done hk

theorem spends_eatAmpersand : Spends K m eatAmpersand? (Fewer (m + 1)) := by
  refine .atText_bind fun t => .ite (fun ht => ?_) fun _ => .idle
  have hkind : t.kind = .arithOp := of_decide_eq_true (Bool.and_eq_true_iff.1 ht).1
  exact .takeKind_bind hkind (by decide) fun _ k hk => .done (by omega)

theorem spends_atDeclarator : Spends K m atDeclarator (Fewer (m + 1)) := by
  refine spends_atName_bind fun t => .ite (fun _ => .idle) fun _ => .peekKind_bind fun t => .ite (fun _ => .idle) fun _ => ?_
  exact .peek_bind fun t => .idle

theorem spends_lexemeBetween (first last : Token) : Spends K m (lexemeBetween first last) (Fewer (m + 1)) :=
  .bind .spanning fun _ _ hk => Spends.lexeme.mono hk

theorem spends_typeFrom (first : Token) : Spends K m (typeFrom first) (Fewer (m + 1)) := by
  refine .ite (fun _ => .expect_bind (by decide) fun last k hk => ?_) fun _ => .idle
  exact (spends_lexemeBetween first last).mono (by omega)

theorem spends_isTypeUsedAsName (found : List Lexeme) (token : Token) :
    Spends K m (isTypeUsedAsName found token) (Fewer (m + 1)) :=
  .ite (fun _ => .bind spends_atDeclarator fun _ _ hk => .done hk) fun _ => .idle

theorem spends_declaratorRest (ok : rules.Spend n) (hm : m ≤ n) (head : DeclaratorHead) (allowDefault : Bool) :
    Spends K m (declaratorRest rules head allowDefault) (Fewer (m + 1)) := by
  unfold declaratorRest
  refine .bind (.eat (by decide)) fun ellipsis k hk => ?_
  extract_lets stop shape rest
  have hvalue {u : Token} (hu : u.kind ≠ .endOfFile) : Spends (Comes u) k (rest true) (Fewer (m + 1)) := by
    refine .take_bind hu fun mark l hl => .bind (ok.expression (by omega)) fun value i hi => ?_
    exact .build (by omega)
  have hnone {L : Reading → Prop} : Spends L k (rest false) (Fewer (m + 1)) := .build (by omega)
  refine .atText_bind fun t => .ite (fun ht => ?_) fun _ => .ite (fun _ => .at_bind fun u => ?_) fun _ => hnone
  · have hkind : t.kind = .assignOp := of_decide_eq_true (Bool.and_eq_true_iff.1 ht).1
    exact hvalue (by simp [hkind])
  · by_cases hu : u.kind = .colon
    · rw [hu, decide_eq_true rfl]
      exact hvalue (by simp [hu])
    · rw [decide_eq_false hu]
      exact hnone

/-- a declarator takes its name, its marks, or its ellipsis -/
theorem spends_declarator (ok : rules.Spend n) (hm : m ≤ n) (allowDefault : Bool) :
    Spends K m (declarator rules allowDefault) (Fewer (m + 1)) := by
  unfold declarator
  refine .peek_bind fun t => .bind (.eat (by decide)) fun star k hk => .bind spends_eatAmpersand fun ampersand l hl => ?_
  refine spends_atName_bind fun u => .ite (fun _ => .bind spends_name fun name i hi => ?_) fun _ => .at_bind fun u => ?_
  · exact (spends_declaratorRest ok (by omega) _ _).mono (by omega)
  · have hrest {L : Reading → Prop} {head : DeclaratorHead} :
        Spends L l (declaratorRest rules head allowDefault) (Fewer (m + 1)) :=
      (spends_declaratorRest ok (by omega) _ _).mono (by omega)
    exact .ite (fun _ => .never_bind .wanted) fun _ => hrest

theorem spends_statementEnd : Spends K m statementEnd (Fewer (m + 1)) := by
  refine .peekKind_bind fun t => ?_
  split
  · next ht => exact .takeKind_bind ht (by decide) fun _ k hk => .done (by omega)
  · next ht => exact .takeKind_bind ht (by decide) fun _ k hk => .done (by omega)
  · exact .idle
  · exact .idle
  · exact .wanted

/-- one round of declarators -/
def declaratorRound (rules : Rules) (comments : Bool) :
    Node × List Node → Parser (Node × List Node ⊕ Node × List Node) := fun (last, before) => do
  match ← eat? .comma with
  | some _ =>
    let last ← if comments then trailingComment last else pure last
    return .inl (← declarator rules false, last :: before)
  | none => return .inr (last, before)

theorem moreDeclarators_eq (comments : Bool) (first : Node) :
    moreDeclarators rules comments first = loop (first, []) (declaratorRound rules comments) := rfl

theorem spends_declaratorRound (ok : rules.Spend n) (hm : m ≤ n) (hc : m < c) (comments : Bool)
    (found : Node × List Node) : Spends K m (declaratorRound rules comments found) (Goes m c) := by
  unfold declaratorRound
  refine .eat_bind (by decide) (fun _ k hk => ?_) (.last hc)
  have hdeclarator {l : Nat} (hl : l < k + 1) : Spends Anywhere l (declarator rules false) (Fewer m) :=
    (spends_declarator ok (by omega) false).mono (by omega)
  refine .ite (fun _ => .bind .trailingComment fun last l hl => ?_) fun _ => .bind .idle fun last l hl => ?_
  · exact .again (hdeclarator hl)
  · exact .again (hdeclarator hl)

theorem spends_moreDeclarators (ok : rules.Spend n) (hm : m ≤ n) (comments : Bool) (first : Node) :
    Spends K m (moreDeclarators rules comments first) (Fewer (m + 1)) := by
  rw [moreDeclarators_eq]
  exact .loop fun found k hk => spends_declaratorRound ok (by omega) (by omega) comments found

theorem spends_localDeclaration (ok : rules.Spend n) (hm : m ≤ n) :
    Spends K m (localDeclaration rules) (Fewer m) := by
  refine .peek_bind fun t => .bind spends_modifiers fun found k hk => .expect_bind (by decide) fun first l hl => ?_
  refine .bind (spends_typeFrom first) fun typeName i hi => .bind (spends_declarator ok (by omega) false) fun first j hj => ?_
  exact .bind (spends_moreDeclarators ok (by omega) false first) fun found _ _ => .build (by omega)

theorem spends_parameter (ok : rules.Spend n) (hm : m ≤ n) : Spends K m (parameter rules) (Fewer m) := by
  refine .peek_bind fun t => .bind spends_modifiers fun found k hk => .expect_bind (by decide) fun first l hl => ?_
  refine .bind (spends_isTypeUsedAsName found first) fun used i hi => .ite (fun _ => ?_) fun _ => ?_
  · exact (spends_expressionFrom ok (by omega) _).mono (by omega)
  · refine .bind (spends_typeFrom first) fun typeName j hj => .bind spends_atDeclarator fun at? u hu => ?_
    refine .ite (fun _ => .bind (spends_declarator ok (by omega) true) fun _ _ _ => .build (by omega)) fun _ => ?_
    exact .build (by omega)

theorem spends_argument (ok : rules.Spend n) (hm : m ≤ n) : Spends K m (argument rules) (Fewer m) := by
  refine .peekKind_bind fun t => ?_
  split
  · exact spends_parameter ok hm
  · exact spends_parameter ok hm
  · exact spends_expression ok hm

/-! ## Declarations -/

theorem spends_block (ok : rules.Spend n) (hm : m ≤ n) (openComment : Option Comment) :
    Spends K m (block rules openComment) (Fewer m) := by
  unfold block
  refine .expect_bind (by decide) fun start k hk => .get_bind fun r _ _ => ?_
  extract_lets rest
  have hrest (comment : Option Comment) (l : Nat) (hl : l < k + 1) : Spends Anywhere l (rest comment) (Fewer m) := by
    refine .bind (spends_statementList ok (by omega) .block _) fun statements i hi => ?_
    exact .expect_bind (by decide) fun close j hj => .build (by omega)
  refine .ite (fun h => ?_) fun _ => .bind .idle hrest
  have hcomment : r.raw.kind ≠ .endOfFile := by
    intro heof
    simp [heof, Kind.isComment] at h
  refine .bind (.map ((Spends.takeComment hcomment).weaken fun s _ hs => by rw [ComesRaw, hs])) ?_
  exact fun comment l hl => hrest comment l (by omega)

theorem spends_functionBody (ok : rules.Spend n) (hm : m ≤ n) : Spends K m (functionBody rules) (Fewer m) := by
  refine .at_bind fun t => .ite (fun _ => .never_bind .wanted) fun _ => ?_
  refine .bind .takePending fun pending k hk => .bind (.parkAll _) fun _ l hl => ?_
  exact (spends_block ok (by omega) _).mono (by omega)

theorem spends_function (ok : rules.Spend n) (hm : m ≤ n) (scope : Scope) (head : DeclarationHead) (name : Node) :
    Spends K m (function rules scope head name) (Fewer m) := by
  refine .expect_bind (by decide) fun start k hk => ?_
  refine .bind (spends_delimited (by decide) fun i hi => ok.argument (by omega)) fun x l hl => ?_
  refine .eat_bind (by decide) (fun _ i hi => .build (by omega)) (.ite (fun _ => .never_bind .refuse) fun _ => ?_)
  exact .bind (spends_functionBody ok (by omega)) fun body i hi => .build (by omega)

theorem spends_structDefinition (ok : rules.Spend n) (hm : m ≤ n) (start : Nat) (name : Token) :
    Spends K m (structDefinition rules start name) (Fewer m) := by
  refine .expect_bind (by decide) fun brace k hk => .bind (spends_statementList ok (by omega) .block _) fun members l hl => ?_
  refine .expect_bind (by decide) fun close i hi => .bind (.eat (by decide)) fun _ j hj => .build (by omega)

theorem spends_inherit (ok : rules.Spend n) (hm : m ≤ n) (found : List Lexeme) (start : Nat) :
    Spends K m (inherit rules found start) (Fewer m) := by
  refine .expect_bind (by decide) fun word k hk => .bind (ok.expression (by omega)) fun argument l hl => ?_
  exact .expect_bind (by decide) fun semicolon i hi => .build (by omega)

theorem spends_declared (ok : rules.Spend n) (hm : m ≤ n) (scope : Scope) (start : Nat) (found : List Lexeme)
    (typeName : Option Lexeme) : Spends K m (declared rules scope start found typeName) (Fewer m) := by
  unfold declared
  refine .peek_bind fun t => .bind (.eat (by decide)) fun star k hk => .bind spends_eatAmpersand fun ampersand l hl => ?_
  extract_lets byRef
  refine .bind spends_name fun name i hi => .at_bind fun u => .ite (fun _ => ?_) fun _ => ?_
  · exact (spends_function ok (by omega) scope _ name).mono (by omega)
  · refine .bind (spends_declaratorRest ok (by omega) _ false) fun first j hj => ?_
    refine .bind (spends_moreDeclarators ok (by omega) true first) fun found u hu => ?_
    exact .bind spends_statementEnd fun _ v hv => .build (by omega)

theorem spends_declaration (ok : rules.Spend n) (hm : m ≤ n) (scope : Scope) :
    Spends K m (declaration rules scope) (Fewer m) := by
  unfold declaration
  refine .peek_bind fun t => .bind spends_modifiers fun found k hk => .peekKind_bind fun u => ?_
  split
  · exact (spends_inherit ok (by omega) found _).mono (by omega)
  · next hu =>
    refine .takeKind_bind hu (by decide) fun first l hl => ?_
    have hdeclared {L : Reading → Prop} {j : Nat} (hj : j ≤ l) (typeName : Option Lexeme) :
        Spends L j (declared rules scope t.span.start found typeName) (Fewer m) :=
      (spends_declared ok (by omega) scope _ found typeName).mono (by omega)
    refine .bind (spends_isTypeUsedAsName found first) fun used i hi => .ite (fun _ => ?_) fun _ => .ite (fun _ => ?_) fun _ => ?_
    · refine .bind (spends_expressionFrom ok (by omega) _) fun node j hj => ?_
      exact .bind spends_statementEnd fun _ v hv => .done (by omega)
    · refine .expect_bind (by decide) fun name j hj => .at_bind fun w => .ite (fun _ => ?_) fun _ => ?_
      · cases found with
        | nil => exact (spends_structDefinition ok (by omega) _ name).mono (by omega)
        | cons modifier _ => exact .refuse
      · exact .bind (spends_lexemeBetween first name) fun typeName v hv => hdeclared (by omega) _
    · exact hdeclared (by omega) _
  · exact .ite (fun _ => .wanted) fun _ => (spends_declared ok (by omega) scope _ found none).mono (by omega)

/-! ## Bodies and conditions -/

/-- one round of comments between the head of a statement and its body -/
def commentRound (found : List Comment) : Parser (List Comment ⊕ List Comment) := do
  if (← raw).kind.isComment then return .inl ((← takeComment) :: found) else return .inr found

theorem headComments_eq : headComments = (do
    let found ← loop [] commentRound
    return found.reverse) := rfl

theorem spends_commentRound (hc : m < c) (found : List Comment) : Spends K m (commentRound found) (Goes m c) := by
  refine .raw_bind fun t => .ite (fun ht => .again (.takeComment ?_)) fun _ => .last hc
  intro heof
  simp [heof, Kind.isComment] at ht

theorem spends_headComments : Spends K m headComments (Fewer (m + 1)) := by
  rw [headComments_eq]
  exact .bind (.loop fun found k hk => spends_commentRound (by omega) found) fun _ _ hk => .done hk

theorem spends_placeholder : Spends K m placeholder (Fewer m) := .expect_bind (by decide) fun _ _ hk => .done hk

theorem spends_body (ok : rules.Spend n) (hm : m < n) : Spends K m (body rules) (Fewer m) := by
  refine .bind spends_headComments fun comments k hk => .bind (.parkAll _) fun _ l hl => ?_
  refine .at_bind fun t => .ite (fun _ => (spends_block ok (by omega) _).mono (by omega)) fun _ => ?_
  have hpark {L : Reading → Prop} : Spends L l (comments.head?.forM park) (Fewer (l + 1)) := by
    cases comments.head? with
    | none => exact .idle
    | some comment => exact .park
  refine .bind hpark fun _ i hi => .at_bind fun u => .ite (fun _ => spends_placeholder.mono (by omega)) fun _ => ?_
  exact ((ok.statement .block (by omega)).mono (by omega)).anywhere

theorem spends_condition (ok : rules.Spend n) (hm : m ≤ n) : Spends K m (condition rules) (Fewer m) := by
  refine .expect_bind (by decide) fun start k hk => .bind (ok.expression (by omega)) fun test l hl => ?_
  exact .expect_bind (by decide) fun close i hi => .done (by omega)

/-! ## Statements -/

theorem spends_ifElse (ok : rules.Spend n) (hm : m ≤ n) (ht : t.kind = .ifWord) :
    Spends (Comes t) m (ifElse rules) (Fewer m) := by
  unfold ifElse
  refine .takeKind_bind ht (by decide) fun keyword k hk => .expect_bind (by decide) fun start l hl => ?_
  refine .bind (ok.expression (by omega)) fun test i hi => .at_bind fun u => ?_
  extract_lets rest
  have hrest {L : Reading → Prop} : Spends L i (rest ⟨⟩) (Fewer m) := by
    refine .expect_bind (by decide) fun close j hj => .bind (spends_body ok (by omega)) fun body v hv => ?_
    refine .bind .trailingComment fun consequent w hw => .bind .holdBlank fun _ x hx => .get_bind fun r _ _ => ?_
    refine .ite (fun hword => .dropHeld_bind (by rw [hword]; rfl) ?_) fun _ => .build (by omega)
    refine .takeKind_bind hword (by decide) fun _ y hy => .at_bind fun u => .ite (fun _ => ?_) fun _ => ?_
    · exact .bind (ok.statement .block (by omega)).anywhere fun alternate z hz => .build (by omega)
    · exact .bind (spends_body ok (by omega)) fun alternate z hz => .build (by omega)
  exact .ite (fun _ => .peek_bind fun u => .never_bind .refuse) fun _ => hrest

theorem spends_whileLoop (ok : rules.Spend n) (hm : m ≤ n) (ht : t.kind = .whileWord) :
    Spends (Comes t) m (whileLoop rules) (Fewer m) := by
  refine .takeKind_bind ht (by decide) fun keyword k hk => .bind (spends_condition ok (by omega)) fun test l hl => ?_
  exact .bind (spends_body ok (by omega)) fun body i hi => .build (by omega)

theorem spends_doWhile (ok : rules.Spend n) (hm : m ≤ n) (ht : t.kind = .doWord) :
    Spends (Comes t) m (doWhile rules) (Fewer m) := by
  refine .takeKind_bind ht (by decide) fun keyword k hk => .bind (spends_body ok (by omega)) fun body l hl => ?_
  refine .expect_bind (by decide) fun word i hi => .bind (spends_condition ok (by omega)) fun test j hj => ?_
  exact .expect_bind (by decide) fun semicolon _ _ => .build (by omega)

/-- one round of expressions with commas between them -/
def commaRound (rules : Rules) (items : List Node) : Parser (List Node ⊕ List Node) := do
  match ← eat? .comma with
  | some _ => return .inl ((← rules.expression) :: items)
  | none => return .inr items

theorem commaList_eq : commaList rules = (do
    let first ← rules.expression
    let items ← loop [first] (commaRound rules)
    match items with
    | [] | [_] => return first
    | last :: _ => build first.start last.stop (.multiExpression items.reverse)) := rfl

theorem spends_commaRound (ok : rules.Spend n) (hm : m ≤ n) (hc : m < c) (items : List Node) :
    Spends K m (commaRound rules items) (Goes m c) := by
  refine .eat_bind (by decide) (fun _ k hk => .again ?_) (.last hc)
  exact (ok.expression (by omega)).mono hk.le

theorem spends_commaList (ok : rules.Spend n) (hm : m < n) : Spends K m (commaList rules) (Fewer m) := by
  rw [commaList_eq]
  refine .bind (ok.expression hm).anywhere fun first k hk => .bind (.loop (c := k + 1) fun items l hl => ?_) ?_
  · exact spends_commaRound ok (by omega) (by omega) items
  · intro items l hl
    split
    · exact .done (by omega)
    · exact .done (by omega)
    · exact .build (by omega)

theorem spends_forLoop (ok : rules.Spend n) (hm : m ≤ n) (ht : t.kind = .forWord) :
    Spends (Comes t) m (forLoop rules) (Fewer m) := by
  unfold forLoop
  refine .takeKind_bind ht (by decide) fun keyword k hk => .expect_bind (by decide) fun start l hl => ?_
  refine .peekKind_bind fun u => ?_
  extract_lets afterInit
  have hinit (init : Option Node) (i : Nat) (hi : i ≤ l) : Spends Anywhere i (afterInit init) (Fewer m) := by
    refine .expect_bind (by decide) fun _ j hj => .at_bind fun u => ?_
    extract_lets afterTest
    have htest (test : Option Node) (v : Nat) (hv : v ≤ j) : Spends Anywhere v (afterTest test) (Fewer m) := by
      refine .expect_bind (by decide) fun _ w hw => .at_bind fun u => ?_
      extract_lets afterUpdate
      have hupdate (update : Option Node) (x : Nat) (hx : x ≤ w) : Spends Anywhere x (afterUpdate update) (Fewer m) :=
        .expect_bind (by decide) fun _ y hy => .bind (spends_body ok (by omega)) fun body z hz => .build (by omega)
      refine .ite (fun _ => .bind .idle fun update x hx => hupdate update x (by omega)) fun _ => ?_
      exact .bind (.map (spends_commaList ok (by omega))) fun update x hx => hupdate update x (by omega)
    refine .ite (fun _ => .bind .idle fun test v hv => htest test v (by omega)) fun _ => ?_
    exact .bind (.map (ok.expression (by omega)).anywhere) fun test v hv => htest test v (by omega)
  split
  · exact .bind .idle fun init i hi => hinit init i (by omega)
  · exact .bind (.map (spends_localDeclaration ok (by omega))) fun init i hi => hinit init i (by omega)
  · exact .bind (.map (spends_localDeclaration ok (by omega))) fun init i hi => hinit init i (by omega)
  · exact .bind (.map (spends_commaList ok (by omega))) fun init i hi => hinit init i (by omega)

theorem spends_maybeRange (ok : rules.Spend n) (hm : m < n) : Spends K m (maybeRange rules) (Fewer m) := by
  refine .bind (ok.expression hm).anywhere fun first k hk => .eat_bind (by decide) (fun _ l hl => ?_) (.done hk)
  exact .bind (ok.expression (by omega)) fun last i hi => .build (by omega)

/-- one round of the variables of a loop over values -/
def variableRound (rules : Rules) (vars : List Node) : Parser (List Node ⊕ List Node) := do
  let var ← rules.argument
  match ← eat? .comma with
  | some _ => return .inl (var :: vars)
  | none => return .inr (var :: vars)

theorem foreachLoop_eq : foreachLoop rules = (do
    let keyword ← take
    let _ ← expect .parenStart (.mark "(")
    let vars ← loop [] (variableRound rules)
    let _ ← expect .foreachIn .loopSeparator
    let iterable ← maybeRange rules
    let _ ← expect .parenEnd (.mark ")")
    let body ← body rules
    build keyword.span.start body.stop (.foreachLoop vars.reverse iterable body)) := rfl

theorem spends_variableRound (ok : rules.Spend n) (hm : m < n) (hc : m < c) (vars : List Node) :
    Spends K m (variableRound rules vars) (Goes m c) := by
  refine .bind (ok.argument hm).anywhere fun var k hk => .eat_bind (by decide) (fun _ l hl => ?_) (.last (by omega))
  exact .goOn (by omega)

theorem spends_foreachLoop (ok : rules.Spend n) (hm : m ≤ n) (ht : t.kind = .foreachWord) :
    Spends (Comes t) m (foreachLoop rules) (Fewer m) := by
  rw [foreachLoop_eq]
  refine .takeKind_bind ht (by decide) fun keyword k hk => .expect_bind (by decide) fun start l hl => ?_
  refine .bind (.loop (c := l + 1) fun vars i hi => spends_variableRound ok (by omega) (by omega) vars) fun vars i hi => ?_
  refine .expect_bind (by decide) fun word j hj => .bind (spends_maybeRange ok (by omega)) fun iterable u hu => ?_
  exact .expect_bind (by decide) fun close v hv => .bind (spends_body ok (by omega)) fun body w hw => .build (by omega)

theorem spends_switchCase (ok : rules.Spend n) (hm : m ≤ n) (ht : t.kind ≠ .endOfFile) :
    Spends (Comes t) m (switchCase rules) (Fewer m) := by
  unfold switchCase
  refine .take_bind ht fun keyword k hk => ?_
  extract_lets rest
  have hrest (test : Option Node) (l : Nat) (hl : l < k + 1) : Spends Anywhere l (rest test) (Fewer m) := by
    refine .expect_bind (by decide) fun colon i hi => ?_
    exact .bind (spends_statementList ok (by omega) .block _) fun body j hj => .build (by omega)
  refine .ite (fun _ => .bind (.map (spends_maybeRange ok (by omega))) fun test l hl => ?_) fun _ => .bind .idle hrest
  exact hrest test l (by omega)

/-- one round of the cases of a switch -/
def caseRound (rules : Rules) (cases : List Node) : Parser (List Node ⊕ List Node) := do
  match (← raw).kind with
  | .lineComment | .blockComment => return .inl (.ofComment (← takeComment) :: cases)
  | .blankLines =>
    let _ ← takeRaw
    return .inl cases
  | .caseWord | .defaultWord => return .inl ((← switchCase rules) :: cases)
  | _ => return .inr cases

theorem switch_eq : switch rules = (do
    let keyword ← take
    let test ← condition rules
    let _ ← expect .leftBrace (.mark "\x7b")
    let cases ← loop [] (caseRound rules)
    let close ← expect .rightBrace (.mark "\x7d")
    build keyword.span.start close.span.stop (.switch test cases.reverse)) := rfl

theorem spends_caseRound (ok : rules.Spend n) (hm : m ≤ n) (hc : m < c) (cases : List Node) :
    Spends K m (caseRound rules cases) (Goes m c) := by
  refine .raw_bind fun t => ?_
  split
  · next ht => exact .again (.takeComment (by simp [ht]))
  · next ht => exact .again (.takeComment (by simp [ht]))
  · next ht => exact .takeRaw_bind (by simp [ht]) fun _ _ hk => .goOn hk
  · next ht => exact .again ((spends_switchCase ok hm (by simp [ht])).nextRaw (by rw [ht]; rfl))
  · next ht => exact .again ((spends_switchCase ok hm (by simp [ht])).nextRaw (by rw [ht]; rfl))
  · exact .last hc

theorem spends_switch (ok : rules.Spend n) (hm : m ≤ n) (ht : t.kind = .switchWord) :
    Spends (Comes t) m (switch rules) (Fewer m) := by
  rw [switch_eq]
  refine .takeKind_bind ht (by decide) fun keyword k hk => .bind (spends_condition ok (by omega)) fun test l hl => ?_
  refine .expect_bind (by decide) fun brace i hi => ?_
  refine .bind (.loop (c := i + 1) fun cases j hj => spends_caseRound ok (by omega) (by omega) cases) fun cases j hj => ?_
  exact .expect_bind (by decide) fun close _ _ => .build (by omega)

theorem spends_returnValue (ok : rules.Spend n) (hm : m ≤ n) (ht : t.kind = .returnWord) :
    Spends (Comes t) m (returnValue rules) (Fewer m) := by
  unfold returnValue
  refine .takeKind_bind ht (by decide) fun keyword k hk => .peekKind_bind fun u => ?_
  extract_lets rest
  have hrest (argument : Option Node) (l : Nat) (hl : l < k + 1) : Spends Anywhere l (rest argument) (Fewer m) := by
    refine .eat_bind (by decide) (fun _ i hi => .build (by omega)) (.at_bind fun u => .ite (fun _ => ?_) fun _ => ?_)
    · exact .build (by omega)
    · exact .wanted
  refine .ite (fun _ => .bind .idle hrest) fun _ => .bind (.map (ok.expression (by omega)).anywhere) fun argument l hl => ?_
  exact hrest argument l (by omega)

theorem spends_jump (ht : t.kind ≠ .endOfFile) : Spends (Comes t) m jump (Fewer m) :=
  .take_bind ht fun keyword k hk => .expect_bind (by decide) fun semicolon l hl => .build (by omega)

theorem spends_expressionStatement (ok : rules.Spend n) (hm : m ≤ n) (scope : Scope) :
    Spends K m (expressionStatement rules scope) (Fewer m) := by
  unfold expressionStatement
  refine .bind (spends_expression ok hm) fun node k hk => ?_
  have hend {node : Node} {L : Reading → Prop} {l : Nat} (hl : l ≤ k) :
      Spends L l (statementEnd >>= fun _ => pure node) (Fewer m) :=
    .bind spends_statementEnd fun _ i hi => .done (by omega)
  split
  · refine .ite (fun _ => hend le_rfl) fun _ => .at_bind fun u => .ite (fun _ => ?_) fun _ => ?_
    · refine .bind (spends_functionBody ok (by omega)) fun body l hl => .bind .spanning fun span i hi => ?_
      exact .done (by omega)
    · refine .bind spends_statementEnd fun _ l hl => .ite (fun _ => .done (by omega)) fun _ => .done (by omega)
  · exact hend le_rfl

/-- **Every statement takes a token**, or is refused. -/
theorem spends_statement (ok : rules.Spend n) (hm : m ≤ n) (scope : Scope) :
    Spends K m (statement rules scope) (Fewer m) := by
  refine .peekKind_bind fun t => ?_
  split
  · exact spends_block ok hm none
  · next ht => exact spends_ifElse ok hm ht
  · next ht => exact spends_whileLoop ok hm ht
  · next ht => exact spends_doWhile ok hm ht
  · next ht => exact spends_forLoop ok hm ht
  · next ht => exact spends_foreachLoop ok hm ht
  · next ht => exact spends_switch ok hm ht
  · next ht => exact spends_returnValue ok hm ht
  · next ht => exact spends_jump (by simp [ht])
  · next ht => exact spends_jump (by simp [ht])
  · exact .peek_bind fun u => spends_inherit ok hm [] _
  · next ht => exact spends_directive ht
  · exact spends_declaration ok hm scope
  · exact spends_declaration ok hm scope
  · exact spends_expressionStatement ok hm scope

end LpcStyle.Grammar
