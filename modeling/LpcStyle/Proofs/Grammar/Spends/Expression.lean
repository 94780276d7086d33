import Mathlib.Tactic
import LpcStyle.Proofs.Grammar.Climb
import LpcStyle.Proofs.Grammar.Spends

/-!
Lists, brackets and expressions spend tokens. Each loop has its round as a definition of its own; a round that goes on
takes a token, since it takes one itself or calls a rule that does. The rules that others refer back to are called only
behind a token that was taken, so they are called with fewer tokens ahead than the rule that calls them had.
-/

namespace LpcStyle

open Text LpcStyle.Parser Grammar

/-- the rules that the others refer back to, called with fewer than `n` tokens ahead, take a token at least; what follows
an operand does so if an operator comes next that binds tight enough -/
structure Rules.Spend (n : Nat) (rules : Rules) : Prop where
  expression : ∀ {m}, m < n → Spends Anywhere m rules.expression (Fewer m)
  operand : ∀ {m}, m < n → Spends Anywhere m rules.operand (Fewer m)
  climb : ∀ {m left min t rank}, m < n → rank? t = some rank → min ≤ rank →
    Spends (Comes t) m (rules.climb left min) (Fewer m)
  argument : ∀ {m}, m < n → Spends Anywhere m rules.argument (Fewer m)
  statement : ∀ {m} scope, m < n → Spends Anywhere m (rules.statement scope) (Fewer m)

theorem Rules.Spend.le {m n : Nat} {rules : Rules} (ok : rules.Spend n) (hle : m ≤ n) : rules.Spend m where
  expression hm := ok.expression (Nat.lt_of_lt_of_le hm hle)
  operand hm := ok.operand (Nat.lt_of_lt_of_le hm hle)
  climb hm := ok.climb (Nat.lt_of_lt_of_le hm hle)
  argument hm := ok.argument (Nat.lt_of_lt_of_le hm hle)
  statement scope hm := ok.statement scope (Nat.lt_of_lt_of_le hm hle)

namespace Grammar

variable {K : Reading → Prop} {n m c : Nat} {rules : Rules} {t : Token}

/-! ## Lists -/

theorem spends_listComment (ht : t.kind ≠ .endOfFile) (items : List Node) :
    Spends (ComesRaw t) n (listComment items) (Fewer n) := by
  refine .get_bind fun r _ hr => .bind ((Spends.takeComment ht).weaken fun s _ hs => ?_) fun _ _ hm => .done hm
  rw [ComesRaw, hs]
  exact hr

theorem spends_addItem (items : List Node) (item : Node) : Spends K n (addItem items item) (Fewer (n + 1)) :=
  Spends.adoptPending.bind fun _ _ hm => .done hm

/-- one round of a statement list -/
def statementRound (rules : Rules) (scope : Scope) (closers : List Kind) (items : List Node) :
    Parser (List Node ⊕ List Node) := do
  let token ← raw
  match token.kind with
  | .lineComment | .blockComment => return .inl (← listComment items)
  | .blankLines =>
    let _ ← takeRaw
    return .inl (addBlank token items)
  | .semicolon =>
    let _ ← take
    return .inl items
  | .endOfFile => return .inr items
  | kind =>
    if closers.contains kind then return .inr items
    else return .inl (← addItem items (← rules.statement scope))

theorem statementList_eq (scope : Scope) (closers : List Kind) : statementList rules scope closers = (do
    let items ← loop [] (statementRound rules scope closers)
    return (items.dropWhile (·.shape.isBlankLine)).reverse) := rfl

theorem spends_statementRound (ok : rules.Spend n) (hm : m < n) (hc : m < c) (scope : Scope) (closers : List Kind)
    (items : List Node) : Spends K m (statementRound rules scope closers items) (Goes m c) := by
  refine .raw_bind fun t => ?_
  split
  · next ht => exact .again (spends_listComment (by simp [ht]) items)
  · next ht => exact .again (spends_listComment (by simp [ht]) items)
  · next ht => exact .takeRaw_bind (by simp [ht]) fun _ _ hk => .goOn hk
  · next ht => exact (Spends.takeKind_bind ht (by decide) fun _ _ hk => .goOn hk).nextRaw (by rw [ht]; rfl)
  · exact .last hc
  · refine .ite (fun _ => .last hc) fun _ => .bind (ok.statement scope hm).anywhere fun node k hk => .again ?_
    exact (spends_addItem items node).mono hk

theorem spends_statementList (ok : rules.Spend n) (hm : m < n) (scope : Scope) (closers : List Kind) :
    Spends K m (statementList rules scope closers) (Fewer (m + 1)) := by
  rw [statementList_eq]
  refine .bind (.loop (c := m + 1) fun items k hk => ?_) fun _ _ hk => .done hk
  exact spends_statementRound ok (by omega) (by omega) scope closers items

/-! ## Preprocessor lines -/

/-- one round of the tokens of a preprocessor line -/
def directiveRound (d : DirectiveLines) : Parser (DirectiveLines ⊕ DirectiveLines) := do
  let token ← raw
  if let some fault := token.fault then refuse (.lexical fault) token.span
  match token.kind with
  | .directiveArgument | .blockComment =>
    let _ ← takeRaw
    return .inl (d.extend token.span)
  | .directiveLineBreak =>
    let _ ← takeRaw
    return .inl d.finishLine
  | .directiveEnd =>
    let _ ← takeRaw
    return .inr d.finishLine
  | _ => unexpected

theorem directiveLines_eq (start : DirectiveLines) : directiveLines start = loop start directiveRound := rfl

theorem spends_directiveRound (hc : m < c) (d : DirectiveLines) : Spends K m (directiveRound d) (Goes m c) := by
  refine .raw_bind fun t => ?_
  cases t.fault with
  | some fault => exact .never_bind .refuse
  | none =>
    dsimp only
    split
    · next ht => exact .takeRaw_bind (by simp [ht]) fun _ _ hk => .goOn hk
    · next ht => exact .takeRaw_bind (by simp [ht]) fun _ _ hk => .goOn hk
    · next ht => exact .takeRaw_bind (by simp [ht]) fun _ _ hk => .goOn hk
    · next ht => exact .takeRaw_bind (by simp [ht]) fun _ _ hk => .last (hk.trans hc)
    · exact .unexpected

theorem spends_directiveLines (start : DirectiveLines) : Spends K m (directiveLines start) (Fewer (m + 1)) := by
  rw [directiveLines_eq]
  exact .loop fun d k hk => spends_directiveRound (by omega) d

theorem spends_lexemes (spans : List Span) : Spends K m (spans.mapM lexeme) (Fewer (m + 1)) := by
  induction spans generalizing K m with
  | nil => exact .idle
  | cons span spans ih =>
    rw [List.mapM_cons]
    refine .bind .lexeme fun _ k hk => .bind ih fun _ l hl => .done ?_
    omega

theorem spends_directive (ht : t.kind = .directive) : Spends (Comes t) m directive (Fewer m) := by
  unfold directive
  refine .takeKind_bind ht (by decide) fun hash k hk => ?_
  extract_lets word name rest
  have hrest (key : Option Token) (l : Nat) (hl : l < m) : Spends Anywhere l (rest key) (Fewer m) := by
    refine .bind (spends_directiveLines _) fun lines i hi => ?_
    refine .bind (spends_lexemes _) fun args j hj => .build (by omega)
  refine .raw_bind fun u => .ite (fun hu => ?_) fun _ => .bind .idle fun key l hl => hrest key l (by omega)
  refine .bind (.map (.takeRaw (by simp [hu]))) fun key l hl => hrest key l (by omega)

/-! ## Elements between commas -/

/-- one round of a list of elements with commas between them -/
def delimitedRound (close : Kind) (closeText : String) (item : Parser Node) (items : List Node) :
    Parser (List Node ⊕ List Node) := do
  match (← raw).kind with
  | .lineComment | .blockComment => return .inl (← listComment items)
  | .blankLines =>
    let _ ← takeRaw
    return .inl items
  | kind =>
    if kind = close then return .inr items
    else if kind = .comma then unexpected
    else if kind = .directive then return .inl ((← directive) :: items)
    else
      let node ← item
      let separator ← peekKind
      let items ← addItem items node
      if separator = .comma then
        let _ ← take
        return .inl items
      else if separator = close then return .inr items
      else if separator = .directive then return .inl items
      else wanted (.separator closeText)

theorem delimited_eq (close : Kind) (closeText : String) (item : Parser Node) : delimited close closeText item = (do
    let items ← loop [] (delimitedRound close closeText item)
    let token ← expect close (.mark closeText)
    return (items.reverse, token)) := rfl

theorem spends_delimitedRound (close : Kind) (closeText : String) {item : Parser Node}
    (hitem : Spends Anywhere m item (Fewer m)) (hc : m < c) (items : List Node) :
    Spends K m (delimitedRound close closeText item items) (Goes m c) := by
  refine .raw_bind fun t => ?_
  split
  · next ht => exact .again (spends_listComment (by simp [ht]) items)
  · next ht => exact .again (spends_listComment (by simp [ht]) items)
  · next ht => exact .takeRaw_bind (by simp [ht]) fun _ _ hk => .goOn hk
  · refine .ite (fun _ => .last hc) fun _ => .ite (fun _ => .unexpected) fun _ => .ite (fun ht => ?_) fun _ => ?_
    · exact .again ((spends_directive ht).nextRaw (by rw [ht]; rfl))
    · refine .bind hitem.anywhere fun node k hk => .peekKind_bind fun u => ?_
      refine .bind (spends_addItem items node) fun items l hl => ?_
      refine .ite (fun _ => ?_) fun _ => .ite (fun _ => .last (by omega)) fun _ => .ite (fun _ => .goOn (by omega)) fun _ => ?_
      · exact .bind .takeAny fun _ i hi => .goOn (by omega)
      · exact .wanted

theorem spends_delimited {close : Kind} {closeText : String} {item : Parser Node} (hclose : close ≠ .endOfFile)
    (hitem : ∀ k ≤ m, Spends Anywhere k item (Fewer k)) :
    Spends K m (delimited close closeText item) (Fewer m) := by
  rw [delimited_eq]
  refine .bind (.loop (c := m + 1) fun items k hk => ?_) fun items k hk => ?_
  · exact spends_delimitedRound close closeText (hitem k hk) (by omega) items
  · exact .expect_bind hclose fun close l hl => .done (by omega)

/-! ## Between brackets -/

theorem spends_textBlock : Spends K m textBlock (Fewer m) := by
  refine .expect_bind (by decide) fun start k hk => .expect_bind (by decide) fun body l hl => ?_
  exact .expect_bind (by decide) fun stop i hi => .build (by omega)

theorem spends_structItem (ok : rules.Spend n) (hm : m < n) : Spends K m (structItem rules) (Fewer m) := by
  refine .bind (ok.expression hm).anywhere fun key k hk => .ite (fun _ => .done hk) fun _ => ?_
  refine .eat_bind (by decide) (fun colon l hl => ?_) (.done hk)
  exact .bind (ok.expression (by omega)) fun value i hi => .build (by omega)

theorem spends_paren (ok : rules.Spend n) (hm : m ≤ n) : Spends K m (paren rules) (Fewer m) := by
  refine .expect_bind (by decide) fun start k hk => .eat_bind (by decide) (fun name l hl => ?_) ?_
  · refine .bind (spends_delimited (by decide) fun i hi => spends_structItem ok (by omega)) fun x j hj => .build (by omega)
  · refine .bind (spends_delimited (by decide) fun i hi => ok.expression (by omega)) fun x j hj => .build (by omega)

theorem spends_array (ok : rules.Spend n) (hm : m ≤ n) : Spends K m (array rules) (Fewer m) := by
  refine .expect_bind (by decide) fun start k hk => ?_
  refine .bind (spends_delimited (by decide) fun i hi => ok.expression (by omega)) fun x j hj => .build (by omega)

/-- one round of the values after a key -/
def valueRound (rules : Rules) (values : List Node) : Parser (List Node ⊕ List Node) := do
  match ← eat? .semicolon with
  | some _ => return .inl ((← rules.expression) :: values)
  | none => return .inr values

theorem moreValues_eq (values : List Node) : moreValues rules values = loop values (valueRound rules) := rfl

theorem spends_valueRound (ok : rules.Spend n) (hm : m ≤ n) (hc : m < c) (values : List Node) :
    Spends K m (valueRound rules values) (Goes m c) := by
  refine .eat_bind (by decide) (fun _ k hk => .again ?_) (.last hc)
  exact (ok.expression (by omega)).mono hk.le

theorem spends_moreValues (ok : rules.Spend n) (hm : m ≤ n) (values : List Node) :
    Spends K m (moreValues rules values) (Fewer (m + 1)) := by
  rw [moreValues_eq]
  exact .loop fun values k hk => spends_valueRound ok (by omega) (by omega) values

theorem spends_mappingPair (ok : rules.Spend n) (hm : m < n) : Spends K m (mappingPair rules) (Fewer m) := by
  refine .bind (ok.expression hm).anywhere fun key k hk => .eat_bind (by decide) (fun colon l hl => ?_) (.build hk)
  refine .bind (ok.expression (by omega)) fun first i hi => ?_
  exact .bind (spends_moreValues ok (by omega) [first]) fun values j hj => .build (by omega)

theorem spends_mapping (ok : rules.Spend n) (hm : m ≤ n) : Spends K m (mapping rules) (Fewer m) := by
  refine .expect_bind (by decide) fun start k hk => ?_
  refine .bind (spends_delimited (by decide) fun i hi => spends_mappingPair ok (by omega)) fun x j hj => .build (by omega)

/-- one round of the parts of an index -/
def indexRound (rules : Rules) (parts : List Node) : Parser (List Node ⊕ List Node) := do
  let token ← peek
  if token.kind = .indexEnd then return .inr parts
  else
    match indexMark? token.kind with
    | some mark =>
      let _ ← take
      return .inl (leaf token (.indexMark mark) :: parts)
    | none => return .inl ((← rules.expression) :: parts)

theorem index_eq (object : Node) : index rules object = (do
    let start ← expect .indexStart (.mark "[")
    let parts ← loop [] (indexRound rules)
    let close ← expect .indexEnd (.mark "]")
    let indexor ← build start.span.start close.span.stop (.indexor parts.reverse)
    build object.start close.span.stop (.index object indexor)) := rfl

/-- the end of the file is no mark inside an index -/
theorem ne_endOfFile_of_indexMark {mark : IndexMark} (h : indexMark? t.kind = some mark) : t.kind ≠ .endOfFile := by
  intro heof
  rw [heof] at h
  cases h

theorem spends_indexRound (ok : rules.Spend n) (hm : m < n) (hc : m < c) (parts : List Node) :
    Spends K m (indexRound rules parts) (Goes m c) := by
  refine .peek_bind fun t => .ite (fun _ => .last hc) fun _ => ?_
  cases hmark : indexMark? t.kind with
  | some mark => exact .take_bind (ne_endOfFile_of_indexMark hmark) fun _ k hk => .goOn hk
  | none => exact .again (ok.expression hm).anywhere

theorem spends_index (ok : rules.Spend n) (hm : m ≤ n) (object : Node) : Spends K m (index rules object) (Fewer m) := by
  rw [index_eq]
  refine .expect_bind (by decide) fun start k hk => .bind (.loop (c := k + 1) fun parts l hl => ?_) ?_
  · exact spends_indexRound ok (by omega) (by omega) parts
  · intro parts l (hl : l < k + 1)
    refine .expect_bind (by decide) fun close i hi => .bind (.build (Nat.lt_succ_self i)) ?_
    exact fun indexor j hj => .build (by omega)

theorem spends_closureItem (ok : rules.Spend n) (hm : m < n) (kind : Kind) :
    Spends K m (closureItem rules kind) (Fewer m) := by
  refine .ite (fun _ => (ok.statement .block hm).anywhere) fun _ => .bind (ok.expression hm).anywhere fun node k hk => ?_
  exact .bind (.eat (by decide)) fun _ l hl => .done (by omega)

/-- one round of the items of a closure -/
def closureRound (rules : Rules) (items : List Node) : Parser (List Node ⊕ List Node) := do
  match (← raw).kind with
  | .lineComment | .blockComment => return .inl (← listComment items)
  | .blankLines =>
    let _ ← takeRaw
    return .inl items
  | .closureEnd => return .inr items
  | .semicolon =>
    let _ ← take
    return .inl items
  | kind => return .inl (← addItem items (← closureItem rules kind))

theorem inlineClosure_eq : inlineClosure rules = (do
    let start ← expect .closureStart (.mark "(:")
    let items ← loop [] (closureRound rules)
    let close ← expect .closureEnd (.mark ":)")
    build start.span.start close.span.stop (.inlineClosure items.reverse)) := rfl

theorem spends_closureRound (ok : rules.Spend n) (hm : m < n) (hc : m < c) (items : List Node) :
    Spends K m (closureRound rules items) (Goes m c) := by
  refine .raw_bind fun t => ?_
  split
  · next ht => exact .again (spends_listComment (by simp [ht]) items)
  · next ht => exact .again (spends_listComment (by simp [ht]) items)
  · next ht => exact .takeRaw_bind (by simp [ht]) fun _ _ hk => .goOn hk
  · exact .last hc
  · next ht => exact (Spends.takeKind_bind ht (by decide) fun _ _ hk => .goOn hk).nextRaw (by rw [ht]; rfl)
  · exact .bind (spends_closureItem ok hm _) fun node k hk => .again ((spends_addItem items node).mono hk)

theorem spends_inlineClosure (ok : rules.Spend n) (hm : m ≤ n) : Spends K m (inlineClosure rules) (Fewer m) := by
  rw [inlineClosure_eq]
  refine .expect_bind (by decide) fun start k hk => .bind (.loop (c := k + 1) fun items l hl => ?_) ?_
  · exact spends_closureRound ok (by omega) (by omega) items
  · exact fun items l hl => .expect_bind (by decide) fun close i hi => .build (by omega)

theorem spends_lambda (ok : rules.Spend n) (hm : m ≤ n) : Spends K m (lambda rules) (Fewer m) := by
  refine .expect_bind (by decide) fun start k hk => .bind (ok.expression (by omega)) fun args l hl => ?_
  refine .expect_bind (by decide) fun comma i hi => .bind (ok.expression (by omega)) fun code j hj => ?_
  exact .expect_bind (by decide) fun close _ _ => .build (by omega)

/-! ## Operands -/

theorem spends_atName_bind {β : Type} {f : Bool → Parser β} {R : β → Nat → Prop}
    (h : ∀ t, Spends (Comes t) n (f (t.kind = .name || t.kind = .typeWord && Words.isTypeAllowedAsName t.text)) R) :
    Spends K n (atName >>= f) R := by
  rw [atName, bind_assoc]
  simp only [pure_bind]
  exact .peek_bind h

theorem spends_name : Spends K m name (Fewer m) := by
  unfold name
  refine spends_atName_bind fun t => .ite (fun ht => ?_) fun _ => .wanted
  have hkind : t.kind ≠ .endOfFile := by
    intro heof
    simp [heof] at ht
  exact .take_bind hkind fun _ _ hk => .done hk

theorem spends_primary (ok : rules.Spend n) (hm : m ≤ n) : Spends K m (primary rules) (Fewer m) := by
  unfold primary
  refine .peek_bind fun t => ?_
  extract_lets whole
  have hwhole {k : Kind} {shape : Shape Node} (ht : t.kind = k) (hk : k ≠ .endOfFile) :
      Spends (Comes t) m (whole shape) (Fewer m) := .takeKind_bind ht hk fun _ _ hl => .done hl
  split
  · next ht => exact hwhole ht (by decide)
  · next ht => exact hwhole ht (by decide)
  · next ht => exact hwhole ht (by decide)
  · next ht => exact hwhole ht (by decide)
  · exact spends_name
  · exact .ite (fun _ => spends_name) fun _ => .wanted
  · next ht => exact hwhole ht (by decide)
  · next ht => exact hwhole ht (by decide)
  · next ht => exact hwhole ht (by decide)
  · next ht =>
    exact .takeKind_bind ht (by decide) fun _ k hk => .bind spends_name fun member l hl => .build (by omega)
  · exact spends_textBlock
  · exact spends_paren ok hm
  · exact spends_array ok hm
  · exact spends_mapping ok hm
  · exact spends_inlineClosure ok hm
  · exact spends_lambda ok hm
  · exact .wanted

theorem spends_call (ok : rules.Spend n) (hm : m ≤ n) (callee : Node) : Spends K m (call rules callee) (Fewer m) := by
  refine .expect_bind (by decide) fun start k hk => ?_
  exact .bind (spends_delimited (by decide) fun i hi => ok.argument (by omega)) fun x j hj => .build (by omega)

theorem spends_member (ok : rules.Spend n) (hm : m ≤ n) (ht : t.kind ≠ .endOfFile) (object : Node) :
    Spends (Comes t) m (member rules object) (Fewer m) := by
  unfold member
  refine .take_bind ht fun mark k hk => ?_
  extract_lets dot join
  have hjoin (property : Node) (l : Nat) (hl : l < m) : Spends Anywhere l (join property) (Fewer m) := .build hl
  refine .at_bind fun u => .ite (fun _ => ?_) fun _ => .bind spends_name fun property l hl => ?_
  · exact .bind (spends_paren ok (by omega)) fun property l hl => hjoin property l (by omega)
  · refine .at_bind fun u => .ite (fun _ => ?_) fun _ => (hjoin property l (by omega)).anywhere
    exact .bind (spends_call ok (by omega) property) fun property i hi => hjoin property i (by omega)

/-- one round of what follows an operand -/
def trailerRound (rules : Rules) (left : Node) : Parser (Node ⊕ Node) := do
  let token ← peek
  match token.kind with
  | .parenStart =>
    if isCallable left.shape then return .inl (← call rules left) else return .inr left
  | .indexStart => return .inl (← index rules left)
  | .arrow | .dot => return .inl (← member rules left)
  | .doubleColon =>
    if left.shape.isIdentifier then
      let _ ← take
      let member ← name
      return .inl (← build left.start member.stop (.parentAccess (some left) member))
    else return .inr left
  | .assignOp =>
    if isStep token then
      let _ ← take
      return .inl (← build left.start token.span.stop (.assignment left (.ofToken token) none))
    else return .inr left
  | .ellipsis =>
    let _ ← take
    return .inl (← build left.start token.span.stop (.spread left))
  | _ => return .inr left

theorem trailers_eq (left : Node) : trailers rules left = loop left (trailerRound rules) := rfl

theorem spends_trailerRound (ok : rules.Spend n) (hm : m ≤ n) (hc : m < c) (left : Node) :
    Spends K m (trailerRound rules left) (Goes m c) := by
  refine .peek_bind fun t => ?_
  split
  · exact .ite (fun _ => .again (spends_call ok hm left)) fun _ => .last hc
  · exact .again (spends_index ok hm left)
  · next ht => exact .again (spends_member ok hm (by simp [ht]) left)
  · next ht => exact .again (spends_member ok hm (by simp [ht]) left)
  · next ht =>
    refine .ite (fun _ => .takeKind_bind ht (by decide) fun _ k hk => ?_) fun _ => .last hc
    exact .bind spends_name fun member l hl => .again (.build (by omega))
  · next ht =>
    exact .ite (fun _ => .takeKind_bind ht (by decide) fun _ k hk => .again (.build hk)) fun _ => .last hc
  · next ht => exact .takeKind_bind ht (by decide) fun _ k hk => .again (.build hk)
  · exact .last hc

theorem spends_trailers (ok : rules.Spend n) (hm : m ≤ n) (left : Node) :
    Spends K m (trailers rules left) (Fewer (m + 1)) := by
  rw [trailers_eq]
  exact .loop fun left k hk => spends_trailerRound ok (by omega) (by omega) left

/-- one round of joining string pieces -/
def joinRound (rules : Rules) (left : Node) : Parser (Node ⊕ Node) := do
  if joins left.shape (← peekKind) then
    let right ← trailers rules (← primary rules)
    return .inl (← build left.start right.stop (.binary left ⟨.empty left.stop, []⟩ right true))
  else return .inr left

theorem joined_eq (left : Node) : joined rules left = loop left (joinRound rules) := rfl

theorem spends_joinRound (ok : rules.Spend n) (hm : m ≤ n) (hc : m < c) (left : Node) :
    Spends K m (joinRound rules left) (Goes m c) := by
  refine .peekKind_bind fun t => .ite (fun _ => ?_) fun _ => .last hc
  refine .bind (spends_primary ok hm) fun operand k hk => .bind (spends_trailers ok (by omega) operand) ?_
  exact fun right l hl => .again (.build (by omega))

theorem spends_joined (ok : rules.Spend n) (hm : m ≤ n) (left : Node) :
    Spends K m (joined rules left) (Fewer (m + 1)) := by
  rw [joined_eq]
  exact .loop fun left k hk => spends_joinRound ok (by omega) (by omega) left

theorem spends_operand (ok : rules.Spend n) (hm : m ≤ n) : Spends K m (operand rules) (Fewer m) := by
  unfold operand
  refine .peek_bind fun t => .ite (fun ht => ?_) fun _ => .ite (fun ht => ?_) fun _ => ?_
  · refine .takeKind_bind ht (by decide) fun _ k hk => .bind (ok.operand (by omega)) fun argument l hl => ?_
    exact .build (by omega)
  · refine .take_bind (ne_endOfFile_of_isPrefixOperator ht) fun _ k hk => .bind (ok.operand (by omega)) ?_
    exact fun argument l hl => .build (by omega)
  · exact .bind (spends_primary ok hm) fun operand k hk => (spends_trailers ok (by omega) operand).mono (by omega)

/-! ## Operators -/

/-- what binds tighter than the rank is an operator, so it is taken in -/
theorem spends_tighterRound (ok : rules.Spend n) (hm : m < n) (hc : m < c) (rank : Nat) (right : Node) :
    Spends K m (tighterRound rules rank right) (Goes m c) := by
  refine .peek_bind fun t => ?_
  cases hnext : rank? t with
  | none => exact .last hc
  | some next => exact .ite (fun hrank => .again (ok.climb hm hnext hrank)) fun _ => .last hc

theorem tighter_eq (rank : Nat) (right : Node) : tighter rules rank right = loop right (tighterRound rules rank) := rfl

theorem spends_tighter (ok : rules.Spend n) (hm : m < n) (rank : Nat) (right : Node) :
    Spends K m (tighter rules rank right) (Fewer (m + 1)) := by
  rw [tighter_eq]
  exact .loop fun right k hk => spends_tighterRound ok (by omega) (by omega) rank right

theorem spends_piece (ok : rules.Spend n) (hm : m < n) : Spends K m (piece rules) (Fewer m) :=
  .bind (ok.operand hm).anywhere fun operand k hk => (spends_joined ok (by omega) operand).mono (by omega)

/-- what is done with an operator that comes next and binds tight enough -/
theorem spends_operator (ok : rules.Spend n) (hm : m ≤ n) (ht : t.kind ≠ .endOfFile) {β : Type}
    {f : Token → Node → Parser β} (rank : Nat) {R : β → Nat → Prop}
    (h : ∀ op right k, k < m → Spends Anywhere k (f op right) R) :
    Spends (Comes t) m (do
      let op ← take
      let right ← tighter rules rank (← piece rules)
      f op right) R := by
  refine .take_bind ht fun op k hk => .bind (spends_piece ok (by omega)) fun right l hl => ?_
  exact .bind (spends_tighter ok (by omega) rank right) fun right i hi => h op right i (by omega)

theorem spends_climbRound (ok : rules.Spend n) (hm : m ≤ n) (hc : m < c) (min : Nat) (left : Node) :
    Spends K m (climbRound rules min left) (Goes m c) := by
  refine .peek_bind fun t => ?_
  cases hrank : rank? t with
  | none => exact .last hc
  | some rank =>
    refine .ite (fun _ => ?_) fun _ => .last hc
    exact spends_operator ok hm (ne_endOfFile_of_rank hrank) rank fun op right k hk => .again (.build hk)

/-- climbing takes nothing where no operator comes next that binds tight enough -/
theorem spends_climb (ok : rules.Spend n) (hm : m ≤ n) (left : Node) (min : Nat) :
    Spends K m (climb rules left min) (Fewer (m + 1)) := by
  rw [climb_eq]
  exact .loop fun left k hk => spends_climbRound ok (by omega) (by omega) min left

/-- **Climbing takes the operator** that comes next if it binds tight enough. -/
theorem spends_climb_of_rank (ok : rules.Spend n) (hm : m ≤ n) {rank min : Nat} (hrank : rank? t = some rank)
    (hmin : min ≤ rank) (left : Node) : Spends (Comes t) m (climb rules left min) (Fewer m) := by
  rw [climb_eq]
  refine .loopFrom (fun k hk => ?_) fun left k hk => spends_climbRound ok (by omega) (by omega) min left
  refine .peekAgain_bind ?_
  simp only [hrank, if_pos hmin]
  exact spends_operator ok (by omega) (ne_endOfFile_of_rank hrank) rank fun op right l hl => .again (.build hl)

theorem spends_ternary (ok : rules.Spend n) (hm : m ≤ n) (test : Node) :
    Spends K m (ternary rules test) (Fewer (m + 1)) := by
  refine .eat_bind (by decide) (fun question k hk => ?_) .idle
  refine .bind (ok.expression (by omega)) fun consequent l hl => .expect_bind (by decide) fun colon i hi => ?_
  exact .bind (ok.expression (by omega)) fun alternate j hj => .build (by omega)

theorem spends_assignment (ok : rules.Spend n) (hm : m ≤ n) (left : Node) :
    Spends K m (assignment rules left) (Fewer (m + 1)) := by
  refine .peek_bind fun t => .ite (fun ht => ?_) fun _ => .idle
  have hkind : t.kind = .assignOp := of_decide_eq_true (Bool.and_eq_true_iff.1 ht).1
  refine .takeKind_bind hkind (by decide) fun op k hk => .bind (ok.expression (by omega)) fun right l hl => ?_
  exact .build (by omega)

theorem spends_afterOperand (ok : rules.Spend n) (hm : m ≤ n) (left : Node) :
    Spends K m (afterOperand rules left) (Fewer (m + 1)) := by
  refine .bind (spends_joined ok hm left) fun left k hk => .bind (spends_climb ok (by omega) left 0) fun left l hl => ?_
  refine .bind (spends_ternary ok (by omega) left) fun left i hi => (spends_assignment ok (by omega) left).mono ?_
  omega

theorem spends_expression (ok : rules.Spend n) (hm : m ≤ n) : Spends K m (expression rules) (Fewer m) :=
  .bind (spends_operand ok hm) fun left k hk => (spends_afterOperand ok (by omega) left).mono (by omega)

theorem spends_expressionFrom (ok : rules.Spend n) (hm : m ≤ n) (left : Node) :
    Spends K m (expressionFrom rules left) (Fewer (m + 1)) :=
  .bind (spends_trailers ok hm left) fun left k hk => (spends_afterOperand ok (by omega) left).mono (by omega)

end Grammar

end LpcStyle
