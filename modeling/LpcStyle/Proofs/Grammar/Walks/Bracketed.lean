import Mathlib.Tactic
import LpcStyle.Grammar.Parse
import LpcStyle.Proofs.Grammar.Comments
import LpcStyle.Proofs.Grammar.Walks

/-!
Walks through lists, preprocessor lines and forms between brackets. A bracket that opens and the one that closes leave
open what was open before them.
-/

namespace LpcStyle

open Text LpcStyle.Parser

/-- the rules that the others refer back to read one node, and close every bracket that they open -/
structure Rules.Walk (text : List Char) (rules : Rules) : Prop where
  expression : ∀ {K : Reading → Prop} {opened : List Enclosure} {lo : Nat},
    Walks text K opened lo rules.expression opened (Node.Sits text lo)
  operand : ∀ {K : Reading → Prop} {opened : List Enclosure} {lo : Nat},
    Walks text K opened lo rules.operand opened (Node.Sits text lo)
  climb : ∀ {K : Reading → Prop} {opened : List Enclosure} {lo m : Nat} {left : Node}, left.Sits text lo m → ∀ min,
    Walks text K opened m (rules.climb left min) opened (Node.Sits text lo)
  argument : ∀ {K : Reading → Prop} {opened : List Enclosure} {lo : Nat},
    Walks text K opened lo rules.argument opened (Node.Sits text lo)
  statement : ∀ {K : Reading → Prop} {opened : List Enclosure} {lo : Nat} (scope : Scope),
    Walks text K opened lo (rules.statement scope) opened (Node.Sits text lo)

/-- elements and the token that closes them, which ends at the edge -/
structure Node.ListTo (text : List Char) (lo : Nat) (x : List Node × Token) (hi : Nat) : Prop where
  items : Node.SitAll text lo x.1 x.2.span.stop
  stop : x.2.span.stop ≤ hi

namespace Grammar

variable {text : List Char} {K L : Reading → Prop} {opened inner later : List Enclosure} {lo m hi : Nat} {rules : Rules}
  {t : Token} {β : Type} {R : β → Nat → Prop} {items : List Node}

/-! ## Lists -/

theorem stack_placeComment (ownLine : Bool) (c : Comment) (hq : ¬Quiet text) (h : Node.Stack text lo items hi) :
    Node.Stack text lo (placeComment ownLine c items) hi := by
  unfold placeComment
  split
  · exact h.comment c hq
  · split
    · exact h.comment c hq
    · exact h.withSuffix c hq

/-- a comment is put into a list -/
theorem walks_listComment (ht : t.kind.isComment = true) (h : Node.Stack text lo items m) :
    Walks text (ComesRaw t) opened m (listComment items) opened (Node.Stack text lo) := by
  refine .get_bind fun r _ hr => ?_
  refine (Walks.takeComment_bind ht fun c m' hm hq => ?_).weaken fun s _ hs => by rw [ComesRaw, hs, hr]
  exact .pure (stack_placeComment _ c hq (h.widen hm))

theorem sitAll_adopt {n : Node} {cs : List Comment} (hcs : cs ≠ [] → ¬Quiet text) (h : Node.SitAll text lo items hi)
    (hn : n.Rests text hi m) :
    Node.SitAll text lo (items ++ [(n.adopt cs).1] ++ (n.adopt cs).2.map .ofComment) m := by
  cases cs with
  | nil => simpa [Node.adopt] using h.snoc hn
  | cons c cs =>
    have hq := hcs (List.cons_ne_nil c cs)
    rw [Node.adopt]
    split
    · exact (h.snoc hn).comments fun _ => hq
    · exact (h.snoc (hn.withSuffix c)).comments fun _ => hq

/-- **An item takes its place behind the others**, and the parked comments behind it. -/
theorem walks_addItem_bind (hK : ∀ r : Reading, K r → L { r with pending := [] }) {item : Node}
    (hitems : Node.Stack text lo items m) (hitem : item.Rests text m hi) {f : List Node → Parser β}
    (h : ∀ items, Node.Stack text lo items hi → Walks text L opened hi (f items) later R) :
    Walks text K opened hi (addItem items item >>= f) later R := by
  unfold addItem adoptPending
  simp only [bind_assoc, pure_bind]
  refine .takePending_bind hK fun cs hcs => h _ ?_
  simpa [Node.Stack] using sitAll_adopt hcs hitems hitem

theorem rests_leaf {shape : Shape Node} (ht : t.Solid text lo) (hshape : shape.branches = []) :
    (leaf t shape).Rests text lo t.span.stop :=
  .opened ht.start ht.pos le_rfl (by rw [hshape]; exact .nil le_rfl)

theorem sits_leaf {shape : Shape Node} (ht : t.Solid text lo) (hshape : shape.branches = [])
    (hplain : shape.isShell = false) : (leaf t shape).Sits text lo t.span.stop := ⟨rests_leaf ht hshape, hplain⟩

theorem stack_addBlank (hstart : m ≤ t.span.start) (hpos : t.span.start < t.span.stop) (h : Node.Stack text lo items m) :
    Node.Stack text lo (addBlank t items) t.span.stop := by
  have hm : m ≤ t.span.stop := hstart.trans hpos.le
  unfold addBlank
  split
  · exact h.widen hm
  · split
    · exact h.widen hm
    · exact h.push (.opened hstart hpos le_rfl (.nil le_rfl))

theorem walks_statementList (ok : rules.Walk text) (scope : Scope) (closers : List Kind) :
    Walks text K opened lo (statementList rules scope closers) opened (Node.SitAll text lo) := by
  unfold statementList
  refine .loop_bind (Node.Stack text lo) (.nil le_rfl) (fun items m _ hitems => ?_) fun items m _ hitems => ?_
  · refine .raw_bind fun t => ?_
    split
    · next ht => exact .again (walks_listComment (by rw [ht]; rfl) hitems)
    · next ht => exact .again (walks_listComment (by rw [ht]; rfl) hitems)
    · next ht => exact .takeBlank_bind ht fun hstart hpos => .pure (stack_addBlank hstart hpos hitems)
    · next ht =>
      refine Walks.nextRaw ?_ (by rw [ht]; rfl)
      exact .takeKind_bind ht rfl rfl fun ht => .pure (hitems.widen ht.lt.le)
    · exact .pure hitems
    · refine .ite (fun _ => .pure hitems) fun _ => .bind (ok.statement scope) fun item hi _ hitem => ?_
      exact walks_addItem_bind (L := Anywhere) (fun _ _ => trivial) hitems hitem.toRests fun items hitems => .pure hitems
  · exact .pure (Node.SitAll.sublist hitems (List.reverse_sublist.2 (List.dropWhile_sublist _)))

/-! ## Preprocessor lines -/

/-- what is read of a preprocessor line ends behind a place, at the edge at the latest -/
structure LinesTo (lo : Nat) (d : DirectiveLines) (hi : Nat) : Prop where
  start : lo ≤ d.stop
  stop : d.stop ≤ hi

theorem LinesTo.extend {d : DirectiveLines} (h : LinesTo lo d m) (ht : t.Met text m) :
    LinesTo lo (d.extend t.span) t.span.stop := ⟨h.start.trans (h.stop.trans ht.le), le_rfl⟩

theorem LinesTo.finishLine {d : DirectiveLines} (h : LinesTo lo d m) (ht : t.Met text m) :
    LinesTo lo d.finishLine t.span.stop := ⟨h.start, h.stop.trans ht.le⟩

theorem walks_directiveLines {start : DirectiveLines} (hstart : LinesTo lo start m) :
    Walks text K opened m (directiveLines start) opened (LinesTo lo) := by
  refine .loop (LinesTo lo) hstart fun d m' _ hd => .raw_bind fun t => ?_
  extract_lets round
  cases hfault : t.fault with
  | some fault => exact .refuseRaw_bind hfault
  | none =>
    have hline {next : DirectiveLines ⊕ DirectiveLines} (hkind : t.kind ≠ .blankLines ∧ t.kind.bracket? = none)
        (h : t.Met text m' → Sum.elim (LinesTo lo) (LinesTo lo) next t.span.stop) :
        Walks text (ComesRaw t) opened m' (do let _ ← takeRaw; return next) opened (Sum.elim (LinesTo lo) (LinesTo lo)) :=
      .takeLine_bind hkind.1 hkind.2 (.inl hfault) fun ht => .pure (h ht)
    change Walks text (ComesRaw t) opened m' (round ()) opened _
    simp only [round]
    split
    · next hkind => exact hline (by simp [hkind, Kind.bracket?]) fun ht => hd.extend ht
    · next hkind => exact hline (by simp [hkind, Kind.bracket?]) fun ht => hd.extend ht
    · next hkind => exact hline (by simp [hkind, Kind.bracket?]) fun ht => hd.finishLine ht
    · next hkind => exact hline (by simp [hkind, Kind.bracket?]) fun ht => hd.finishLine ht
    · exact .unexpected

theorem walks_lexemes_bind {spans : List Span} {f : List Lexeme → Parser β}
    (h : ∀ ls, Walks text Anywhere opened lo (f ls) later R) :
    Walks text K opened lo (spans.mapM lexeme >>= f) later R := by
  induction spans generalizing K f with
  | nil =>
    rw [List.mapM_nil, pure_bind]
    exact (h []).anywhere
  | cons span spans ih =>
    rw [List.mapM_cons, bind_assoc]
    refine .lexeme_bind fun l _ => ?_
    rw [bind_assoc]
    exact ih fun ls => by rw [pure_bind]; exact h _

/-- **A preprocessor line** is a node without parts. -/
theorem walks_directive (ht : t.kind = .directive) :
    Walks text (Comes t) opened lo directive opened (Node.Sits text lo) := by
  unfold directive
  refine .takeKind_bind ht rfl rfl fun hhash => ?_
  extract_lets word name rest
  have hrest {m : Nat} (key : Option Token) (hm : t.span.stop ≤ m)
      (hkey : LinesTo t.span.stop ⟨[], none, (key.map (·.span.stop)).getD t.span.stop⟩ m) :
      Walks text Anywhere opened m (rest key) opened (Node.Sits text lo) := by
    refine .bind (walks_directiveLines hkey) fun lines hi _ hlines => walks_lexemes_bind fun args => .build fun _ => ?_
    exact ⟨.opened hhash.start (hhash.pos.trans_le hlines.start) hlines.stop (.nil le_rfl), rfl⟩
  refine .raw_bind fun u => .ite (fun hu => ?_) fun _ => ?_
  · rw [map_eq_pure_bind, bind_assoc]
    refine .takeLine_bind (by simp [hu]) (by rw [hu]; rfl) (.inr (by simp [hu])) fun hmet => ?_
    rw [pure_bind]
    exact hrest (some u) hmet.le ⟨hmet.le, le_rfl⟩
  · rw [pure_bind]
    exact (hrest none le_rfl ⟨le_rfl, le_rfl⟩).anywhere

/-- **A list that a bracket closes**: each of its elements lies behind the one before. -/
theorem walks_delimited {close : Kind} {closeText : String} {item : Parser Node} (hturn : close.turn inner = some opened)
    (hfirm : close.isFirm = true)
    (hitem : ∀ {K : Reading → Prop} {m : Nat}, Walks text K inner m item inner (Node.Rests text m)) :
    Walks text K inner lo (delimited close closeText item) opened (Node.ListTo text lo) := by
  unfold delimited
  refine .loop_bind (Node.Stack text lo) (.nil le_rfl) (fun items m _ hitems => ?_) fun items m _ hitems => ?_
  · refine .raw_bind fun t => ?_
    split
    · next ht => exact .again (walks_listComment (by rw [ht]; rfl) hitems)
    · next ht => exact .again (walks_listComment (by rw [ht]; rfl) hitems)
    · next ht => exact .takeBlank_bind ht fun hstart hpos => .pure (hitems.widen (hstart.trans hpos.le))
    · refine .ite (fun _ => .pure hitems) fun _ => .ite (fun _ => .unexpected) fun _ => .ite (fun ht => ?_) fun _ => ?_
      · refine .bind ((walks_directive ht).nextRaw (by rw [ht]; rfl)) fun n hi _ hn => .pure ?_
        exact hitems.push hn.toRests
      · refine .bind hitem fun node hi _ hnode => .peekKind_bind fun t => ?_
        refine walks_addItem_bind (L := Comes t) (fun _ h => h) hitems hnode fun items hitems => ?_
        refine .ite (fun ht => ?_) fun _ => .ite (fun _ => .pure hitems) fun _ => ?_
        · exact .takeKind_bind ht rfl rfl fun ht => .pure (hitems.widen ht.lt.le)
        · exact .ite (fun _ => .pure hitems) fun _ => .wanted
  · exact .expect_bind hturn hfirm fun token ht => .pure ⟨hitems.widen ht.lt.le, le_rfl⟩

/-! ## Between brackets -/

theorem walks_textBlock : Walks text K opened lo textBlock opened (Node.Sits text lo) := by
  unfold textBlock
  refine .expect_bind rfl rfl fun start hstart => .expectMet_bind rfl fun body _ hbody => ?_
  refine .expectMet_bind rfl fun stop _ hstop => .build fun _ => ⟨.opened hstart.start hstart.pos le_rfl (.nil ?_), rfl⟩
  exact hbody.le.trans hstop.le

/-- a value, or a member with its value -/
theorem walks_structItem (ok : rules.Walk text) :
    Walks text K opened lo (structItem rules) opened (Node.Rests text lo) := by
  unfold structItem
  refine .bind ok.expression fun key m _ hkey => .ite (fun _ => .pure hkey.toRests) fun _ => ?_
  refine .eat_bind rfl rfl (fun colon hcolon => ?_) (.pure hkey.toRests)
  refine .bind ok.expression fun value hi _ hvalue => .build fun _ => ?_
  exact .joins hkey.toRests hcolon.lt.le hvalue.toRests rfl

theorem walks_paren (ok : rules.Walk text) : Walks text K opened lo (paren rules) opened (Node.Sits text lo) := by
  unfold paren
  refine .expect_bind rfl rfl fun start hstart => .eat_bind rfl rfl (fun name hname => ?_) ?_
  · refine .bind (walks_delimited rfl rfl (walks_structItem ok)) fun x hi _ hx => .build fun _ => ?_
    exact ⟨.opened hstart.start (hstart.pos.trans hname.lt) hx.stop hx.items, rfl⟩
  · refine .bind (walks_delimited rfl rfl ok.expression.rests) fun x hi _ hx => .build fun _ => ?_
    exact ⟨.opened hstart.start hstart.pos hx.stop hx.items, rfl⟩

theorem walks_array (ok : rules.Walk text) : Walks text K opened lo (array rules) opened (Node.Sits text lo) := by
  unfold array
  refine .expect_bind rfl rfl fun start hstart => ?_
  refine .bind (walks_delimited rfl rfl ok.expression.rests) fun x hi _ hx => .build fun _ => ?_
  exact ⟨.opened hstart.start hstart.pos hx.stop hx.items, rfl⟩

/-- values come one behind the other -/
theorem walks_moreValues (ok : rules.Walk text) {first : Node} (hfirst : first.Rests text lo m) :
    Walks text K opened m (moreValues rules [first]) opened fun values hi =>
      ∃ last before, values = last :: before ∧ Node.Trail text lo (last, before) hi := by
  refine .loop (fun values hi => ∃ last before, values = last :: before ∧ Node.Trail text lo (last, before) hi)
    ⟨first, [], rfl, .first hfirst⟩ fun values m' _ hvalues => ?_
  obtain ⟨last, before, rfl, htrail⟩ := hvalues
  refine .eat_bind rfl rfl (fun semicolon hsemicolon => ?_) (.pure ⟨last, before, rfl, htrail⟩)
  refine .bind ok.expression fun value hi _ hvalue => .pure ⟨value, last :: before, rfl, ?_⟩
  exact htrail.next (hvalue.toRests.widen hsemicolon.lt.le le_rfl)

/-- **A pair** goes on behind its key, or is a shell around it. -/
theorem walks_mappingPair (ok : rules.Walk text) :
    Walks text K opened lo (mappingPair rules) opened (Node.Rests text lo) := by
  unfold mappingPair
  refine .bind ok.expression fun key m _ hkey => .eat_bind rfl rfl (fun colon hcolon => ?_) ?_
  · refine .bind ok.expression fun first m' _ hfirst => .bind (walks_moreValues ok hfirst.toRests) fun values hi _ h => ?_
    obtain ⟨last, before, rfl, htrail⟩ := h
    exact .build fun _ =>
      .grown hkey.toRests rfl (hcolon.lt.trans htrail.lt) htrail.stop_le (htrail.sitAll.widen hcolon.lt.le le_rfl)
  · exact .build fun _ => hkey.shell rfl rfl

theorem walks_mapping (ok : rules.Walk text) : Walks text K opened lo (mapping rules) opened (Node.Sits text lo) := by
  unfold mapping
  refine .expect_bind rfl rfl fun start hstart => ?_
  refine .bind (walks_delimited rfl rfl (walks_mappingPair ok)) fun x hi _ hx => .build fun _ => ?_
  exact ⟨.opened hstart.start hstart.pos hx.stop hx.items, rfl⟩

/-- **An index** goes on behind its object. -/
theorem walks_index (ok : rules.Walk text) {object : Node} (hobject : object.Sits text lo m) :
    Walks text K opened m (index rules object) opened (Node.Sits text lo) := by
  unfold index
  refine .expect_bind rfl rfl fun start hstart => ?_
  refine .loop_bind (Node.Stack text start.span.stop) (.nil le_rfl) (fun parts m' _ hparts => ?_) fun parts m' _ hparts => ?_
  · refine .peek_bind fun t _ => .ite (fun _ => .pure hparts) fun _ => ?_
    cases hmark : indexMark? t.kind with
    | some mark =>
      have hkind : t.kind.turn (.index :: opened) = some (.index :: opened) ∧ t.kind.isFirm = true := by
        cases hkind : t.kind <;> rw [hkind] at hmark <;> first | exact ⟨rfl, rfl⟩ | cases hmark
      exact .take_bind hkind.1 hkind.2 fun ht => .pure (hparts.push (rests_leaf ht rfl))
    | none => exact .bind ok.expression fun part hi _ hpart => .pure (hparts.push hpart.toRests)
  · refine .expect_bind rfl rfl fun close hclose => ?_
    have hindexor : (Node.mk ⟨start.span.start, close.span.stop⟩ (.indexor parts.reverse) none).Rests text m close.span.stop :=
      .opened hstart.start hstart.pos le_rfl (hparts.widen hclose.lt.le)
    refine .bind (.build (Q := fun n hi => n.Rests text m hi ∧ n.stop = close.span.stop) fun _ => ⟨hindexor, rfl⟩)
      fun indexor hi hhi hindexor => .build fun _ => ?_
    obtain ⟨hrests, hstop⟩ := hindexor
    have hlt : m < indexor.stop := hrests.starts
    rw [hstop] at hlt
    have htight := hrests.tight le_rfl
    rw [hstop] at htight
    exact ⟨.grown hobject.toRests rfl hlt (hstop ▸ hrests.stop) htight, rfl⟩

theorem walks_closureItem (ok : rules.Walk text) (kind : Kind) :
    Walks text K opened lo (closureItem rules kind) opened (Node.Sits text lo) := by
  unfold closureItem
  refine .ite (fun _ => ok.statement .block) fun _ => .bind ok.expression fun node m _ hnode => ?_
  exact .eat_bind rfl rfl (fun semicolon h => .pure (hnode.widen le_rfl h.lt.le)) (.pure hnode)

theorem walks_inlineClosure (ok : rules.Walk text) :
    Walks text K opened lo (inlineClosure rules) opened (Node.Sits text lo) := by
  unfold inlineClosure
  refine .expect_bind rfl rfl fun start hstart => ?_
  refine .loop_bind (Node.Stack text start.span.stop) (.nil le_rfl) (fun items m _ hitems => ?_) fun items m _ hitems => ?_
  · refine .raw_bind fun t => ?_
    split
    · next ht => exact .again (walks_listComment (by rw [ht]; rfl) hitems)
    · next ht => exact .again (walks_listComment (by rw [ht]; rfl) hitems)
    · next ht => exact .takeBlank_bind ht fun hstart hpos => .pure (hitems.widen (hstart.trans hpos.le))
    · exact .pure hitems
    · next ht =>
      refine Walks.nextRaw ?_ (by rw [ht]; rfl)
      exact .takeKind_bind ht rfl rfl fun ht => .pure (hitems.widen ht.lt.le)
    · refine .bind (walks_closureItem ok _) fun item hi _ hitem => ?_
      exact walks_addItem_bind (L := Anywhere) (fun _ _ => trivial) hitems hitem.toRests fun items hitems => .pure hitems
  · refine .expect_bind rfl rfl fun close hclose => .build fun _ => ?_
    exact ⟨.opened hstart.start hstart.pos le_rfl (hitems.widen hclose.lt.le), rfl⟩

theorem walks_lambda (ok : rules.Walk text) : Walks text K opened lo (lambda rules) opened (Node.Sits text lo) := by
  unfold lambda
  refine .expect_bind rfl rfl fun start hstart => .bind ok.expression fun args m _ hargs => ?_
  refine .expect_bind rfl rfl fun comma hcomma => .bind ok.expression fun code m' _ hcode => ?_
  refine .expect_bind rfl rfl fun close hclose => .build fun _ => ?_
  refine ⟨.opened hstart.start hstart.pos le_rfl ?_, rfl⟩
  exact (hargs.toRests.alone.widen le_rfl hcomma.lt.le).append (hcode.toRests.alone.widen le_rfl hclose.lt.le)

end Grammar

end LpcStyle
