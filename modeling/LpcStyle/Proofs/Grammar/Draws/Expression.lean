import Mathlib.Tactic
import LpcStyle.Grammar.Parse
import LpcStyle.Proofs.Grammar.Draws

/-!
Lists, preprocessor lines, forms between brackets and expressions are drawn from the text. What an expression gives lies
between the edges before and after it, so that what is read next lies behind.
-/

namespace LpcStyle

open Text LpcStyle.Parser

/-- the rules that the others refer back to draw their nodes from the text -/
structure Rules.Draw (text : List Char) (rules : Rules) : Prop where
  expression : ∀ {K : Reading → Prop} {lo : Nat}, Draws text K lo rules.expression (Node.Drawn text lo)
  operand : ∀ {K : Reading → Prop} {lo : Nat}, Draws text K lo rules.operand (Node.Drawn text lo)
  climb : ∀ {K : Reading → Prop} {lo m : Nat} {left : Node}, left.Drawn text lo m → ∀ min,
    Draws text K m (rules.climb left min) (Node.Drawn text lo)
  argument : ∀ {K : Reading → Prop} {lo : Nat}, Draws text K lo rules.argument (Node.Drawn text lo)
  statement : ∀ {K : Reading → Prop} {lo : Nat} (scope : Scope),
    Draws text K lo (rules.statement scope) fun n _ => n.Legible text

/-- elements and the token that closes them, which ends at the edge -/
structure Node.ListDrawn (text : List Char) (x : List Node × Token) (hi : Nat) : Prop where
  items : AllLegible text x.1
  stop : UpTo text x.2.span.stop hi

/-- what stands inside a text block or closes it does not stand behind blank lines or comments -/
theorem Glued.eq_nil_of_chain {t u : Token} {trivia back : List Token} (h : (t :: trivia ++ u :: back).IsChain Glued)
    (hu : u.kind = .textBlockBody ∨ u.kind = .textBlockEnd) (htrivia : ∀ w ∈ trivia, w.kind.isTrivia = true) :
    trivia = [] := by
  rcases List.eq_nil_or_concat trivia with rfl | ⟨before, w, rfl⟩
  · rfl
  have hw := htrivia w (by simp)
  have hglued : Glued w u := by
    rw [List.concat_eq_append, List.cons_append, List.append_assoc, ← List.cons_append] at h
    exact List.IsChain.rel h.right_of_append
  rcases hu with hu | hu
  · rw [(hglued.body hu).1] at hw
    cases hw
  · rw [(hglued.stop hu).1] at hw
    cases hw

/-- the three tokens of a text block, with nothing but blank lines and comments between them, have nothing between them -/
theorem textBlock_ofText {text : List Char} {front trivia trivia' back : List Token} {start body stop : Token}
    (h : front ++ start :: (trivia ++ body :: (trivia' ++ stop :: back)) = (Stream.ofText text).ahead)
    (hstart : start.kind = .textBlockStart) (hbody : body.kind = .textBlockBody) (hstop : stop.kind = .textBlockEnd)
    (htrivia : ∀ u ∈ trivia, u.kind.isTrivia = true) (htrivia' : ∀ u ∈ trivia', u.kind.isTrivia = true) :
    slice text ⟨start.span.start, stop.span.stop⟩ = start.text ++ body.text ++ stop.text ∧
      Trimmed (start.text ++ body.text ++ stop.text) := by
  have hchain := Stream.glued_ofText text
  have htiled := Stream.tiled_ofText text
  have hsealed := Stream.sealed_ofText text
  rw [← h] at hchain htiled hsealed
  obtain rfl := Glued.eq_nil_of_chain hchain.right_of_append (.inl hbody) htrivia
  obtain rfl := Glued.eq_nil_of_chain (List.isChain_cons_cons.1 hchain.right_of_append).2 (.inr hstop) htrivia'
  obtain ⟨hgluedBody, hgluedRest⟩ := List.isChain_cons_cons.1 hchain.right_of_append
  have hgluedStop := (List.isChain_cons_cons.1 hgluedRest).1
  refine ⟨htiled.slice_glued (hgluedBody.body hbody).2 (hgluedStop.stop hstop).2, ?_⟩
  -- the text starts with the mark `@` and ends with the last character of the closing word
  obtain ⟨rest, hrest⟩ := (hsealed start (by simp)).start hstart
  obtain ⟨before, c, hlast, hc⟩ := (hsealed stop (by simp)).stop hstop
  constructor
  · rw [hrest]
    rintro c ⟨⟩
    rfl
  · rw [hlast, ← List.append_assoc, List.getLast?_concat]
    simpa using hc

namespace Grammar

variable {text : List Char} {K : Reading → Prop} {lo m hi : Nat} {rules : Rules} {t : Token} {β : Type}
  {R : β → Nat → Prop} {items : List Node} {left : Node}

/-! ## Lists -/

theorem legible_placeComment (ownLine : Bool) {c : Comment} (hc : c.Copied text) (h : AllLegible text items) :
    AllLegible text (placeComment ownLine c items) := by
  unfold placeComment
  split
  · exact .cons (.ofComment hc) .nil
  · obtain ⟨hlast, hbefore⟩ := List.forall_mem_cons.1 h
    split
    · exact .cons (.ofComment hc) h
    · exact .cons (hlast.withSuffix hc) hbefore

theorem draws_listComment (h : AllLegible text items) :
    Draws text K m (listComment items) fun items _ => AllLegible text items := by
  refine .get_bind fun r => .takeComment_bind fun c _ _ hc => .pure ?_
  exact legible_placeComment _ hc h

/-- an item takes its place before the comments that are parked -/
theorem draws_addItem (hitems : AllLegible text items) {item : Node} (hitem : item.Legible text) :
    Draws text K m (addItem items item) fun items _ => AllLegible text items := by
  unfold addItem adoptPending
  simp only [bind_assoc, pure_bind]
  refine .takePending_bind fun cs hcs => .pure ?_
  obtain ⟨hitem, hrest⟩ := hitem.adopt hcs
  exact .append (AllLegible.comments hrest).reverse (.cons hitem hitems)

theorem legible_leaf {shape : Shape Node} (ht : t.Taken text lo) (own : shape.Legible text t.span)
    (hparts : shape.parts = []) : (leaf t shape).Legible text := (Node.Drawn.leaf ht own hparts).legible

theorem legible_addBlank (ht : t.Taken text lo) (h : AllLegible text items) : AllLegible text (addBlank t items) := by
  unfold addBlank
  split
  · exact h
  · split
    · exact h
    · exact .cons (legible_leaf ht trivial rfl) h

theorem draws_statementList (ok : rules.Draw text) (scope : Scope) (closers : List Kind) :
    Draws text K lo (statementList rules scope closers) fun items _ => AllLegible text items := by
  unfold statementList
  refine .loop_bind (fun items _ => AllLegible text items) .nil (fun items m _ hitems => ?_) fun items m _ hitems => ?_
  · refine .raw_bind fun t ht => ?_
    split
    · exact .again (draws_listComment hitems)
    · exact .again (draws_listComment hitems)
    · exact .takeRaw_bind fun _ _ => .pure (legible_addBlank ht hitems)
    · exact .take_bind fun _ _ => .pure hitems
    · exact .pure hitems
    · refine .ite (fun _ => .pure hitems) fun _ => .bind (ok.statement scope) fun item hi _ hitem => ?_
      exact .again (draws_addItem hitems hitem)
  · exact .pure fun n hn => hitems n ((List.dropWhile_sublist _).subset (List.mem_reverse.1 hn))

/-! ## Preprocessor lines -/

/-- the pieces of a preprocessor line are ranges of the text -/
structure LinesDrawn (text : List Char) (d : DirectiveLines) : Prop where
  done : ∀ span ∈ d.done, span.Selects text
  line : ∀ span ∈ d.line, span.Selects text
  stop : Boundary text d.stop

theorem selects_cover {a b : Span} (ha : a.Selects text) (hb : b.Selects text) : (a.cover b).Selects text where
  ordered := (min_le_left _ _).trans (ha.ordered.trans (le_max_left _ _))
  start := ha.start.min hb.start
  stop := ha.stop.max hb.stop

theorem LinesDrawn.extend {d : DirectiveLines} (h : LinesDrawn text d) (ht : t.Taken text lo) :
    LinesDrawn text (d.extend t.span) := by
  refine ⟨h.done, ?_, ht.range.stop⟩
  rintro span hspan
  cases hline : d.line with
  | none =>
    obtain rfl : t.span = span := by simpa [DirectiveLines.extend, hline] using hspan
    exact ht.range
  | some line =>
    obtain rfl : line.cover t.span = span := by simpa [DirectiveLines.extend, hline] using hspan
    exact selects_cover (h.line line hline) ht.range

theorem LinesDrawn.finishLine {d : DirectiveLines} (h : LinesDrawn text d) : LinesDrawn text d.finishLine := by
  refine ⟨List.forall_mem_append.2 ⟨fun span hspan => h.line span ?_, h.done⟩, by simp [DirectiveLines.finishLine], h.stop⟩
  simpa using hspan

theorem draws_directiveLines {start : DirectiveLines} (hstart : LinesDrawn text start) :
    Draws text K m (directiveLines start) fun d _ => LinesDrawn text d := by
  refine .loop (fun d _ => LinesDrawn text d) hstart fun d m' _ hd => .raw_bind fun t ht => ?_
  cases hfault : t.fault with
  | some fault => exact .throw_bind
  | none =>
    split
    · exact .takeRaw_bind fun _ _ => .pure (hd.extend ht)
    · exact .takeRaw_bind fun _ _ => .pure (hd.extend ht)
    · exact .takeRaw_bind fun _ _ => .pure hd.finishLine
    · exact .takeRaw_bind fun _ _ => .pure hd.finishLine
    · exact .unexpected

theorem draws_lexemes_bind {spans : List Span} (hspans : ∀ span ∈ spans, span.Selects text) {f : List Lexeme → Parser β}
    (h : ∀ ls, (∀ l ∈ ls, l.Copied text) → Draws text Anywhere lo (f ls) R) :
    Draws text K lo (spans.mapM lexeme >>= f) R := by
  induction spans generalizing K f with
  | nil =>
    rw [List.mapM_nil, pure_bind]
    exact (h [] (by simp)).anywhere
  | cons span spans ih =>
    obtain ⟨hspan, hrest⟩ := List.forall_mem_cons.1 hspans
    rw [List.mapM_cons, bind_assoc]
    refine .lexeme_bind hspan fun l hl _ => ?_
    rw [bind_assoc]
    refine ih hrest fun ls hls => ?_
    rw [pure_bind]
    exact h _ (List.forall_mem_cons.2 ⟨hl, hls⟩)

/-- the end of a token is read again from where it starts -/
theorem copied_suffix (ht : t.Taken text lo) {word : List Char} (hword : word <:+ t.text) :
    Lexeme.Copied text ⟨⟨t.span.stop - byteLength word, t.span.stop⟩, word⟩ := by
  obtain ⟨front, hfront⟩ := hword
  have hslice := ht.slice?
  obtain ⟨-, -, -, -, hstop⟩ := slice?_eq_some_iff.1 hslice
  rw [← hfront, byteLength_append] at hstop
  rw [← hfront, ← List.append_nil word, ← List.append_assoc] at hslice
  have hinner := slice?_inner hslice
  have hspan : (⟨t.span.stop - byteLength word, t.span.stop⟩ : Span) =
      ⟨t.span.start + byteLength front, t.span.start + byteLength front + byteLength word⟩ := by
    rw [Span.mk.injEq]
    omega
  rw [Lexeme.Copied, hspan]
  exact hinner

/-- **A preprocessor line**: its name, key and arguments can be read again. -/
theorem draws_directive : Draws text K lo directive fun n _ => n.Legible text := by
  unfold directive
  refine .take_bind fun hash hhash => ?_
  extract_lets word name rest
  -- the name is what is left of the token behind the mark and its blanks
  have hname : name.Copied text :=
    copied_suffix hhash ((List.dropWhile_suffix _).trans (List.dropWhile_suffix _))
  have hrest {m : Nat} (key : Option Token) (hkey : ∀ t ∈ key, t.Taken text hash.span.stop) :
      Draws text Anywhere m (rest key) fun n _ => n.Legible text := by
    have hstop : Boundary text ((key.map (·.span.stop)).getD hash.span.stop) := by
      cases key with
      | none => exact hhash.range.stop
      | some t => exact (hkey t rfl).range.stop
    refine .bind (draws_directiveLines ⟨by simp, by simp, hstop⟩) fun lines _ _ hlines => ?_
    refine draws_lexemes_bind (fun span hspan => hlines.done span (List.mem_reverse.1 hspan)) fun args hargs => ?_
    refine .legible hhash.range.start hlines.stop ?_ .nil
    refine List.forall_mem_cons.2 ⟨hname, List.forall_mem_append.2 ⟨fun l hl => ?_, hargs⟩⟩
    obtain ⟨t, ht, rfl⟩ := Option.map_eq_some_iff.1 (Option.mem_toList.1 hl)
    exact (hkey t ht).lexeme
  refine .raw_bind fun u _ => .ite (fun _ => ?_) fun _ => ?_
  · rw [map_eq_pure_bind, bind_assoc]
    refine .takeRaw_bind fun key hkey => ?_
    rw [pure_bind]
    exact hrest (some key) (by simpa using hkey)
  · rw [pure_bind]
    exact (hrest none (by simp)).anywhere

/-- **A list that a bracket closes.** -/
theorem draws_delimited {close : Kind} {closeText : String} {item : Parser Node}
    (hitem : ∀ {K : Reading → Prop} {m : Nat}, Draws text K m item fun n _ => n.Legible text) :
    Draws text K lo (delimited close closeText item) (Node.ListDrawn text) := by
  unfold delimited
  refine .loop_bind (fun items _ => AllLegible text items) .nil (fun items m _ hitems => ?_) fun items m _ hitems => ?_
  · refine .raw_bind fun t _ => ?_
    split
    · exact .again (draws_listComment hitems)
    · exact .again (draws_listComment hitems)
    · exact .takeRaw_bind fun _ _ => .pure hitems
    · refine .ite (fun _ => .pure hitems) fun _ => .ite (fun _ => .unexpected) fun _ => .ite (fun _ => ?_) fun _ => ?_
      · exact .bind draws_directive fun n _ _ hn => .pure (.cons hn hitems)
      · refine .bind hitem fun node _ _ hnode => .peekKind_bind fun k => ?_
        refine .bind (draws_addItem hitems hnode) fun items _ _ hitems => ?_
        refine .ite (fun _ => .take_bind fun _ _ => .pure hitems) fun _ => .ite (fun _ => .pure hitems) fun _ => ?_
        exact .ite (fun _ => .pure hitems) fun _ => .wanted
  · exact .expect_bind fun token _ ht => .pure ⟨hitems.reverse, ht.atStop⟩

/-! ## Between brackets -/

/-- **Text blocks**: nothing stands between their tokens, so their text is their source text. -/
theorem draws_textBlock : Draws text K lo textBlock (Node.Drawn text lo) := by
  intro r hr _ n s hrun
  unfold textBlock at hrun
  obtain ⟨start, r₁, hstart, hrun⟩ := Parser.of_run_bind hrun
  obtain ⟨body, r₂, hbody, hrun⟩ := Parser.of_run_bind hrun
  obtain ⟨stop, r₃, hstop, hrun⟩ := Parser.of_run_bind hrun
  obtain ⟨hstartKind, hstartTaken, hr₁⟩ := Draws.of_expect hr hstart
  obtain ⟨hbodyKind, hbodyTaken, hr₂⟩ := Draws.of_expect hr₁ hbody
  obtain ⟨hstopKind, hstopTaken, hr₃⟩ := Draws.of_expect hr₂ hstop
  have hle : start.span.stop ≤ stop.span.start := hbodyTaken.le.trans hstopTaken.start
  have hown : Shape.Legible text ⟨start.span.start, stop.span.stop⟩
      (.textBlock (start.text ++ body.text ++ stop.text)) := by
    have hkind {r : Reading} {lo : Nat} (hr : r.Follows text lo) : r.eof.kind = .endOfFile := by
      rw [hr.eof, Stream.eof_ofText]
    obtain ⟨before, -, hahead⟩ := Reading.ahead_of_expect hstart (by simp [hkind hr])
    obtain ⟨trivia₁, htrivia₁, hahead₁⟩ := Reading.ahead_of_expect hbody (by simp [hkind hr₁])
    obtain ⟨trivia₂, htrivia₂, hahead₂⟩ := Reading.ahead_of_expect hstop (by simp [hkind hr₂])
    obtain ⟨front, hfront⟩ := hr.suffix
    rw [hahead, hahead₁, hahead₂, ← List.append_assoc] at hfront
    obtain ⟨hslice, htrimmed⟩ := textBlock_ofText hfront hstartKind hbodyKind hstopKind htrivia₁ htrivia₂
    have hrange : Span.Selects text ⟨start.span.start, stop.span.stop⟩ :=
      ⟨hstartTaken.ordered.trans (hle.trans hstopTaken.ordered), hstartTaken.range.start, hstopTaken.range.stop⟩
    exact ⟨hslice ▸ hrange.slice?, htrimmed⟩
  obtain ⟨hi, hhi, hs, hn⟩ :=
    Draws.drawn (K := Anywhere) hstartTaken.atStart hstopTaken.atStop hown .nil r₃ hr₃ trivial n s hrun
  exact ⟨hi, (hstartTaken.le.trans (hle.trans hstopTaken.ordered)).trans hhi, hs, hn⟩

/-- a value, or a member with its value -/
theorem draws_structItem (ok : rules.Draw text) : Draws text K lo (structItem rules) fun n _ => n.Legible text := by
  unfold structItem
  refine .bind ok.expression fun key m _ hkey => .ite (fun _ => .pure hkey.legible) fun _ => ?_
  refine .eat_bind (fun colon hcolon => ?_) (.pure hkey.legible)
  refine .bind ok.expression fun value _ _ hvalue => ?_
  exact .legible hkey.legible.start hvalue.legible.stop trivial (.cons hkey.legible (.cons hvalue.legible .nil))

theorem draws_paren (ok : rules.Draw text) : Draws text K lo (paren rules) (Node.Drawn text lo) := by
  unfold paren
  refine .expect_bind fun start _ hstart => .eat_bind (fun name hname => ?_) ?_
  · refine .bind (draws_delimited (draws_structItem ok)) fun x _ _ hx => ?_
    exact .drawn hstart.atStart hx.stop hname.lexeme hx.items
  · refine .bind (draws_delimited ok.expression.plain) fun x _ _ hx => ?_
    exact .drawn hstart.atStart hx.stop trivial hx.items

/-- **An array** opens with two characters of one byte, so the place behind them is a boundary. -/
theorem draws_array (ok : rules.Draw text) : Draws text K lo (array rules) (Node.Drawn text lo) := by
  unfold array
  refine .expect_bind fun start hkind hstart => .bind (draws_delimited ok.expression.plain) fun x _ _ hx => ?_
  refine .drawn hstart.atStart hx.stop ?_ hx.items
  obtain ⟨-, -, -, -, hstop⟩ := slice?_eq_some_iff.1 hstart.slice?
  rw [Stream.arrayStart_ofText hstart.mem hkind] at hstop
  change Boundary text (start.span.start + 2)
  rw [show start.span.start + 2 = start.span.stop from hstop]
  exact hstart.range.stop

/-- expressions with semicolons between them, newest first -/
theorem draws_moreValues (ok : rules.Draw text) {first : Node} (hfirst : first.Legible text) :
    Draws text K m (moreValues rules [first]) fun values _ => AllLegible text values ∧ values ≠ [] := by
  refine .loop (fun values _ => AllLegible text values ∧ values ≠ []) ⟨.cons hfirst .nil, by simp⟩ ?_
  rintro values m' - hvalues
  refine .eat_bind (fun semicolon _ => ?_) (.pure hvalues)
  exact .bind ok.expression fun value _ _ hvalue => .pure ⟨.cons hvalue.legible hvalues.1, by simp⟩

theorem draws_mappingPair (ok : rules.Draw text) : Draws text K lo (mappingPair rules) fun n _ => n.Legible text := by
  unfold mappingPair
  refine .bind ok.expression fun key m _ hkey => .eat_bind (fun colon _ => ?_) ?_
  · refine .bind ok.expression fun first _ _ hfirst => .bind (draws_moreValues ok hfirst.legible) fun values _ _ h => ?_
    obtain ⟨hvalues, hne⟩ := h
    have hlast : (values.headD first).Legible text := by
      cases values with
      | nil => exact absurd rfl hne
      | cons last before => exact hvalues last (by simp)
    exact .legible hkey.legible.start hlast.stop trivial (.cons hkey.legible hvalues.reverse)
  · exact .legible hkey.legible.start hkey.legible.stop trivial (.cons hkey.legible .nil)

theorem draws_mapping (ok : rules.Draw text) : Draws text K lo (mapping rules) (Node.Drawn text lo) := by
  unfold mapping
  refine .expect_bind fun start _ hstart => .bind (draws_delimited (draws_mappingPair ok)) fun x _ _ hx => ?_
  exact .drawn hstart.atStart hx.stop trivial hx.items

/-- an index goes on behind its object -/
theorem draws_index (ok : rules.Draw text) {object : Node} (hobject : object.Drawn text lo m) :
    Draws text K m (index rules object) (Node.Drawn text lo) := by
  unfold index
  refine .expect_bind fun start _ hstart => ?_
  refine .loop_bind (fun parts _ => AllLegible text parts) .nil (fun parts m' _ hparts => ?_) fun parts m' _ hparts => ?_
  · refine .peek_bind fun t ht => .ite (fun _ => .pure hparts) fun _ => ?_
    cases indexMark? t.kind with
    | some mark => exact .take_bind fun _ _ => .pure (.cons (legible_leaf ht trivial rfl) hparts)
    | none => exact .bind ok.expression fun part _ _ hpart => .pure (.cons hpart.legible hparts)
  · refine .expect_bind fun close _ hclose => ?_
    refine .bind (.legible hstart.range.start hclose.range.stop trivial hparts.reverse) fun indexor _ hle hindexor => ?_
    exact .drawn hobject.atStart (hclose.atStop.weaken hle) trivial (.cons hobject.legible (.cons hindexor .nil))

theorem draws_closureItem (ok : rules.Draw text) (kind : Kind) :
    Draws text K lo (closureItem rules kind) fun n _ => n.Legible text := by
  unfold closureItem
  refine .ite (fun _ => ok.statement .block) fun _ => .bind ok.expression fun node _ _ hnode => ?_
  exact .eat_bind (fun _ _ => .pure hnode.legible) (.pure hnode.legible)

theorem draws_inlineClosure (ok : rules.Draw text) : Draws text K lo (inlineClosure rules) (Node.Drawn text lo) := by
  unfold inlineClosure
  refine .expect_bind fun start _ hstart => ?_
  refine .loop_bind (fun items _ => AllLegible text items) .nil (fun items m _ hitems => ?_) fun items m hm hitems => ?_
  · refine .raw_bind fun t _ => ?_
    split
    · exact .again (draws_listComment hitems)
    · exact .again (draws_listComment hitems)
    · exact .takeRaw_bind fun _ _ => .pure hitems
    · exact .pure hitems
    · exact .take_bind fun _ _ => .pure hitems
    · exact .bind (draws_closureItem ok _) fun item _ _ hitem => .again (draws_addItem hitems hitem)
  · exact .expect_bind fun close _ hclose => .drawn hstart.atStart hclose.atStop trivial hitems.reverse

theorem draws_lambda (ok : rules.Draw text) : Draws text K lo (lambda rules) (Node.Drawn text lo) := by
  unfold lambda
  refine .expect_bind fun start _ hstart => .bind ok.expression fun args _ _ hargs => ?_
  refine .expect_bind fun comma _ _ => .bind ok.expression fun code _ _ hcode => ?_
  refine .expect_bind fun close _ hclose => ?_
  exact .drawn hstart.atStart hclose.atStop trivial (.cons hargs.legible (.cons hcode.legible .nil))

/-! ## Operands -/

theorem draws_atName_bind {f : Bool → Parser β} (h : ∀ b, Draws text Anywhere lo (f b) R) :
    Draws text K lo (atName >>= f) R := by
  rw [atName, bind_assoc]
  simp only [pure_bind]
  exact .peek_bind fun t _ => (h _).anywhere

/-- a name is one token -/
theorem draws_name : Draws text K lo name (Node.Drawn text lo) := by
  unfold name
  refine draws_atName_bind fun b => .ite (fun _ => ?_) fun _ => .wanted
  exact .take_bind fun t ht => .pure (.leaf ht ht.slice? rfl)

/-- **An operand by itself**: one token, or a form between brackets. -/
theorem draws_primary (ok : rules.Draw text) : Draws text K lo (primary rules) (Node.Drawn text lo) := by
  unfold primary
  refine .peek_bind fun t ht => ?_
  extract_lets whole
  have hwhole {shape : Shape Node} (own : shape.Legible text t.span) (hparts : shape.parts = []) :
      Draws text (Comes t) lo (whole shape) (Node.Drawn text lo) :=
    .takeThere_bind fun ht => .pure (.leaf ht own hparts)
  split
  · exact hwhole (ht.literal (by simp)) rfl
  · next hkind => exact hwhole (ht.literal fun _ => .inl hkind) rfl
  · next hkind => exact hwhole (ht.literal fun _ => .inr hkind) rfl
  · exact hwhole (ht.literal (by simp)) rfl
  · exact draws_name
  · exact .ite (fun _ => draws_name) fun _ => .wanted
  · exact hwhole ht.slice? rfl
  · exact hwhole ht.slice? rfl
  · exact hwhole ht.slice? rfl
  · refine .take_bind fun _ _ => .bind draws_name fun member _ _ hmember => ?_
    exact .drawn ht.atStart hmember.atStop trivial (.cons hmember.legible .nil)
  · exact draws_textBlock
  · exact draws_paren ok
  · exact draws_array ok
  · exact draws_mapping ok
  · exact draws_inlineClosure ok
  · exact draws_lambda ok
  · exact .wanted

/-! ## What follows an operand -/

theorem draws_call (ok : rules.Draw text) {callee : Node} (hcallee : callee.Drawn text lo m) :
    Draws text K m (call rules callee) (Node.Drawn text lo) := by
  unfold call
  refine .expect_bind fun start _ _ => .bind (draws_delimited ok.argument.plain) fun x _ _ hx => ?_
  exact .drawn hcallee.atStart hx.stop trivial (.cons hcallee.legible hx.items)

/-- **A node of two parts**, the second behind the first. -/
theorem draws_join {right : Node} {shape : Shape Node} {m' : Nat} (hleft : left.Drawn text lo m)
    (hright : right.Drawn text m' hi) (own : shape.Legible text ⟨left.start, right.stop⟩)
    (hparts : shape.parts = [left, right]) :
    Draws text K hi (build left.start right.stop shape) (Node.Drawn text lo) := by
  refine .drawn hleft.atStart hright.atStop own ?_
  rw [hparts]
  exact .cons hleft.legible (.cons hright.legible .nil)

theorem draws_member (ok : rules.Draw text) {object : Node} (hobject : object.Drawn text lo m) :
    Draws text K m (member rules object) (Node.Drawn text lo) := by
  unfold member
  refine .take_bind fun mark _ => ?_
  extract_lets dot join
  have hjoin {lo' m' : Nat} (property : Node) (hproperty : property.Drawn text lo' m') :
      Draws text Anywhere m' (join property) (Node.Drawn text lo) := draws_join hobject hproperty trivial rfl
  refine .at_bind fun b => .ite (fun _ => ?_) fun _ => .bind draws_name fun property _ _ hproperty => ?_
  · exact .bind (draws_paren ok) fun property _ _ hproperty => hjoin property hproperty
  · refine .at_bind fun b => .ite (fun _ => ?_) fun _ => hjoin property hproperty
    exact .bind (draws_call ok hproperty) fun property _ _ hproperty => hjoin property hproperty

theorem draws_trailers (ok : rules.Draw text) {operand : Node} (hoperand : operand.Drawn text lo m) :
    Draws text K m (trailers rules operand) (Node.Drawn text lo) := by
  refine .loop (Node.Drawn text lo) hoperand fun left m' _ hleft => .peek_bind fun t _ => ?_
  split
  · exact .ite (fun _ => .again (draws_call ok hleft)) fun _ => .pure hleft
  · exact .again (draws_index ok hleft)
  · exact .again (draws_member ok hleft)
  · exact .again (draws_member ok hleft)
  · refine .ite (fun _ => .take_bind fun _ _ => ?_) fun _ => .pure hleft
    exact .bind draws_name fun member _ _ hmember => .again (draws_join hleft hmember trivial rfl)
  · refine .ite (fun _ => .takeThere_bind fun ht => .again ?_) fun _ => .pure hleft
    exact .drawn hleft.atStart ht.atStop ht.lexeme (.cons hleft.legible .nil)
  · refine .takeThere_bind fun ht => .again ?_
    exact .drawn hleft.atStart ht.atStop trivial (.cons hleft.legible .nil)
  · exact .pure hleft

theorem draws_joined (ok : rules.Draw text) {operand : Node} (hoperand : operand.Drawn text lo m) :
    Draws text K m (joined rules operand) (Node.Drawn text lo) := by
  refine .loop (Node.Drawn text lo) hoperand fun left m' _ hleft => ?_
  refine .peekKind_bind fun k => .ite (fun _ => ?_) fun _ => .pure hleft
  refine .bind (draws_primary ok) fun operand _ _ hoperand => .bind (draws_trailers ok hoperand) fun right _ _ hright => ?_
  exact .again (draws_join hleft hright (fun himplied => nomatch himplied) rfl)

/-- the type word of a cast is a part of its token -/
theorem copied_castType (ht : t.Taken text lo) : (castType t).Copied text := by
  have hsplit : t.text = t.text.takeWhile (!·.isAlpha) ++
      (t.text.dropWhile (!·.isAlpha)).takeWhile (fun c => c.isAlphanum || c == '_') ++
        (t.text.dropWhile (!·.isAlpha)).dropWhile (fun c => c.isAlphanum || c == '_') := by
    rw [List.append_assoc, List.takeWhile_append_dropWhile, List.takeWhile_append_dropWhile]
  have hslice := ht.slice?
  rw [hsplit] at hslice
  have hfront : byteLength t.text - byteLength (t.text.dropWhile (!·.isAlpha)) =
      byteLength (t.text.takeWhile (!·.isAlpha)) := by
    have hlength := congrArg byteLength (List.takeWhile_append_dropWhile (p := (!·.isAlpha)) (l := t.text))
    rw [byteLength_append] at hlength
    omega
  have hinner := slice?_inner hslice
  rw [← hfront] at hinner
  exact hinner

theorem draws_operand (ok : rules.Draw text) : Draws text K lo (operand rules) (Node.Drawn text lo) := by
  unfold operand
  refine .peek_bind fun t ht => .ite (fun _ => ?_) fun _ => .ite (fun _ => ?_) fun _ => ?_
  · refine .take_bind fun _ _ => .bind ok.operand fun argument _ _ hargument => ?_
    exact .drawn ht.atStart hargument.atStop (copied_castType ht) (.cons hargument.legible .nil)
  · refine .take_bind fun _ _ => .bind ok.operand fun argument _ _ hargument => ?_
    exact .drawn ht.atStart hargument.atStop ht.lexeme (.cons hargument.legible .nil)
  · exact .bind (draws_primary ok) fun operand _ _ h => draws_trailers ok h

/-! ## Operators -/

theorem draws_tighter (ok : rules.Draw text) (rank : Nat) {right : Node} (hright : right.Drawn text lo m) :
    Draws text K m (tighter rules rank right) (Node.Drawn text lo) := by
  refine .loop (Node.Drawn text lo) hright fun right m' _ hright => .peek_bind fun t _ => ?_
  cases rank? t with
  | none => exact .pure hright
  | some next => exact .ite (fun _ => .again (ok.climb hright _)) fun _ => .pure hright

/-- **Operators** between operands. -/
theorem draws_climb (ok : rules.Draw text) (hleft : left.Drawn text lo m) (min : Nat) :
    Draws text K m (climb rules left min) (Node.Drawn text lo) := by
  refine .loop (Node.Drawn text lo) hleft fun left m' _ hleft => .peek_bind fun t _ => ?_
  cases rank? t with
  | none => exact .pure hleft
  | some rank =>
    refine .ite (fun _ => .take_bind fun op hop => .bind ok.operand fun operand _ _ hoperand => ?_) fun _ => .pure hleft
    refine .bind (draws_joined ok hoperand) fun right _ _ hright => .bind (draws_tighter ok rank hright) ?_
    intro right _ _ hright
    refine .again ?_
    split
    · exact draws_join hleft hright hop.lexeme rfl
    · exact draws_join hleft hright (fun _ => hop.lexeme) rfl

theorem draws_ternary (ok : rules.Draw text) {test : Node} (htest : test.Drawn text lo m) :
    Draws text K m (ternary rules test) (Node.Drawn text lo) := by
  refine .eat_bind (fun question _ => .bind ok.expression fun consequent _ _ hconsequent => ?_) (.pure htest)
  refine .expect_bind fun colon _ _ => .bind ok.expression fun alternate _ _ halternate => ?_
  refine .drawn htest.atStart halternate.atStop trivial ?_
  exact .cons htest.legible (.cons hconsequent.legible (.cons halternate.legible .nil))

theorem draws_assignment (ok : rules.Draw text) (hleft : left.Drawn text lo m) :
    Draws text K m (assignment rules left) (Node.Drawn text lo) := by
  refine .peek_bind fun t _ => .ite (fun _ => ?_) fun _ => .pure hleft
  refine .take_bind fun op hop => .bind ok.expression fun right _ _ hright => ?_
  exact draws_join hleft hright hop.lexeme rfl

theorem draws_afterOperand (ok : rules.Draw text) (hleft : left.Drawn text lo m) :
    Draws text K m (afterOperand rules left) (Node.Drawn text lo) :=
  .bind (draws_joined ok hleft) fun _ _ _ h => .bind (draws_climb ok h 0) fun _ _ _ h =>
    .bind (draws_ternary ok h) fun _ _ _ h => draws_assignment ok h

theorem draws_expression (ok : rules.Draw text) : Draws text K lo (expression rules) (Node.Drawn text lo) :=
  .bind (draws_operand ok) fun _ _ _ h => draws_afterOperand ok h

theorem draws_expressionFrom (ok : rules.Draw text) (hleft : left.Drawn text lo m) :
    Draws text K m (expressionFrom rules left) (Node.Drawn text lo) :=
  .bind (draws_trailers ok hleft) fun _ _ _ h => draws_afterOperand ok h

end Grammar

end LpcStyle
