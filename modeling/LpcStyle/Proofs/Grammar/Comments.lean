import Mathlib.Tactic
import LpcStyle.Grammar.Parse
import LpcStyle.Proofs.Grammar.Carries

/-!
The grammar neither loses nor doubles comments. One lemma for each rule, and from them, by the depth that is allowed, the
whole grammar. Main statement: `comments_parse`.
-/

namespace LpcStyle

open Text LpcStyle.Parser

/-- the rules that the others refer back to carry the comments they take -/
structure Rules.Carry (rules : Rules) : Prop where
  expression : ∀ {K : Reading → Prop}, Carries K 0 rules.expression .node
  operand : ∀ {K : Reading → Prop}, Carries K 0 rules.operand .node
  climb : ∀ {K : Reading → Prop} {left : Node}, left.shape.isBlankLine = false → ∀ min,
    Carries K left.comments (rules.climb left min) .node
  argument : ∀ {K : Reading → Prop}, Carries K 0 rules.argument .node
  statement : ∀ {K : Reading → Prop} (scope : Scope), Carries K 0 (rules.statement scope) .node

namespace Grammar

variable {K L : Reading → Prop} {given : Multiset Comment} {rules : Rules} {t : Token} {β : Type} {D : Load β}

/-! ## Lists -/

theorem comments_placeComment (ownLine : Bool) (c : Comment) (items : List Node) :
    commentsAll (placeComment ownLine c items) = commentsAll items + {c} := by
  unfold placeComment
  split
  · simp
  · next last before =>
    split
    · simp [add_comm]
    · next h =>
      have hsuffix : last.hasSuffix = false := by simp at h; exact h.1.2
      simp [Node.comments_withSuffix hsuffix, add_right_comm]

theorem fine_placeComment {ownLine : Bool} {c : Comment} {items : List Node} (h : Load.nodes.fine items) :
    Load.nodes.fine (placeComment ownLine c items) := by
  have hcomment (n : Node) (hn : n = .ofComment c) (hblank : n.shape.isBlankLine = true) : n.comments = 0 := by
    subst hn
    cases hblank
  unfold placeComment
  split
  · exact List.forall_mem_singleton.2 (hcomment _ rfl)
  · next last before =>
    split
    · exact List.forall_mem_cons.2 ⟨hcomment _ rfl, h⟩
    · next hplace =>
      refine List.forall_mem_cons.2 ⟨fun hblank => ?_, (List.forall_mem_cons.1 h).2⟩
      have hshape : last.shape.isBlankLine = true := hblank
      simp [hshape] at hplace

/-- a comment is put into a list -/
theorem carries_listComment (ht : t.kind.isComment = true) {items : List Node} (h : Load.nodes.fine items) :
    Carries (ComesRaw t) (commentsAll items) (listComment items) .nodes := by
  refine .get_bind fun r _ hr => ?_
  refine (Carries.takeComment_bind ht fun c => ?_).weaken fun s _ hs => by rw [ComesRaw, hs, hr]
  exact .pure (comments_placeComment _ _ _) (fine_placeComment h)

theorem shape_adopt (n : Node) (cs : List Comment) : (n.adopt cs).1.shape = n.shape := by
  cases cs with
  | nil => rfl
  | cons c cs =>
    rw [Node.adopt]
    split <;> rfl

/-- **An item takes in what is parked**, and the list the rest of it. -/
theorem carries_addItem_bind (hK : ∀ r : Reading, K r → L { r with pending := [] }) {items : List Node} {item : Node}
    (hitems : Load.nodes.fine items) (hitem : item.shape.isBlankLine = false) {f : List Node → Parser β}
    (h : ∀ items, Load.nodes.fine items → Carries L (commentsAll items) (f items) D) :
    Carries K (commentsAll items + item.comments) (addItem items item >>= f) D := by
  unfold addItem adoptPending
  simp only [bind_assoc, pure_bind]
  refine .takePending_bind hK fun cs => ?_
  have htotal : commentsAll (((item.adopt cs).2.map Node.ofComment).reverse ++ (item.adopt cs).1 :: items) =
      commentsAll items + item.comments + ↑cs := by
    rw [commentsAll_append, commentsAll_reverse, commentsAll_ofComment, commentsAll_cons, add_assoc (commentsAll items),
      ← Node.comments_adopt]
    abel
  rw [← htotal]
  refine h _ fun n hn hblank => ?_
  rcases List.mem_append.1 hn with hn | hn
  · obtain ⟨c, -, rfl⟩ := List.mem_map.1 (List.mem_reverse.1 hn)
    cases hblank
  · rcases List.mem_cons.1 hn with rfl | hn
    · rw [shape_adopt, hitem] at hblank
      cases hblank
    · exact hitems n hn hblank

theorem comments_addBlank (token : Token) (items : List Node) : commentsAll (addBlank token items) = commentsAll items := by
  unfold addBlank
  split
  · rfl
  · split
    · rfl
    · rw [commentsAll_cons, leaf, Node.comments_mk rfl]
      exact zero_add _

theorem fine_addBlank {token : Token} {items : List Node} (h : Load.nodes.fine items) :
    Load.nodes.fine (addBlank token items) := by
  unfold addBlank
  split
  · exact List.forall_mem_nil _
  · split
    · exact h
    · refine List.forall_mem_cons.2 ⟨fun _ => ?_, h⟩
      rw [leaf, Node.comments_mk rfl]
      rfl

/-- blank lines carry nothing -/
theorem comments_dropBlank {items : List Node} (h : Load.nodes.fine items) :
    commentsAll (items.dropWhile (·.shape.isBlankLine)) = commentsAll items := by
  induction items with
  | nil => rfl
  | cons n items ih =>
    obtain ⟨hn, hitems⟩ := List.forall_mem_cons.1 h
    cases hblank : n.shape.isBlankLine with
    | true => simp [hblank, ih hitems, hn hblank]
    | false => simp [hblank]

theorem carries_statementList (ok : rules.Carry) (scope : Scope) (closers : List Kind) :
    Carries K 0 (statementList rules scope closers) .nodes := by
  unfold statementList
  refine .andThen (C := .nodes) (.loop .nodes rfl (List.forall_mem_nil _) fun items hitems => ?_) fun items hitems => ?_
  · refine .raw_bind fun t => ?_
    have hcomment (ht : t.kind.isComment = true) :
        Carries (ComesRaw t) (commentsAll items) (do return .inl (← listComment items)) (Load.nodes.or .nodes) :=
      .bind (carries_listComment ht hitems) fun _ h => .again rfl h
    split
    · next ht => exact hcomment (by rw [ht]; rfl)
    · next ht => exact hcomment (by rw [ht]; rfl)
    · next ht => exact .takeBlank_bind ht fun _ => .again (comments_addBlank _ _) (fine_addBlank hitems)
    · next ht =>
      refine Carries.nextRaw ?_ (by rw [ht]; rfl)
      exact .take_bind (by simp [ht]) fun _ => .again rfl hitems
    · exact .done rfl hitems
    · refine .ite (fun _ => .done rfl hitems) fun _ => .andThen (ok.statement scope) fun item hitem => ?_
      exact carries_addItem_bind (L := Anywhere) (fun _ _ => trivial) hitems hitem fun items hitems => .again rfl hitems
  · refine .pure ?_ fun n hn => hitems n ((List.dropWhile_sublist _).subset (List.mem_reverse.1 hn))
    simp [comments_dropBlank hitems]

/-! ## Preprocessor lines -/

/-- nothing is held back, and so much is owed where a preprocessor line is open or not -/
structure OnLine (inside : Bool) (owed : Multiset Comment) (r : Reading) : Prop where
  sane : r.Sane
  held : r.held = none
  owed : ↑r.pending + ↑(commentsOutside inside r.ahead) = owed

/-- a token inside a preprocessor line, which its end closes -/
theorem OnLine.dropRaw {owed : Multiset Comment} {r : Reading} (h : OnLine true owed r) :
    OnLine (r.raw.kind ≠ .directiveEnd) owed r.dropRaw := by
  have hdrop : r.dropRaw = { r with ahead := r.ahead.tail } := by simp [Reading.dropRaw, h.held]
  refine ⟨h.sane.dropRaw, by rw [hdrop, h.held], ?_⟩
  rw [hdrop, ← h.owed]
  cases hahead : r.ahead with
  | nil => simp [commentsOutside]
  | cons u us => simp [commentsOutside, Reading.raw, Reading.front, h.held, hahead]

/-- **The lines of a preprocessor line**: the comments inside of it are not among those that are owed. -/
theorem onLine_directiveLines {start d : DirectiveLines} {owed : Multiset Comment} {r s : Reading}
    (hr : OnLine true owed r) (hrun : (directiveLines start).run r = .ok (d, s)) : OnLine false owed s := by
  refine Parser.of_run_loop (I := fun _ => OnLine true owed) (Q := fun _ => OnLine false owed) hrun hr ?_
  intro d u hu y v hrun
  obtain ⟨token, u', hraw, hrun⟩ := Parser.of_run_bind hrun
  cases hraw
  extract_lets round at hrun
  cases hfault : u.raw.fault with
  | some fault =>
    rw [hfault] at hrun
    cases hrun
  | none =>
    rw [hfault] at hrun
    have hdrop := hu.dropRaw
    simp only [round] at hrun
    split at hrun
    · next hkind =>
      cases hrun
      simpa [hkind] using hdrop
    · next hkind =>
      cases hrun
      simpa [hkind] using hdrop
    · next hkind =>
      cases hrun
      simpa [hkind] using hdrop
    · next hkind =>
      cases hrun
      simpa [hkind] using hdrop
    · have hnever : Carries Anywhere 0 (Parser.unexpected : Parser (DirectiveLines ⊕ DirectiveLines))
          ⟨fun _ => 0, fun _ => False⟩ := .unexpected
      exact (hnever u hu.sane trivial y v hrun).2.2.elim

theorem run_lexemes {spans : List Span} {ls : List Lexeme} {r s : Reading}
    (hrun : (spans.mapM lexeme).run r = .ok (ls, s)) : s = r := by
  induction spans generalizing ls with
  | nil =>
    cases hrun
    rfl
  | cons span spans ih =>
    rw [List.mapM_cons] at hrun
    obtain ⟨l, r₁, hl, hrun⟩ := Parser.of_run_bind hrun
    cases hl
    obtain ⟨ls, r₂, hls, hrun⟩ := Parser.of_run_bind hrun
    cases hrun
    exact ih hls

/-- **A preprocessor line** carries none of the comments that are owed. -/
theorem carries_directive (ht : t.kind = .directive) : Carries (Comes t) 0 directive .node := by
  rintro r hr rfl n s hrun
  unfold directive at hrun
  obtain ⟨hash, r₁, htake, hrun⟩ := Parser.of_run_bind hrun
  obtain ⟨rfl, rfl⟩ := Parser.eq_of_take htake
  extract_lets word name rest at hrun
  -- the line is open behind its first token
  have hopen : OnLine true r.owed r.settle.dropRaw := by
    refine ⟨hr.settle.dropRaw, rfl, ?_⟩
    rw [← r.owed_settle]
    change (↑r.settle.pending + ↑(commentsOutside true r.settle.ahead.tail) : Multiset Comment) = _
    have hraw : r.settle.raw = r.settle.ahead.headD r.eof := rfl
    rw [hraw] at ht
    rw [Reading.owed]
    cases hahead : r.settle.ahead with
    | nil =>
      rw [hahead, List.headD_nil, hr.eof] at ht
      cases ht
    | cons u us =>
      rw [hahead, List.headD_cons] at ht
      simp [commentsOutside, ht, Kind.isComment]
  have hrest {key : Option Token} {u : Reading} (hu : OnLine true r.owed u) (hrun : (rest key).run u = .ok (n, s)) :
      s.Sane ∧ n.comments + s.owed = 0 + r.owed ∧ n.shape.isBlankLine = false := by
    obtain ⟨lines, u₁, hlines, hrun⟩ := Parser.of_run_bind hrun
    obtain ⟨args, u₂, hargs, hrun⟩ := Parser.of_run_bind hrun
    rw [run_lexemes hargs] at hrun
    have hline := onLine_directiveLines hu hlines
    have howed : u₁.owed = r.owed := hline.owed
    rw [← howed]
    exact Carries.build (K := Anywhere) ⟨rfl, rfl⟩ rfl u₁ hline.sane trivial n s hrun
  obtain ⟨u, r₂, hraw, hrun⟩ := Parser.of_run_bind hrun
  cases hraw
  by_cases hkey : r.settle.dropRaw.raw.kind = .directiveKey
  · rw [if_pos hkey] at hrun
    obtain ⟨key, r₃, hkeyRun, hrun⟩ := Parser.of_run_bind hrun
    cases hkeyRun
    have hdrop := hopen.dropRaw
    exact hrest (by simpa [hkey] using hdrop) hrun
  · rw [if_neg hkey] at hrun
    exact hrest hopen hrun

theorem carries_delimited {close : Kind} {closeText : String} {item : Parser Node} (hclose : close ≠ .directive)
    (hitem : ∀ {K : Reading → Prop}, Carries K 0 item .node) : Carries K 0 (delimited close closeText item) .list := by
  unfold delimited
  refine .andThen (C := .nodes) (.loop .nodes rfl (List.forall_mem_nil _) fun items hitems => ?_) fun items hitems => ?_
  · refine .raw_bind fun t => ?_
    have hcomment (ht : t.kind.isComment = true) :
        Carries (ComesRaw t) (commentsAll items) (do return .inl (← listComment items)) (Load.nodes.or .nodes) :=
      .bind (carries_listComment ht hitems) fun _ h => .again rfl h
    split
    · next ht => exact hcomment (by rw [ht]; rfl)
    · next ht => exact hcomment (by rw [ht]; rfl)
    · next ht => exact .takeBlank_bind ht fun _ => .again rfl hitems
    · refine .ite (fun _ => .done rfl hitems) fun _ => .ite (fun _ => .unexpected) fun _ => .ite (fun ht => ?_) fun _ => ?_
      · have hnode : Carries (ComesRaw t) 0 directive .node := (carries_directive ht).nextRaw (by rw [ht]; rfl)
        refine hnode.andThen fun n hn => .again ?_ ?_
        · simp [add_comm]
        · exact List.forall_mem_cons.2 ⟨fun hblank => absurd hblank (by simp [show n.shape.isBlankLine = false from hn]), hitems⟩
      · refine .andThen hitem fun node hnode => .peekKind_bind fun t => ?_
        refine carries_addItem_bind (L := Comes t) (fun _ h => h) hitems hnode fun items hitems => ?_
        refine .ite (fun ht => ?_) fun _ => .ite (fun _ => .done rfl hitems) fun _ => ?_
        · exact .take_bind (by simp [ht]) fun _ => .again rfl hitems
        · exact .ite (fun _ => .again rfl hitems) fun _ => .wanted
  · refine .expect_bind hclose fun token => .pure ?_ trivial
    simp

/-! ## Between brackets -/

theorem carries_textBlock : Carries K 0 textBlock .node :=
  .expect_bind (by simp) fun _ => .expect_bind (by simp) fun _ => .expect_bind (by simp) fun _ => .build ⟨rfl, rfl⟩ rfl

theorem carries_structItem (ok : rules.Carry) : Carries K 0 (structItem rules) .node := by
  unfold structItem
  refine .andThen ok.expression fun key hkey => ?_
  refine .ite (fun _ => .pure (by simp) hkey) fun _ => .eat_bind (by simp) (fun _ => ?_) (.pure (by simp) hkey)
  refine .andThen ok.expression fun value _ => .build ⟨rfl, rfl⟩ ?_
  simp [Shape.comments, Shape.opening, Shape.parts]

theorem carries_paren (ok : rules.Carry) : Carries K 0 (paren rules) .node := by
  unfold paren
  refine .expect_bind (by simp) fun _ => .eat_bind (by simp) (fun _ => ?_) ?_
  · refine .andThen (carries_delimited (by simp) (carries_structItem ok)) fun x _ => .build ⟨rfl, rfl⟩ ?_
    simp [Shape.comments, Shape.opening, Shape.parts]
  · refine .andThen (carries_delimited (by simp) ok.expression) fun x _ => .build ⟨rfl, rfl⟩ ?_
    simp [Shape.comments, Shape.opening, Shape.parts]

theorem carries_array (ok : rules.Carry) : Carries K 0 (array rules) .node := by
  unfold array
  refine .expect_bind (by simp) fun _ => .andThen (carries_delimited (by simp) ok.expression) fun x _ => ?_
  exact .build ⟨rfl, rfl⟩ (by simp [Shape.comments, Shape.opening, Shape.parts])

theorem carries_moreValues (ok : rules.Carry) (values : List Node) :
    Carries K (commentsAll values) (moreValues rules values) ⟨commentsAll, fun _ => True⟩ := by
  refine .loop ⟨commentsAll, fun _ => True⟩ rfl trivial fun values _ => ?_
  refine .eat_bind (by simp) (fun _ => .andThen ok.expression fun value _ => .again ?_ trivial) (.done rfl trivial)
  simp [add_comm]

theorem carries_mappingPair (ok : rules.Carry) : Carries K 0 (mappingPair rules) .node := by
  unfold mappingPair
  refine .andThen ok.expression fun key _ => .eat_bind (by simp) (fun _ => ?_) (.build ⟨rfl, rfl⟩ ?_)
  · refine .andThen ok.expression fun first _ => ?_
    have hmore : Carries Anywhere first.comments (moreValues rules [first]) ⟨commentsAll, fun _ => True⟩ := by
      simpa using carries_moreValues (K := Anywhere) ok [first]
    refine hmore.onto _ fun values _ => .build ⟨rfl, rfl⟩ ?_
    simp [Shape.comments, Shape.opening, Shape.parts]
  · simp [Shape.comments, Shape.opening, Shape.parts]

theorem carries_mapping (ok : rules.Carry) : Carries K 0 (mapping rules) .node := by
  unfold mapping
  refine .expect_bind (by simp) fun _ => .andThen (carries_delimited (by simp) (carries_mappingPair ok)) fun x _ => ?_
  exact .build ⟨rfl, rfl⟩ (by simp [Shape.comments, Shape.opening, Shape.parts])

/-- a token by itself carries nothing -/
theorem comments_leaf {shape : Shape Node} (hform : shape.isComment = false) (h : shape.comments = 0) :
    (leaf t shape).comments = 0 := by
  rw [leaf, Node.comments_mk hform, h]
  rfl

theorem carries_index (ok : rules.Carry) (object : Node) : Carries K object.comments (index rules object) .node := by
  unfold index
  refine .expect_bind (by simp) fun _ => .andThen (C := ⟨commentsAll, fun _ => True⟩)
    (.loop ⟨commentsAll, fun _ => True⟩ rfl trivial fun parts _ => ?_) fun parts _ => ?_
  · refine .peek_bind fun t => .ite (fun _ => .done rfl trivial) fun _ => ?_
    cases hmark : indexMark? t.kind with
    | some mark =>
      refine .take_bind ?_ fun _ => .again ?_ trivial
      · intro ht
        rw [ht] at hmark
        cases hmark
      · have hleaf : (leaf t (.indexMark mark)).comments = 0 := comments_leaf rfl rfl
        simp [hleaf]
    | none =>
      refine .andThen ok.expression fun part _ => .again ?_ trivial
      simp [add_comm]
  · refine .expect_bind (by simp) fun _ => ?_
    refine .onto object.comments (C := .node) (.build ⟨rfl, rfl⟩ ?_) fun indexor _ => .build ⟨rfl, rfl⟩ ?_
    · simp [Shape.comments, Shape.opening, Shape.parts]
    · simp [Shape.comments, Shape.opening, Shape.parts]

theorem carries_closureItem (ok : rules.Carry) (kind : Kind) : Carries K 0 (closureItem rules kind) .node := by
  unfold closureItem
  refine .ite (fun _ => ok.statement .block) fun _ => .andThen ok.expression fun node hnode => ?_
  exact .eat_bind (by simp) (fun _ => .pure (by simp) hnode) (.pure (by simp) hnode)

theorem carries_inlineClosure (ok : rules.Carry) : Carries K 0 (inlineClosure rules) .node := by
  unfold inlineClosure
  refine .expect_bind (by simp) fun _ => ?_
  refine .andThen (C := .nodes) (.loop .nodes rfl (List.forall_mem_nil _) fun items hitems => ?_) fun items _ => ?_
  · refine .raw_bind fun t => ?_
    have hcomment (ht : t.kind.isComment = true) :
        Carries (ComesRaw t) (commentsAll items) (do return .inl (← listComment items)) (Load.nodes.or .nodes) :=
      .bind (carries_listComment ht hitems) fun _ h => .again rfl h
    split
    · next ht => exact hcomment (by rw [ht]; rfl)
    · next ht => exact hcomment (by rw [ht]; rfl)
    · next ht => exact .takeBlank_bind ht fun _ => .again rfl hitems
    · exact .done rfl hitems
    · next ht =>
      refine Carries.nextRaw ?_ (by rw [ht]; rfl)
      exact .take_bind (by simp [ht]) fun _ => .again rfl hitems
    · refine .andThen (carries_closureItem ok _) fun item hitem => ?_
      exact carries_addItem_bind (L := Anywhere) (fun _ _ => trivial) hitems hitem fun items hitems => .again rfl hitems
  · exact .expect_bind (by simp) fun _ => .build ⟨rfl, rfl⟩ (by simp [Shape.comments, Shape.opening, Shape.parts])

theorem carries_lambda (ok : rules.Carry) : Carries K 0 (lambda rules) .node := by
  unfold lambda
  refine .expect_bind (by simp) fun _ => .andThen ok.expression fun args _ => .expect_bind (by simp) fun _ => ?_
  refine .andThen ok.expression fun code _ => .expect_bind (by simp) fun _ => .build ⟨rfl, rfl⟩ ?_
  simp [Shape.comments, Shape.opening, Shape.parts]

/-! ## Expressions -/

theorem carries_atName_bind {f : Bool → Parser β}
    (h : ∀ t, Carries (Comes t) given (f (t.kind = .name || t.kind = .typeWord && Words.isTypeAllowedAsName t.text)) D) :
    Carries K given (atName >>= f) D := by
  rw [atName, bind_assoc]
  simp only [pure_bind]
  exact .peek_bind h

theorem carries_name : Carries K 0 name .node := by
  unfold name
  refine carries_atName_bind fun t => .ite (fun ht => ?_) fun _ => .wanted
  refine .take_bind ?_ fun token => .pure (comments_leaf rfl rfl) rfl
  rintro hkind
  simp [hkind] at ht

theorem carries_primary (ok : rules.Carry) : Carries K 0 (primary rules) .node := by
  unfold primary
  refine .peek_bind fun t => ?_
  extract_lets whole
  have hwhole {shape : Shape Node} (ht : t.kind ≠ .directive) (hform : shape.isComment = false ∧ shape.isBlankLine = false)
      (h : shape.comments = 0) : Carries (Comes t) 0 (whole shape) .node :=
    .take_bind ht fun _ => .pure (comments_leaf hform.1 h) hform.2
  split
  · next ht => exact hwhole (by simp [ht]) ⟨rfl, rfl⟩ rfl
  · next ht => exact hwhole (by simp [ht]) ⟨rfl, rfl⟩ rfl
  · next ht => exact hwhole (by simp [ht]) ⟨rfl, rfl⟩ rfl
  · next ht => exact hwhole (by simp [ht]) ⟨rfl, rfl⟩ rfl
  · exact carries_name
  · exact .ite (fun _ => carries_name) fun _ => .wanted
  · next ht => exact hwhole (by simp [ht]) ⟨rfl, rfl⟩ rfl
  · next ht => exact hwhole (by simp [ht]) ⟨rfl, rfl⟩ rfl
  · next ht => exact hwhole (by simp [ht]) ⟨rfl, rfl⟩ rfl
  · next ht =>
    refine .take_bind (by simp [ht]) fun _ => .andThen carries_name fun member _ => .build ⟨rfl, rfl⟩ ?_
    simp [Shape.comments, Shape.opening, Shape.parts]
  · exact carries_textBlock
  · exact carries_paren ok
  · exact carries_array ok
  · exact carries_mapping ok
  · exact carries_inlineClosure ok
  · exact carries_lambda ok
  · exact .wanted

theorem carries_call (ok : rules.Carry) (callee : Node) : Carries K callee.comments (call rules callee) .node := by
  unfold call
  refine .expect_bind (by simp) fun _ => .andThen (carries_delimited (by simp) ok.argument) fun x _ => ?_
  exact .build ⟨rfl, rfl⟩ (by simp [Shape.comments, Shape.opening, Shape.parts])

theorem carries_member (ok : rules.Carry) (object : Node) (ht : t.kind ≠ .directive) :
    Carries (Comes t) object.comments (member rules object) .node := by
  unfold member
  refine .take_bind ht fun _ => ?_
  extract_lets dot join
  have hjoin (property : Node) : Carries Anywhere (object.comments + property.comments) (join property) .node :=
    .build ⟨rfl, rfl⟩ (by simp [Shape.comments, Shape.opening, Shape.parts])
  refine .at_bind fun t => .ite (fun _ => .andThen (carries_paren ok) fun property _ => hjoin property) fun _ => ?_
  refine .andThen carries_name fun property _ => .at_bind fun t => .ite (fun _ => ?_) fun _ => (hjoin property).anywhere
  exact .onto object.comments (carries_call ok property) fun property _ => hjoin property

theorem carries_trailers (ok : rules.Carry) {operand : Node} (h : operand.shape.isBlankLine = false) :
    Carries K operand.comments (trailers rules operand) .node := by
  refine .loop .node rfl h fun left hleft => .peek_bind fun t => ?_
  split
  · exact .ite (fun _ => .bind (carries_call ok left) fun _ h => .again rfl h) fun _ => .done rfl hleft
  · exact .bind (carries_index ok left) fun _ h => .again rfl h
  · next ht => exact .bind (carries_member ok left (by simp [ht])) fun _ h => .again rfl h
  · next ht => exact .bind (carries_member ok left (by simp [ht])) fun _ h => .again rfl h
  · next ht =>
    refine .ite (fun _ => .take_bind (by simp [ht]) fun _ => .andThen carries_name fun member _ => ?_) fun _ =>
      .done rfl hleft
    refine .bind (C := .node) (.build ⟨rfl, rfl⟩ ?_) fun _ h => .again rfl h
    simp [Shape.comments, Shape.opening, Shape.parts]
  · next ht =>
    refine .ite (fun _ => .take_bind (by simp [ht]) fun _ => ?_) fun _ => .done rfl hleft
    refine .bind (C := .node) (.build ⟨rfl, rfl⟩ ?_) fun _ h => .again rfl h
    simp [Shape.comments, Shape.opening, Shape.parts]
  · next ht =>
    refine .take_bind (by simp [ht]) fun _ => .bind (C := .node) (.build ⟨rfl, rfl⟩ ?_) fun _ h => .again rfl h
    simp [Shape.comments, Shape.opening, Shape.parts]
  · exact .done rfl hleft

theorem carries_joined (ok : rules.Carry) {operand : Node} (h : operand.shape.isBlankLine = false) :
    Carries K operand.comments (joined rules operand) .node := by
  refine .loop .node rfl h fun left hleft => .peekKind_bind fun t => .ite (fun _ => ?_) fun _ => .done rfl hleft
  refine .andThen (carries_primary ok) fun operand hoperand => ?_
  refine .onto left.comments (carries_trailers ok hoperand) fun right _ => ?_
  refine .bind (C := .node) (.build ⟨rfl, rfl⟩ ?_) fun _ h => .again rfl h
  simp [Shape.comments, Shape.opening, Shape.parts]

theorem carries_operand (ok : rules.Carry) : Carries K 0 (operand rules) .node := by
  unfold operand
  refine .peek_bind fun t => .ite (fun ht => ?_) fun _ => .ite (fun ht => ?_) fun _ => ?_
  · refine .take_bind (by simp [ht]) fun _ => .andThen ok.operand fun argument _ => .build ⟨rfl, rfl⟩ ?_
    simp [Shape.comments, Shape.opening, Shape.parts]
  · refine .take_bind ?_ fun _ => .andThen ok.operand fun argument _ => .build ⟨rfl, rfl⟩ ?_
    · intro hkind
      simp [isPrefixOperator, hkind] at ht
    · simp [Shape.comments, Shape.opening, Shape.parts]
  · exact .bind (carries_primary ok) fun operand h => carries_trailers ok h

theorem carries_tighter (ok : rules.Carry) (rank : Nat) {right : Node} (h : right.shape.isBlankLine = false) :
    Carries K right.comments (tighter rules rank right) .node := by
  refine .loop .node rfl h fun right hright => .peek_bind fun t => ?_
  cases rank? t with
  | none => exact .done rfl hright
  | some next => exact .ite (fun _ => .bind (ok.climb hright _) fun _ h => .again rfl h) fun _ => .done rfl hright

theorem carries_climb (ok : rules.Carry) {left : Node} (h : left.shape.isBlankLine = false) (min : Nat) :
    Carries K left.comments (climb rules left min) .node := by
  refine .loop .node rfl h fun left hleft => .peek_bind fun t => ?_
  cases hrank : rank? t with
  | none => exact .done rfl hleft
  | some rank =>
    refine .ite (fun _ => .take_bind (ne_directive_of_rank hrank) fun op => ?_) fun _ => .done rfl hleft
    refine .andThen ok.operand fun operand hoperand => ?_
    refine .onto left.comments (carries_joined ok hoperand) fun right hright => ?_
    refine .onto left.comments (carries_tighter ok rank hright) fun right _ => ?_
    refine .bind (C := .node) (.build ?_ ?_) fun _ h => .again rfl h
    · split <;> exact ⟨rfl, rfl⟩
    · split <;> simp [Shape.comments, Shape.opening, Shape.parts]

theorem carries_ternary (ok : rules.Carry) {test : Node} (h : test.shape.isBlankLine = false) :
    Carries K test.comments (ternary rules test) .node := by
  refine .eat_bind (by simp) (fun _ => ?_) (.pure rfl h)
  refine .andThen ok.expression fun consequent _ => .expect_bind (by simp) fun _ => ?_
  refine .andThen ok.expression fun alternate _ => .build ⟨rfl, rfl⟩ ?_
  simp [Shape.comments, Shape.opening, Shape.parts, add_assoc]

theorem carries_assignment (ok : rules.Carry) {left : Node} (h : left.shape.isBlankLine = false) :
    Carries K left.comments (assignment rules left) .node := by
  refine .peek_bind fun t => .ite (fun ht => ?_) fun _ => .pure rfl h
  refine .take_bind ?_ fun op => .andThen ok.expression fun right _ => .build ⟨rfl, rfl⟩ ?_
  · intro hkind
    simp [hkind] at ht
  · simp [Shape.comments, Shape.opening, Shape.parts]

theorem carries_afterOperand (ok : rules.Carry) {left : Node} (h : left.shape.isBlankLine = false) :
    Carries K left.comments (afterOperand rules left) .node :=
  .bind (carries_joined ok h) fun _ h => .bind (carries_climb ok h 0) fun _ h =>
    .bind (carries_ternary ok h) fun _ h => carries_assignment ok h

theorem carries_expression (ok : rules.Carry) : Carries K 0 (expression rules) .node :=
  .bind (carries_operand ok) fun _ h => carries_afterOperand ok h

theorem carries_expressionFrom (ok : rules.Carry) {left : Node} (h : left.shape.isBlankLine = false) :
    Carries K left.comments (expressionFrom rules left) .node :=
  .bind (carries_trailers ok h) fun _ h => carries_afterOperand ok h

/-! ## Declarations -/

theorem carries_modifiers : Carries K 0 modifiers .nothing := by
  unfold modifiers
  refine .skip (.loop .nothing rfl trivial fun found _ => ?_) fun _ => .pure rfl trivial
  exact .eat_bind (by simp) (fun _ => .again rfl trivial) (.done rfl trivial)

theorem carries_eatAmpersand : Carries K 0 eatAmpersand? .nothing := by
  unfold eatAmpersand? atAmpersand
  refine .atText_bind fun t => .ite (fun ht => .take_bind ?_ fun _ => .pure rfl trivial) fun _ => .pure rfl trivial
  intro hkind
  simp [hkind] at ht

theorem carries_atDeclarator : Carries K 0 atDeclarator .nothing := by
  unfold atDeclarator atAmpersand
  refine carries_atName_bind fun t => .ite (fun _ => .pure rfl trivial) fun _ => .peekKind_bind fun t => ?_
  refine .ite (fun _ => .pure rfl trivial) fun _ => ?_
  rw [← bind_pure (atText? .arithOp "&")]
  exact .atText_bind fun t => .pure rfl trivial

theorem carries_lexemeBetween (first last : Token) : Carries K 0 (lexemeBetween first last) .nothing := by
  unfold lexemeBetween
  refine .spanning_bind fun span => ?_
  rw [← bind_pure (lexeme span)]
  exact .lexeme_bind fun _ => .pure rfl trivial

theorem carries_typeFrom (first : Token) : Carries K 0 (typeFrom first) .nothing :=
  .ite (fun _ => .expect_bind (by simp) fun _ => carries_lexemeBetween _ _) fun _ => .pure rfl trivial

theorem carries_isTypeUsedAsName (modifiers : List Lexeme) (token : Token) :
    Carries K 0 (isTypeUsedAsName modifiers token) .nothing :=
  .ite (fun _ => .skip carries_atDeclarator fun _ => .pure rfl trivial) fun _ => .pure rfl trivial

theorem carries_declaratorRest (ok : rules.Carry) (head : DeclaratorHead) (allowDefault : Bool) :
    Carries K (comments? head.name) (declaratorRest rules head allowDefault) .node := by
  unfold declaratorRest
  have heat {β : Type} {K : Reading → Prop} {given : Multiset Comment} {f : Option Token → Parser β} {D : Load β}
      (h : ∀ e, Carries Anywhere given (f e) D) : Carries K given (eat? .ellipsis >>= f) D :=
    .eat_bind (by simp) (fun _ => h _) (h _)
  refine heat fun ellipsis => ?_
  extract_lets stop shape rest
  have hvalue {t : Token} (ht : t.kind ≠ .directive) : Carries (Comes t) (comments? head.name) (rest true) .node := by
    refine .take_bind ht fun mark => .andThen ok.expression fun value _ => .build ⟨rfl, rfl⟩ ?_
    simp [shape, Shape.comments, Shape.opening, Shape.parts]
  have hnone {K : Reading → Prop} : Carries K (comments? head.name) (rest false) .node :=
    .build ⟨rfl, rfl⟩ (by simp [shape, Shape.comments, Shape.opening, Shape.parts])
  refine .atText_bind fun t => .ite (fun ht => ?_) fun _ => .ite (fun _ => .at_bind fun t => ?_) fun _ => ?_
  · rw [pure_bind]
    refine hvalue fun hkind => ?_
    simp [hkind] at ht
  · cases hcolon : decide (t.kind = .colon) with
    | true => exact hvalue (by simp [of_decide_eq_true hcolon])
    | false => exact hnone
  · rw [pure_bind]
    exact hnone

theorem carries_declarator (ok : rules.Carry) (allowDefault : Bool) : Carries K 0 (declarator rules allowDefault) .node := by
  unfold declarator
  have heat {β : Type} {K : Reading → Prop} {given : Multiset Comment} {f : Option Token → Parser β} {D : Load β}
      (h : ∀ e, Carries Anywhere given (f e) D) : Carries K given (eat? .star >>= f) D :=
    .eat_bind (by simp) (fun _ => h _) (h _)
  refine .peek_bind fun token => heat fun star => .skip carries_eatAmpersand fun ampersand => ?_
  extract_lets stop head rest
  refine carries_atName_bind fun t => .ite (fun _ => .andThen carries_name fun name _ => ?_) fun _ => .at_bind fun t => ?_
  · simpa [head] using carries_declaratorRest (K := Anywhere) ok (head name.stop (some name)) allowDefault
  · have hrest {K : Reading → Prop} : Carries K 0 (rest ()) .node :=
      carries_declaratorRest ok (head stop none) allowDefault
    exact .ite (fun _ => .wanted_bind) fun _ => hrest

theorem carries_statementEnd : Carries K 0 statementEnd .nothing := by
  unfold statementEnd
  refine .peekKind_bind fun t => ?_
  split
  · next ht => exact .take_bind (by simp [ht]) fun _ => .pure rfl trivial
  · next ht => exact .take_bind (by simp [ht]) fun _ => .pure rfl trivial
  · exact .pure rfl trivial
  · exact .pure rfl trivial
  · exact .wanted

theorem carries_moreDeclarators (ok : rules.Carry) (comments : Bool) {first : Node}
    (h : first.shape.isBlankLine = false) :
    Carries K first.comments (moreDeclarators rules comments first) .declarators := by
  refine .loop .declarators (add_zero _) h ?_
  rintro ⟨last, before⟩ hlast
  refine .eat_bind (by simp) (fun _ => ?_) (.done rfl hlast)
  have hnext (last : Node) : Carries Anywhere (commentsAll (last :: before))
      (do return .inl (← declarator rules false, last :: before)) (Load.declarators.or .declarators) := by
    refine .andThen (carries_declarator ok false) fun next hnext => .again ?_ hnext
    simp [add_comm]
  refine .ite (fun _ => ?_) fun _ => ?_
  · rw [Load.amount_declarators, add_comm]
    refine .onto _ (.trailingComment hlast) fun last _ => ?_
    rw [add_comm]
    exact hnext last
  · rw [pure_bind]
    exact hnext last

theorem carries_localDeclaration (ok : rules.Carry) : Carries K 0 (localDeclaration rules) .node := by
  unfold localDeclaration
  refine .peek_bind fun start => .skip carries_modifiers fun modifiers => .expect_bind (by simp) fun first => ?_
  refine .skip (carries_typeFrom first) fun typeName => .bind (carries_declarator ok false) fun first hfirst => ?_
  refine .bind (carries_moreDeclarators ok false hfirst) fun x _ => .build ⟨rfl, rfl⟩ ?_
  simp [Shape.comments, Shape.opening, Shape.parts, add_comm]

theorem carries_parameter (ok : rules.Carry) : Carries K 0 (parameter rules) .node := by
  unfold parameter
  refine .peek_bind fun start => .skip carries_modifiers fun modifiers => .expect_bind (by simp) fun first => ?_
  refine .skip (carries_isTypeUsedAsName modifiers first) fun isName => .ite (fun _ => ?_) fun _ => ?_
  · have hleaf : (leaf first (.identifier first.text)).comments = 0 := comments_leaf rfl rfl
    rw [← hleaf]
    exact carries_expressionFrom ok rfl
  · refine .skip (carries_typeFrom first) fun typeName => .skip carries_atDeclarator fun isDeclarator => ?_
    refine .ite (fun _ => ?_) fun _ => .build ⟨rfl, rfl⟩ rfl
    refine .andThen (carries_declarator ok true) fun declarator _ => .build ⟨rfl, rfl⟩ ?_
    simp [Shape.comments, Shape.opening, Shape.parts]

theorem carries_argument (ok : rules.Carry) : Carries K 0 (argument rules) .node := by
  unfold argument
  refine .peekKind_bind fun t => ?_
  split
  · exact carries_parameter ok
  · exact carries_parameter ok
  · exact carries_expression ok

/-! ## Blocks and functions -/

/-- a block takes in the comment that stands before it -/
theorem carries_block (ok : rules.Carry) (openComment : Option Comment) :
    Carries K ↑openComment.toList (block rules openComment) .node := by
  unfold block
  refine .expect_bind (by simp) fun start => .get_bind fun r _ _ => ?_
  extract_lets rest
  have hrest {K : Reading → Prop} (c : Option Comment) : Carries K ↑c.toList (rest c) .node := by
    refine .andThen (carries_statementList ok _ _) fun statements _ => .expect_bind (by simp) fun close => ?_
    exact .build ⟨rfl, rfl⟩ (by simp [Shape.comments, Shape.opening, Shape.parts])
  refine .ite (fun h => ?_) fun _ => ?_
  · simp only [Bool.and_eq_true, Option.isNone_iff_eq_none] at h
    obtain ⟨⟨rfl, hcomment⟩, -⟩ := h
    simp only [map_eq_pure_bind, bind_assoc, pure_bind]
    refine (Carries.takeComment_bind hcomment fun c => ?_).weaken fun s _ hs => by rw [ComesRaw, hs]
    exact hrest (some c)
  · rw [pure_bind]
    exact hrest openComment

/-- the first of some comments and the others -/
theorem coe_head_tail (cs : List Comment) : (↑cs : Multiset Comment) = ↑cs.head?.toList + ↑cs.tail := by
  cases cs with
  | nil => rfl
  | cons c cs => rw [← Multiset.cons_coe, ← Multiset.singleton_add]; rfl

theorem carries_functionBody (ok : rules.Carry) : Carries K 0 (functionBody rules) .node := by
  unfold functionBody
  refine .at_bind fun t => .ite (fun _ => .wanted_bind) fun _ => ?_
  refine .takePending_bind (L := Anywhere) (fun _ _ => trivial) fun cs => ?_
  rw [zero_add, coe_head_tail]
  refine .onto _ (.parkAll cs.tail) fun _ _ => ?_
  simpa using carries_block (K := Anywhere) ok cs.head?

theorem carries_function (ok : rules.Carry) (scope : Scope) (head : DeclarationHead) (name : Node) :
    Carries K name.comments (function rules scope head name) .node := by
  unfold function
  refine .expect_bind (by simp) fun _ => .andThen (carries_delimited (by simp) ok.argument) ?_
  rintro ⟨params, close⟩ -
  dsimp -zeta only
  extract_lets shape
  refine .eat_bind (by simp) (fun _ => .build ⟨rfl, rfl⟩ ?_) ?_
  · simp [shape, Shape.comments, Shape.opening, Shape.parts]
  · refine .ite (fun _ => .refuse_bind) fun _ => .andThen (carries_functionBody ok) fun body _ => .build ⟨rfl, rfl⟩ ?_
    simp [shape, Shape.comments, Shape.opening, Shape.parts, add_assoc]

theorem carries_structDefinition (ok : rules.Carry) (start : Nat) (name : Token) :
    Carries K 0 (structDefinition rules start name) .node := by
  unfold structDefinition
  refine .expect_bind (by simp) fun _ => .andThen (carries_statementList ok _ _) fun members _ => ?_
  refine .expect_bind (by simp) fun close => ?_
  have hbuild : Carries Anywhere (0 + Load.nodes.amount members)
      (build start close.span.stop (.structDef (leaf name (.identifier name.text)) members)) .node := by
    have hleaf : (leaf name (.identifier name.text)).comments = 0 := comments_leaf rfl rfl
    exact .build ⟨rfl, rfl⟩ (by simp [Shape.comments, Shape.opening, Shape.parts, hleaf])
  exact .eat_bind (by simp) (fun _ => hbuild) hbuild

theorem carries_inherit (ok : rules.Carry) (modifiers : List Lexeme) (start : Nat) :
    Carries K 0 (inherit rules modifiers start) .node := by
  unfold inherit
  refine .expect_bind (by simp) fun _ => .andThen ok.expression fun argument _ => .expect_bind (by simp) fun _ => ?_
  exact .build ⟨rfl, rfl⟩ (by simp [Shape.comments, Shape.opening, Shape.parts])

theorem carries_declared (ok : rules.Carry) (scope : Scope) (start : Nat) (modifiers : List Lexeme)
    (typeName : Option Lexeme) : Carries K 0 (declared rules scope start modifiers typeName) .node := by
  unfold declared
  have heat {β : Type} {K : Reading → Prop} {given : Multiset Comment} {f : Option Token → Parser β} {D : Load β}
      (h : ∀ e, Carries Anywhere given (f e) D) : Carries K given (eat? .star >>= f) D :=
    .eat_bind (by simp) (fun _ => h _) (h _)
  refine .peek_bind fun token => heat fun star => .skip carries_eatAmpersand fun ampersand => ?_
  refine .andThen carries_name fun name hname => .at_bind fun t => .ite (fun _ => ?_) fun _ => ?_
  · simpa using carries_function (K := Comes t) ok scope ⟨start, modifiers, typeName, star.isSome⟩ name
  · have hrest := carries_declaratorRest (K := Comes t) ok
      ⟨token.span.start, name.stop, some name, star.isSome, ampersand.isSome⟩ false
    have hgiven : (0 + Load.node.amount name : Multiset Comment) = comments? (some name) := by simp
    rw [hgiven]
    refine .bind hrest fun first hfirst => .bind (carries_moreDeclarators ok true hfirst) fun x _ => ?_
    refine .skip carries_statementEnd fun _ => .build ⟨rfl, rfl⟩ ?_
    simp [Shape.comments, Shape.opening, Shape.parts, add_comm]

theorem carries_declaration (ok : rules.Carry) (scope : Scope) : Carries K 0 (declaration rules scope) .node := by
  unfold declaration
  refine .peek_bind fun start => .skip carries_modifiers fun modifiers => .peekKind_bind fun t => ?_
  split
  · exact carries_inherit ok _ _
  · next ht =>
    refine .take_bind (by simp [ht]) fun first => .skip (carries_isTypeUsedAsName _ _) fun isName => ?_
    refine .ite (fun _ => ?_) fun _ => .ite (fun _ => .expect_bind (by simp) fun name => ?_) fun _ => ?_
    · have hleaf : (leaf first (.identifier first.text)).comments = 0 := comments_leaf rfl rfl
      rw [← hleaf]
      refine .bind (carries_expressionFrom ok rfl) fun node hnode => ?_
      exact .skip carries_statementEnd fun _ => .pure rfl hnode
    · refine .at_bind fun t => .ite (fun _ => ?_) fun _ => ?_
      · cases modifiers with
        | nil => exact carries_structDefinition ok _ _
        | cons modifier modifiers => exact .refuse
      · exact .skip (carries_lexemeBetween _ _) fun _ => carries_declared ok _ _ _ _
    · exact carries_declared ok _ _ _ _
  · exact .ite (fun _ => .wanted) fun _ => carries_declared ok _ _ _ _

/-! ## Statements -/

theorem carries_headComments : Carries K 0 headComments .comments := by
  unfold headComments
  refine .andThen (C := .comments) (.loop .comments rfl trivial fun cs _ => ?_) fun cs _ => ?_
  · refine .raw_bind fun t => .ite (fun ht => ?_) fun _ => .done rfl trivial
    refine .takeComment_bind ht fun c => .again ?_ trivial
    change (↑(c :: cs) : Multiset Comment) = ↑cs + {c}
    rw [← Multiset.cons_coe, ← Multiset.singleton_add, add_comm]
  · rw [zero_add]
    exact .pure (Multiset.coe_reverse cs) trivial

theorem carries_placeholder : Carries K 0 placeholder .node := by
  unfold placeholder
  exact .expect_bind (by simp) fun semicolon => .pure (comments_leaf rfl rfl) rfl

theorem carries_body (ok : rules.Carry) : Carries K 0 (body rules) .node := by
  unfold body
  refine .bind carries_headComments fun cs _ => ?_
  change Carries Anywhere ↑cs _ _
  rw [coe_head_tail]
  refine .onto _ (.parkAll cs.tail) fun _ _ => ?_
  rw [Load.amount_nothing, add_zero]
  refine .at_bind fun t => .ite (fun _ => carries_block ok _) fun _ => ?_
  have hpark : Carries (Comes t) ↑cs.head?.toList (cs.head?.forM park) .nothing := by
    cases cs.head? with
    | none => exact .pure rfl trivial
    | some c => exact .park
  refine .bind hpark fun _ _ => .at_bind fun t => ?_
  exact .ite (fun _ => carries_placeholder) fun _ => ok.statement .block

theorem carries_condition (ok : rules.Carry) : Carries K 0 (condition rules) .node := by
  unfold condition
  refine .expect_bind (by simp) fun _ => .andThen ok.expression fun test h => .expect_bind (by simp) fun _ => ?_
  exact .pure (by simp) h

theorem carries_ifElse (ok : rules.Carry) (ht : t.kind ≠ .directive) : Carries (Comes t) 0 (ifElse rules) .node := by
  unfold ifElse
  refine .take_bind ht fun keyword => .expect_bind (by simp) fun _ => .andThen ok.expression fun test _ => ?_
  extract_lets closes
  have hcloses {K : Reading → Prop} : Carries K test.comments (closes ()) .node := by
    refine .expect_bind (by simp) fun _ => .andThen (carries_body ok) fun consequent h => ?_
    refine .onto test.comments (.trailingComment h) fun consequent _ => .skip .holdBlank fun _ => ?_
    refine .get_bind fun r _ _ => .ite (fun helse => ?_) fun _ => .build ⟨rfl, rfl⟩ ?_
    · refine .dropHeld_bind (by rw [helse]; rfl) (.take_bind (by simp [helse]) fun _ => ?_)
      extract_lets ends
      have hends (alternate : Node) : Carries Anywhere (test.comments + consequent.comments + alternate.comments)
          (ends alternate) .node :=
        .build ⟨rfl, rfl⟩ (by simp [Shape.comments, Shape.opening, Shape.parts, add_assoc])
      refine .at_bind fun t => .ite (fun _ => ?_) fun _ => ?_
      · exact .andThen (ok.statement .block) fun alternate _ => hends alternate
      · exact .andThen (carries_body ok) fun alternate _ => hends alternate
    · simp [Shape.comments, Shape.opening, Shape.parts]
  rw [zero_add]
  exact .at_bind fun t => .ite (fun _ => .peek_bind fun _ => .refuse_bind) fun _ => hcloses

theorem carries_whileLoop (ok : rules.Carry) (ht : t.kind ≠ .directive) : Carries (Comes t) 0 (whileLoop rules) .node := by
  unfold whileLoop
  refine .take_bind ht fun keyword => .andThen (carries_condition ok) fun test _ => ?_
  refine .andThen (carries_body ok) fun body _ => .build ⟨rfl, rfl⟩ ?_
  simp [Shape.comments, Shape.opening, Shape.parts]

theorem carries_doWhile (ok : rules.Carry) (ht : t.kind ≠ .directive) : Carries (Comes t) 0 (doWhile rules) .node := by
  unfold doWhile
  refine .take_bind ht fun keyword => .andThen (carries_body ok) fun body _ => .expect_bind (by simp) fun _ => ?_
  refine .andThen (carries_condition ok) fun test _ => .expect_bind (by simp) fun _ => .build ⟨rfl, rfl⟩ ?_
  simp [Shape.comments, Shape.opening, Shape.parts]

theorem carries_commaList (ok : rules.Carry) : Carries K 0 (commaList rules) .node := by
  unfold commaList
  refine .andThen ok.expression fun first hfirst => ?_
  -- the oldest of the items is the first one
  refine .bind (C := ⟨commentsAll, fun items => items.getLast? = some first⟩)
    (.loop ⟨commentsAll, fun items => items.getLast? = some first⟩ (by simp) rfl fun items hitems => ?_) fun items hitems => ?_
  · refine .eat_bind (by simp) (fun _ => .andThen ok.expression fun item _ => .again ?_ ?_) (.done rfl hitems)
    · simp [add_comm]
    · have hitems : items.getLast? = some first := hitems
      change (item :: items).getLast? = some first
      rw [List.getLast?_cons, hitems]
      rfl
  · change Carries Anywhere (commentsAll items) _ _
    have hitems : items.getLast? = some first := hitems
    split
    · simp at hitems
    · obtain rfl := Option.some.inj hitems
      exact .pure (by simp) hfirst
    · exact .build ⟨rfl, rfl⟩ (by simp [Shape.comments, Shape.opening, Shape.parts, add_comm])

/-- a part that is there -/
theorem carries_given {p : Parser Node} (h : Carries K 0 p .node) : Carries K 0 (some <$> p) .node? := by
  rw [map_eq_pure_bind]
  exact .andThen h fun n _ => .pure (by simp) trivial

theorem carries_forLoop (ok : rules.Carry) (ht : t.kind ≠ .directive) : Carries (Comes t) 0 (forLoop rules) .node := by
  unfold forLoop
  refine .take_bind ht fun keyword => .expect_bind (by simp) fun _ => .peekKind_bind fun t => ?_
  have hnone {K : Reading → Prop} : Carries K 0 (pure none) Load.node? := .pure rfl trivial
  extract_lets afterInit
  have hinit (init : Option Node) : Carries Anywhere (0 + Load.node?.amount init) (afterInit init) .node := by
    refine .expect_bind (by simp) fun _ => .at_bind fun t => ?_
    extract_lets afterTest
    have htest (test : Option Node) :
        Carries Anywhere (0 + Load.node?.amount init + Load.node?.amount test) (afterTest test) .node := by
      refine .expect_bind (by simp) fun _ => .at_bind fun t => ?_
      extract_lets afterUpdate
      have hupdate (update : Option Node) : Carries Anywhere
          (0 + Load.node?.amount init + Load.node?.amount test + Load.node?.amount update) (afterUpdate update) .node := by
        refine .expect_bind (by simp) fun _ => .andThen (carries_body ok) fun body _ => .build ⟨rfl, rfl⟩ ?_
        simp [Shape.comments, Shape.opening, Shape.parts, add_assoc]
      refine .ite (fun _ => .andThen hnone fun x _ => hupdate x) fun _ => ?_
      exact .andThen (carries_given (carries_commaList ok)) fun x _ => hupdate x
    refine .ite (fun _ => .andThen hnone fun x _ => htest x) fun _ => ?_
    exact .andThen (carries_given ok.expression) fun x _ => htest x
  split
  · exact .andThen hnone fun x _ => hinit x
  · exact .andThen (carries_given (carries_localDeclaration ok)) fun x _ => hinit x
  · exact .andThen (carries_given (carries_localDeclaration ok)) fun x _ => hinit x
  · exact .andThen (carries_given (carries_commaList ok)) fun x _ => hinit x

theorem carries_maybeRange (ok : rules.Carry) : Carries K 0 (maybeRange rules) .node := by
  unfold maybeRange
  refine .andThen ok.expression fun first hfirst => .eat_bind (by simp) (fun _ => ?_) (.pure (by simp) hfirst)
  refine .andThen ok.expression fun last _ => .build ⟨rfl, rfl⟩ ?_
  simp [Shape.comments, Shape.opening, Shape.parts]

theorem carries_foreachLoop (ok : rules.Carry) (ht : t.kind ≠ .directive) :
    Carries (Comes t) 0 (foreachLoop rules) .node := by
  unfold foreachLoop
  refine .take_bind ht fun keyword => .expect_bind (by simp) fun _ => ?_
  refine .andThen (C := ⟨commentsAll, fun _ => True⟩) (.loop ⟨commentsAll, fun _ => True⟩ rfl trivial fun vars _ => ?_)
    fun vars _ => ?_
  · refine .andThen ok.argument fun var _ => .eat_bind (by simp) (fun _ => .again ?_ trivial) (.done ?_ trivial)
    · simp [add_comm]
    · simp [add_comm]
  · refine .expect_bind (by simp) fun _ => .andThen (carries_maybeRange ok) fun iterable _ => ?_
    refine .expect_bind (by simp) fun _ => .andThen (carries_body ok) fun body _ => .build ⟨rfl, rfl⟩ ?_
    simp [Shape.comments, Shape.opening, Shape.parts, add_assoc]

theorem carries_switchCase (ok : rules.Carry) (ht : t.kind ≠ .directive) :
    Carries (Comes t) 0 (switchCase rules) .node := by
  unfold switchCase
  refine .take_bind ht fun keyword => ?_
  extract_lets afterTest
  have htest (test : Option Node) : Carries Anywhere (0 + Load.node?.amount test) (afterTest test) .node := by
    refine .expect_bind (by simp) fun colon => .andThen (carries_statementList ok _ _) fun body _ => .build ⟨rfl, rfl⟩ ?_
    simp [Shape.comments, Shape.opening, Shape.parts]
  refine .ite (fun _ => ?_) fun _ => ?_
  · exact .andThen (carries_given (carries_maybeRange ok)) fun x _ => htest x
  · exact .andThen (C := .node?) (.pure rfl trivial) fun x _ => htest x

theorem carries_switch (ok : rules.Carry) (ht : t.kind ≠ .directive) : Carries (Comes t) 0 (switch rules) .node := by
  unfold switch
  refine .take_bind ht fun keyword => .andThen (carries_condition ok) fun test _ => .expect_bind (by simp) fun _ => ?_
  refine .andThen (C := ⟨commentsAll, fun _ => True⟩) (.loop ⟨commentsAll, fun _ => True⟩ rfl trivial fun cases _ => ?_)
    fun cases _ => ?_
  · refine .raw_bind fun t => ?_
    have hcomment (ht : t.kind.isComment = true) : Carries (ComesRaw t) (commentsAll cases)
        (do return .inl (.ofComment (← takeComment) :: cases) : Parser (List Node ⊕ List Node))
        (Load.or ⟨commentsAll, fun _ => True⟩ ⟨commentsAll, fun _ => True⟩) :=
      .takeComment_bind ht fun c => .again (by simp [add_comm]) trivial
    have hcase (ht : t.kind.isTrivia = false) (hdirective : t.kind ≠ .directive) : Carries (ComesRaw t) (commentsAll cases)
        (do return .inl ((← switchCase rules) :: cases) : Parser (List Node ⊕ List Node))
        (Load.or ⟨commentsAll, fun _ => True⟩ ⟨commentsAll, fun _ => True⟩) :=
      .andThen ((carries_switchCase ok hdirective).nextRaw ht) fun n _ => .again (by simp [add_comm]) trivial
    split
    · next ht => exact hcomment (by rw [ht]; rfl)
    · next ht => exact hcomment (by rw [ht]; rfl)
    · next ht => exact .takeBlank_bind ht fun _ => .again rfl trivial
    · next ht => exact hcase (by rw [ht]; rfl) (by simp [ht])
    · next ht => exact hcase (by rw [ht]; rfl) (by simp [ht])
    · exact .done rfl trivial
  · refine .expect_bind (by simp) fun close => .build ⟨rfl, rfl⟩ ?_
    simp [Shape.comments, Shape.opening, Shape.parts]

theorem carries_returnValue (ok : rules.Carry) (ht : t.kind ≠ .directive) :
    Carries (Comes t) 0 (returnValue rules) .node := by
  unfold returnValue
  refine .take_bind ht fun keyword => .peekKind_bind fun t => ?_
  extract_lets last
  have hlast (argument : Option Node) : Carries Anywhere (0 + Load.node?.amount argument) (last argument) .node := by
    have hbuild {K : Reading → Prop} (stop : Nat) : Carries K (0 + Load.node?.amount argument)
        (build keyword.span.start stop (.returnValue argument)) .node :=
      .build ⟨rfl, rfl⟩ (by simp [Shape.comments, Shape.opening, Shape.parts])
    exact .eat_bind (by simp) (fun _ => hbuild _) (.at_bind fun t => .ite (fun _ => hbuild _) fun _ => .wanted)
  refine .ite (fun _ => ?_) fun _ => ?_
  · exact .andThen (C := .node?) (.pure rfl trivial) fun x _ => hlast x
  · exact .andThen (carries_given ok.expression) fun x _ => hlast x

theorem carries_jump (ht : t.kind ≠ .directive) : Carries (Comes t) 0 jump .node :=
  .take_bind ht fun _ => .expect_bind (by simp) fun _ => .build ⟨rfl, rfl⟩ rfl

theorem carries_expressionStatement (ok : rules.Carry) (scope : Scope) :
    Carries K 0 (expressionStatement rules scope) .node := by
  unfold expressionStatement
  refine .bind (carries_expression ok) fun node hnode => ?_
  have hend {K : Reading → Prop} : Carries K node.comments (do statementEnd; return node) .node :=
    .skip carries_statementEnd fun _ => .pure rfl hnode
  rw [Load.amount_node]
  split
  · next callee args hshape =>
    have hcomments : node.comments = callee.comments + commentsAll args + ↑node.suffix.toList := by
      obtain ⟨span, shape, suffix⟩ := node
      obtain rfl : shape = .call callee args := hshape
      rw [Node.comments_mk rfl]
      simp [Shape.comments, Shape.opening, Shape.parts, Node.suffix]
    -- a function takes the place of the call, and keeps its suffix
    have hfunction (span : Span) (body : Option Node) :
        (Node.mk span (.function [] none false callee args body) node.suffix).comments =
          node.comments + comments? body := by
      rw [Node.comments_mk rfl, hcomments]
      simp [Shape.comments, Shape.opening, Shape.parts]
      abel
    refine .ite (fun _ => hend) fun _ => .at_bind fun t => .ite (fun _ => ?_) fun _ => ?_
    · refine .andThen (carries_functionBody ok) fun body _ => .spanning_bind fun span => .pure ?_ rfl
      simp [hfunction]
    · refine .skip carries_statementEnd fun _ => .ite (fun _ => .pure ?_ rfl) fun _ => .pure rfl hnode
      simp [hfunction]
  · exact hend

theorem carries_statement (ok : rules.Carry) (scope : Scope) : Carries K 0 (statement rules scope) .node := by
  unfold statement
  refine .peekKind_bind fun t => ?_
  split
  · exact carries_block ok none
  · next ht => exact carries_ifElse ok (by simp [ht])
  · next ht => exact carries_whileLoop ok (by simp [ht])
  · next ht => exact carries_doWhile ok (by simp [ht])
  · next ht => exact carries_forLoop ok (by simp [ht])
  · next ht => exact carries_foreachLoop ok (by simp [ht])
  · next ht => exact carries_switch ok (by simp [ht])
  · next ht => exact carries_returnValue ok (by simp [ht])
  · next ht => exact carries_jump (by simp [ht])
  · next ht => exact carries_jump (by simp [ht])
  · exact .peek_bind fun t => carries_inherit ok _ _
  · next ht => exact carries_directive ht
  · exact carries_declaration ok scope
  · exact carries_declaration ok scope
  · exact carries_expressionStatement ok scope

end Grammar

open Grammar

/-! ## The whole text -/

/-- **Every depth** that is allowed carries the comments it takes. -/
theorem Rules.carry_upTo (depth : Nat) : (Rules.upTo depth).Carry := by
  induction depth with
  | zero => exact ⟨.throw, .throw, fun _ _ => .throw, .throw, fun _ => .throw⟩
  | succ depth ih =>
    exact ⟨carries_expression ih, carries_operand ih, fun h => carries_climb ih h, carries_argument ih,
      carries_statement ih⟩

/-- **Nothing is parked behind a list of statements**, if nothing is parked before it. -/
theorem pending_statementList {rules : Rules} (ok : rules.Carry) {scope : Scope} {closers : List Kind} {roots : List Node} {r s : Reading}
    (hsane : r.Sane) (hpending : r.pending = []) (hrun : (statementList rules scope closers).run r = .ok (roots, s)) :
    s.pending = [] := by
  obtain ⟨items, u, hloop, hrun⟩ := Parser.of_run_bind hrun
  cases hrun
  refine Parser.of_run_loop (I := fun _ t => t.Sane ∧ t.pending = []) (Q := fun _ t => t.pending = []) hloop
    ⟨hsane, hpending⟩ ?_
  rintro items t ⟨hsane, hpending⟩ y v hround
  obtain ⟨token, t', hraw, hround⟩ := Parser.of_run_bind hround
  cases hraw
  -- a token that is dropped as it stands leaves what is parked
  have hdrop : t.dropRaw.Sane ∧ t.dropRaw.pending = [] := by
    refine ⟨hsane.dropRaw, ?_⟩
    rw [← hpending, Reading.dropRaw]
    split <;> rfl
  split at hround
  · cases hround
    exact hdrop
  · cases hround
    exact hdrop
  · cases hround
    exact hdrop
  · next hkind =>
    obtain ⟨token, t', htake, hround⟩ := Parser.of_run_bind hround
    cases hround
    obtain ⟨-, rfl⟩ := Parser.eq_of_take htake
    refine ⟨hsane.settle.dropRaw, ?_⟩
    change t.settle.pending = []
    rw [hsane.pending_settle (by rw [hkind]; rfl), hpending]
  · cases hround
    exact hpending
  · split at hround
    · cases hround
      exact hpending
    · obtain ⟨item, t', hstatement, hround⟩ := Parser.of_run_bind hround
      have hsane := (ok.statement (K := Anywhere) scope t hsane trivial item t' hstatement).1
      obtain ⟨items', u', hitem, hround⟩ := Parser.of_run_bind hround
      cases hround
      cases hitem
      exact ⟨⟨hsane.held, hsane.eof, hsane.ahead⟩, rfl⟩

theorem Reading.sane_ofText (text : List Char) : (Reading.ofText text).Sane :=
  ⟨by simp [Reading.ofText], Stream.eof_ofText text, Stream.ne_endOfFile_ofText text⟩

/-- **A file is read to its end**: its nodes carry the comments, and none of them is parked or ahead then. -/
theorem comments_sourceFile {rules : Rules} (ok : rules.Carry) {r s : Reading} {roots : List Node} (hsane : r.Sane)
    (hpending : r.pending = []) (hrun : (sourceFile rules).run r = .ok (roots, s)) :
    commentsAll roots = ↑(commentsOutside false r.ahead) ∧ s.pending = [] := by
  obtain ⟨roots, s, hlist, hrun⟩ := Parser.of_run_bind hrun
  have hend := raw_of_statementList hlist
  have hparked := pending_statementList ok hsane hpending hlist
  obtain ⟨hs, hcarries, -⟩ := carries_statementList (K := Anywhere) ok .file [] r hsane trivial roots s hlist
  have hahead := hs.ahead_eq_nil hend
  rw [Parser.run_raw_bind] at hrun
  simp only [hend, ne_eq, not_true_eq_false, if_false] at hrun
  cases hfault : s.raw.fault with
  | some fault =>
    rw [hfault] at hrun
    cases hrun
  | none =>
    rw [hfault] at hrun
    cases hrun
    refine ⟨?_, hparked⟩
    simpa [Reading.owed, hparked, hpending, hahead, commentsOutside] using hcarries

/-- the end of the file is no comment -/
theorem commentsOutside_toList (text : List Char) :
    commentsOutside false (Stream.ofText text).toList = commentsOutside false (Stream.ofText text).ahead := by
  have heof : (Stream.ofText text).eof.kind.isComment = false := by rw [Stream.eof_ofText]; rfl
  unfold Stream.toList
  split
  · rfl
  · exact commentsOutside_append heof _ _

/-- **Reading neither loses nor doubles comments.** The comments among the nodes of a document, suffixes included, are those
of the text outside preprocessor lines, each of them once; and none is parked when the text is read. -/
theorem comments_parse {text : List Char} {d : Document} (h : parse text = .ok d) :
    (d.listing.filterMap (·.label.comment?)).Perm (commentsOutside false (Stream.ofText text).toList) ∧
      ∃ r, (sourceFile (.ofText text)).run (.ofText text) = .ok (d.roots, r) ∧ r.pending = [] := by
  obtain ⟨-, r, hrun⟩ := parseWith_eq_ok_iff.1 h
  obtain ⟨hcomments, hpending⟩ := comments_sourceFile (Rules.carry_upTo _) (Reading.sane_ofText text) rfl hrun
  refine ⟨Multiset.coe_eq_coe.1 ?_, r, hrun, hpending⟩
  rw [Document.comments_listing, hcomments, commentsOutside_toList]
  rfl

/-- comments above, inside and behind code, and one in a preprocessor line -/
def commented : List Char :=
  "/* a */\n#define X 1 /* in */\nint f(int x /* p */) \x7b // open\n  return g(x, // first\n    /* y */ y); // end\n\x7d\n".toList

theorem comments_parse_commented : ∃ d, parse commented = .ok d ∧
    (commentsOutside false (Stream.ofText commented).toList).length = 6 ∧
    (d.listing.filterMap (·.label.comment?)).Perm (commentsOutside false (Stream.ofText commented).toList) := by
  have hparse : (parse commented).toOption.isSome = true := by decide +kernel
  have hcount : (commentsOutside false (Stream.ofText commented).toList).length = 6 := by decide +kernel
  cases h : parse commented with
  | error e =>
    rw [h] at hparse
    cases hparse
  | ok d => exact ⟨d, rfl, hcount, (comments_parse h).1⟩

end LpcStyle
