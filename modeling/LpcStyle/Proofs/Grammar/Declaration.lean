import Mathlib.Tactic
import LpcStyle.Proofs.Grammar.Expression
import LpcStyle.Proofs.Text.Rows

/-!
Declarations of variables, parameters, functions and structs. A type of two words and the word a struct opens with are
read from the source text itself, so these statements rest on how the tokens lie on it.
-/

namespace LpcStyle

open Text LpcStyle.Parser

variable {σ : Source} {rules : Rules} {a b : List Token} {ts us : List Token}

/-- a node that holds the tokens taken from `a` together with those in front of them -/
def Kept (σ : Source) (front a : List Token) (n : Node) (b : List Token) : Prop :=
  ∃ ts, a = ts ++ b ∧ n.Holds σ (front ++ ts)

theorem Kept.stated {front c : List Token} {n : Node} (h : Kept σ front b n c) (ha : a = front ++ b) :
    Stated σ a n c := by
  obtain ⟨ts, rfl, hn⟩ := h
  exact ⟨front ++ ts, by simp [ha], hn⟩

/-- tokens that end somewhere start with the next token -/
theorem Source.start_eq (σ : Source) {stop : Nat} (h : ts.getLast?.map (·.span.stop) = some stop) (b : List Token) :
    ts.head?.map (·.span.start) = some (σ.next (ts ++ b)).span.start := by
  cases ts with
  | nil => simp at h
  | cons t ts => rfl

/-- the source text of two tokens in a row -/
theorem Source.content_between {t u : Token} (h : t :: u :: b <:+ significant σ.tokens) :
    content (slice σ.text ⟨t.span.start, u.span.stop⟩) = t.ink ++ u.ink := by
  obtain ⟨front, hfront⟩ := h
  have htiled := σ.tiled_significant
  rw [← hfront] at htiled
  obtain ⟨gap, hgap, hslice⟩ := htiled.slice_pair
  rw [hslice, content_append, content_append, content_blanks hgap, List.append_nil, content_text, content_text]

/-- the marks that are told apart by their text -/
theorem content_marks : content "&".toList = mark "&" ∧ content "=".toList = mark "=" := by decide +kernel

/-- the ink of a declaration is that of its heading and its declarators -/
theorem Chain.varDecl_ink {last : Node} {before : List Node} {front : List Token} (h : Chain σ last before ts)
    {ms : List Lexeme} {type : Option Lexeme} (hfront : inkOf front = headingInk ms type) (span : Span) :
    inkOf (front ++ ts) = Shape.ink σ.text span (.varDecl ms type (last :: before).reverse) := by
  simp only [inkOf_append, hfront, h.all.ink, Shape.ink, Node.inks_eq_flatMap]

namespace Grammar

/-! ## Looking ahead and optional marks -/

theorem reads_atDeclarator : Reads σ a atDeclarator fun _ b => b = a := by
  unfold atDeclarator
  refine .bind reads_atName ?_
  rintro x b ⟨rfl, -⟩
  split
  · exact .pure rfl
  refine .peekKind_bind ?_
  split
  · exact .pure rfl
  · unfold atAmpersand atText?
    exact .peek_bind (.pure rfl)

theorem reads_isTypeUsedAsName (ms : List Lexeme) (t : Token) :
    Reads σ a (isTypeUsedAsName ms t) fun x b => b = a ∧ (x = true → ms = []) := by
  unfold isTypeUsedAsName
  split
  · next h =>
    simp only [Bool.and_eq_true, List.isEmpty_iff] at h
    refine .bind reads_atDeclarator ?_
    rintro x b rfl
    exact .pure ⟨rfl, fun _ => h.1⟩
  · exact .pure ⟨rfl, by simp⟩

/-- a mark that may be there -/
structure Optional (a : List Token) (k : Kind) (m : List Char) (x : Option Token) (b : List Token) : Prop where
  split : a = x.toList ++ b
  ink : inkOf x.toList = if x.isSome then m else []
  kind : ∀ t ∈ x, t.kind = k

theorem reads_eat {k : Kind} {m : List Char} (hm : k.mark? = some m) :
    Reads σ a (eat? k) fun x b => Optional a k m x b ∧ (x = none → (σ.next a).kind ≠ k) := by
  rw [← bind_pure (eat? k)]
  refine .eatMark_bind hm (fun hk => .pure ⟨⟨rfl, rfl, by simp⟩, fun _ => hk⟩) ?_
  rintro t b rfl hk ht
  exact .pure ⟨⟨rfl, by simp [ht], by simpa using hk⟩, by simp⟩

theorem reads_eatAmpersand : Reads σ a eatAmpersand? (Optional a .arithOp (mark "&")) := by
  unfold eatAmpersand? atAmpersand
  refine .atText_bind ?_
  split
  · next h =>
    simp only [Bool.and_eq_true, decide_eq_true_eq, beq_iff_eq] at h
    refine .takeSome_bind (by simp [h.1]) ?_
    rintro t b rfl
    refine .pure ⟨rfl, ?_, by simpa using h.1⟩
    have hink : t.ink = mark "&" := by rw [Token.ink, ← content_marks.1, ← h.2, Source.next_cons]
    simp [hink]
  · exact .pure ⟨rfl, rfl, by simp⟩

/-! ## Modifiers and types -/

theorem headingInk_append (ms ns : List Lexeme) (type : Option Lexeme) :
    headingInk (ms ++ ns) type = headingInk ms none ++ headingInk ns type := by simp [headingInk]

theorem headingInk_some (ms : List Lexeme) (type : Lexeme) :
    headingInk ms (some type) = headingInk ms none ++ content type.text := by simp [headingInk]

/-- modifiers that hold the tokens taken from `a` -/
def Modified (a : List Token) (ms : List Lexeme) (b : List Token) : Prop :=
  ∃ ts, a = ts ++ b ∧ inkOf ts = headingInk ms none ∧ (ms = [] → ts = [])

theorem reads_modifiers : Reads σ a modifiers (Modified a) := by
  unfold modifiers
  refine .bind (P := fun found b => Modified a found.reverse b)
    (.loop (fun found b => Modified a found.reverse b) ⟨[], rfl, rfl, fun _ => rfl⟩ ?_) ?_
  · rintro found b ⟨ts, rfl, hts, hnil⟩
    refine .eat_bind (by simp) (fun _ => .pure ⟨ts, rfl, hts, hnil⟩) ?_
    rintro t c rfl -
    refine .pure ⟨ts ++ [t], by simp, ?_, by simp⟩
    simp only [inkOf_append, hts, List.reverse_cons, headingInk_append]
    simp [headingInk]
  · intro found b hfound
    exact .pure hfound

/-- a type of two words -/
theorem reads_lexemeBetween {first last : Token} (h : first :: last :: a <:+ significant σ.tokens) :
    Reads σ a (lexemeBetween first last) fun type b =>
      b = a ∧ content type.text = first.ink ++ last.ink ∧ type.span.stop = last.span.stop := by
  unfold lexemeBetween
  exact .spanning_bind (.lexeme ⟨rfl, Source.content_between h, rfl⟩)

/-- the type that starts with the token in front -/
theorem reads_typeFrom {first : Token} (h : first :: a <:+ significant σ.tokens) :
    Reads σ a (typeFrom first) fun type b => ∃ ts, a = ts ++ b ∧ inkOf (first :: ts) = content type.text ∧
      (first :: ts).getLast?.map (·.span.stop) = some type.span.stop := by
  unfold typeFrom
  split
  · refine .expect_bind (by simp) ?_
    rintro name b rfl -
    refine (reads_lexemeBetween h).mono ?_
    rintro type c ⟨rfl, htype, hstop⟩
    exact ⟨[name], rfl, by simp [htype], by simp [hstop]⟩
  · exact .pure ⟨[], rfl, by simp, rfl⟩

/-! ## Declarators -/

/-- what stands in front of the rest of a declarator -/
structure DeclaratorHead.Holds (σ : Source) (head : DeclaratorHead) (front a : List Token) : Prop where
  ink : inkOf front = (if head.isArray then mark "*" else []) ++ (if head.byRef then mark "&" else []) ++
    Node.ink? σ.text head.name
  free : ∀ n ∈ head.name, n.DirectiveFree
  start : head.start = (σ.next (front ++ a)).span.start
  stop : (σ.next a).kind = .ellipsis ∨ front.getLast?.map (·.span.stop) = some head.stop

theorem DeclaratorHead.Holds.named {star ampersand : Option Token} {name : Node}
    (hstar : inkOf star.toList = if star.isSome then mark "*" else [])
    (hampersand : inkOf ampersand.toList = if ampersand.isSome then mark "&" else []) (hname : name.Covers σ ts)
    (b : List Token) : DeclaratorHead.Holds σ ⟨(σ.next (star.toList ++ (ampersand.toList ++ (ts ++ b)))).span.start,
      name.stop, some name, star.isSome, ampersand.isSome⟩ (star.toList ++ ampersand.toList ++ ts) b := by
  refine ⟨?_, by simpa using hname.free, by simp, .inr (hname.stop_append _)⟩
  simp [hstar, hampersand, hname.ink]

/-- what a declarator ends with if it has no value -/
theorem DeclaratorHead.Holds.stop_eq {head : DeclaratorHead} {front : List Token} {ellipsis : Option Token}
    (h : head.Holds σ front (ellipsis.toList ++ b))
    (hnone : ellipsis = none → (σ.next (ellipsis.toList ++ b)).kind ≠ .ellipsis) :
    (front ++ ellipsis.toList).getLast?.map (·.span.stop) =
      some ((ellipsis.map (·.span.stop)).getD head.stop) := by
  cases ellipsis with
  | none =>
    rcases h.stop with hk | hstop
    · exact absurd hk (hnone rfl)
    · simpa using hstop
  | some t => exact Node.stop_concat _ _

/-- the token before a value -/
theorem Source.valueMark {t : Token} (ht : t ∈ σ.tokens)
    (h : t.kind = .assignOp ∧ t.text = "=".toList ∨ t.kind = .colon) :
    t.ink = if t.kind = .colon then mark ":" else mark "=" := by
  rcases h with ⟨hk, htext⟩ | hk
  · rw [if_neg (by simp [hk]), Token.ink, htext, content_marks.2]
  · rw [if_pos hk, σ.ink_eq ht (by rw [hk]; rfl)]

theorem reads_declaratorRest (ok : rules.Sound σ) {head : DeclaratorHead} {front : List Token}
    (h : head.Holds σ front a) (allowDefault : Bool) :
    Reads σ a (declaratorRest rules head allowDefault) (Spanned σ (front ++ a)) := by
  unfold declaratorRest
  refine .bind (reads_eat rfl) ?_
  rintro ellipsis b ⟨⟨rfl, hellipsis, -⟩, hnone⟩
  have hstop := h.stop_eq hnone
  have hstart (us : List Token) {c : List Token} {stop : Nat} (hb : b = us ++ c)
      (hus : (front ++ ellipsis.toList ++ us).getLast?.map (·.span.stop) = some stop) :
      (front ++ ellipsis.toList ++ us).head?.map (·.span.start) = some head.start := by
    rw [h.start, σ.start_eq hus c, hb]
    simp
  have hplain : Reads σ b (build head.start ((ellipsis.map (·.span.stop)).getD head.stop)
      (.declarator head.name head.isArray head.byRef ellipsis.isSome none false))
      (Spanned σ (front ++ (ellipsis.toList ++ b))) := by
    refine .build ⟨front ++ ellipsis.toList, by simp, .ofShape ?_ rfl ?_ ?_ hstop⟩
    · simp [Shape.ink, h.ink, hellipsis]
    · simpa [Shape.parts] using h.free
    · simpa using hstart [] rfl (by simpa using hstop)
  have hvalue (hnext : (σ.next b).kind = .assignOp ∧ (σ.next b).text = "=".toList ∨ (σ.next b).kind = .colon) :
      Reads σ b (do
        let isDefault := (← take).kind = .colon
        let value ← rules.expression
        build head.start value.stop
          (.declarator head.name head.isArray head.byRef ellipsis.isSome (some value) isDefault))
      (Spanned σ (front ++ (ellipsis.toList ++ b))) := by
    refine .known_mem fun hmem => .takeSome_bind ?_ ?_
    · rcases hnext with ⟨hk, -⟩ | hk <;> simp [hk]
    rintro sign c rfl
    have hsign := Source.valueMark (hmem sign List.mem_cons_self) hnext
    refine .bind (ok.expression c) ?_
    rintro value d ⟨us, rfl, hus⟩
    have hlast := hus.stop_append (front ++ ellipsis.toList ++ [sign])
    simp only [List.append_assoc, List.singleton_append] at hlast
    refine .build ⟨front ++ ellipsis.toList ++ sign :: us, by simp, .ofShape ?_ rfl ?_ ?_ ?_⟩
    · simp [Shape.ink, h.ink, hellipsis, hsign, hus.ink]
    · simp only [Shape.parts, List.forall_mem_append, Option.mem_toList]
      exact ⟨h.free, by simpa using hus.free⟩
    · exact hstart (sign :: us) rfl (by simpa using hlast)
    · simpa using hlast
  dsimp only
  refine .atText_bind ?_
  split
  · next hassign =>
    simp only [Bool.and_eq_true, decide_eq_true_eq, beq_iff_eq] at hassign
    exact hvalue (.inl hassign)
  split
  · refine .at_bind ?_
    by_cases hcolon : (σ.next b).kind = .colon
    · simpa only [hcolon, decide_true, if_true] using hvalue (.inr hcolon)
    · simpa only [hcolon, decide_false, Bool.false_eq_true, if_false] using hplain
  · exact hplain

theorem reads_declarator (ok : rules.Sound σ) (allowDefault : Bool) :
    Reads σ a (declarator rules allowDefault) (Spanned σ a) := by
  unfold declarator
  refine .peek_bind (.bind (reads_eat rfl) ?_)
  rintro star b ⟨⟨rfl, hstar, -⟩, -⟩
  refine .bind reads_eatAmpersand ?_
  rintro ampersand c ⟨rfl, hampersand, -⟩
  refine .bind reads_atName ?_
  rintro x d ⟨rfl, -⟩
  split
  · refine .bind reads_name ?_
    rintro name e ⟨ts, rfl, hname⟩
    simpa using reads_declaratorRest ok (.named hstar hampersand hname e) allowDefault
  refine .at_bind ?_
  dsimp only
  split
  · exact .wanted_bind
  · next hmarks =>
    -- without any mark the ellipsis comes next
    have hstop : (σ.next d).kind = .ellipsis ∨ (star.toList ++ ampersand.toList).getLast?.map (·.span.stop) =
        some (((ampersand.or star).map (·.span.stop)).getD
          (σ.next (star.toList ++ (ampersand.toList ++ d))).span.start) := by
      cases ampersand with
      | some t => exact .inr (Node.stop_concat _ _)
      | none =>
        cases star with
        | some t => exact .inr rfl
        | none => exact .inl (by simpa using hmarks)
    generalize ((ampersand.or star).map (·.span.stop)).getD
      (σ.next (star.toList ++ (ampersand.toList ++ d))).span.start = stop at hstop ⊢
    have hhead : DeclaratorHead.Holds σ ⟨(σ.next (star.toList ++ (ampersand.toList ++ d))).span.start, stop, none,
        star.isSome, ampersand.isSome⟩ (star.toList ++ ampersand.toList) d :=
      ⟨by simp [hstar, hampersand, Node.ink?], by simp, by simp, hstop⟩
    simpa using reads_declaratorRest ok hhead allowDefault

/-! ## Several declarators -/

/-- the end of a statement leaves no ink -/
theorem reads_statementEnd : Reads σ a statementEnd fun _ b => ∃ ts, a = ts ++ b ∧ inkOf ts = [] := by
  unfold statementEnd
  refine .peekKind_bind ?_
  split
  · next hk =>
    refine .takeMark_bind rfl hk ?_
    rintro t b rfl - ht
    exact .pure ⟨[t], rfl, by simp [ht]⟩
  · next hk =>
    refine .takeMark_bind rfl hk ?_
    rintro t b rfl - ht
    exact .pure ⟨[t], rfl, by simp [ht]⟩
  · exact .pure ⟨[], rfl, rfl⟩
  · exact .pure ⟨[], rfl, rfl⟩
  · exact .wanted

/-- declarators with commas between them, newest first, that hold the tokens taken and those in front of them -/
def Chained (σ : Source) (front a : List Token) (ns : Node × List Node) (b : List Token) : Prop :=
  ∃ ts, a = ts ++ b ∧ Chain σ ns.1 ns.2 (front ++ ts)

theorem reads_moreDeclarators (ok : rules.Sound σ) (comments : Bool) {first : Node} {front : List Token}
    (hfirst : first.Covers σ front) : Reads σ a (moreDeclarators rules comments first) (Chained σ front a) := by
  unfold moreDeclarators
  refine .loop (Chained σ front a) ⟨[], rfl, by simpa using .one hfirst⟩ ?_
  rintro ⟨last, before⟩ b ⟨ts, rfl, hchain⟩
  refine .eatMark_bind rfl (fun _ => .pure ⟨ts, rfl, hchain⟩) ?_
  rintro comma c rfl - hcomma
  have hnext : Reads σ c (declarator rules false) fun next d =>
      Chained σ front (ts ++ comma :: c) (next, last :: before) d := by
    refine (reads_declarator ok false).mono ?_
    rintro next d ⟨us, rfl, hnext⟩
    exact ⟨ts ++ comma :: us, by simp, by simpa using hchain.next hcomma hnext⟩
  dsimp only
  split
  · exact .trailingComment_bind (.bind hnext fun _ _ h => .pure h)
  · rw [pure_bind]
    exact .bind hnext fun _ _ h => .pure h

theorem reads_localDeclaration (ok : rules.Sound σ) : Reads σ a (localDeclaration rules) (Spanned σ a) := by
  unfold localDeclaration
  refine .peek_bind (.bind reads_modifiers ?_)
  rintro ms b ⟨ts, rfl, hms, -⟩
  refine .known fun hknown => .expect_bind (by simp) ?_
  rintro first c rfl -
  refine .bind (reads_typeFrom hknown) ?_
  rintro type d ⟨us, rfl, htype, -⟩
  refine .bind (reads_declarator ok false) ?_
  rintro declarator e ⟨vs, rfl, hdeclarator⟩
  refine .bind (reads_moreDeclarators ok false hdeclarator) ?_
  rintro ⟨last, before⟩ f ⟨ws, rfl, hchain⟩
  have hstop := Node.stop_append hchain.stop (ts ++ first :: us)
  refine .build ⟨ts ++ first :: us ++ (vs ++ ws), by simp, .ofShape ?_ rfl hchain.all.free ?_ hstop⟩
  · refine hchain.varDecl_ink ?_ _
    rw [inkOf_append, hms, htype, headingInk_some]
  · simpa using σ.start_eq hstop f

theorem reads_parameter (ok : rules.Sound σ) : Reads σ a (parameter rules) (Spanned σ a) := by
  unfold parameter
  refine .peek_bind (.bind reads_modifiers ?_)
  rintro ms b ⟨ts, rfl, hms, hnil⟩
  refine .known fun hknown => .expect_bind (by simp) ?_
  rintro first c rfl -
  refine .bind (reads_isTypeUsedAsName ms first) ?_
  rintro x d ⟨rfl, hx⟩
  split
  · next h =>
    obtain rfl := hnil (hx h)
    have hfirst : (leaf first (.identifier first.text)).Covers σ [first] := .leaf rfl rfl rfl
    exact (reads_expressionFrom ok hfirst).mono fun _ _ hn => hn.spanned rfl
  refine .bind (reads_typeFrom hknown) ?_
  rintro type e ⟨us, rfl, htype, hlast⟩
  have hheading : inkOf (ts ++ first :: us) = headingInk ms (some type) := by
    rw [inkOf_append, hms, htype, headingInk_some]
  refine .bind reads_atDeclarator ?_
  rintro y f rfl
  split
  · refine .bind (reads_declarator ok true) ?_
    rintro declarator g ⟨vs, rfl, hdeclarator⟩
    have hstop := hdeclarator.stop_append (ts ++ first :: us)
    refine .build ⟨ts ++ first :: us ++ vs, by simp, .ofShape ?_ rfl (by simpa [Shape.parts] using hdeclarator.free) ?_ hstop⟩
    · exact (Chain.one hdeclarator).varDecl_ink hheading _
    · simpa using σ.start_eq hstop g
  · have hstop := Node.stop_append hlast ts
    refine .build ⟨ts ++ first :: us, by simp, .ofShape ?_ rfl (by simp [Shape.parts]) ?_ hstop⟩
    · simpa [Shape.ink] using hheading
    · simpa using σ.start_eq hstop f

theorem reads_argument (ok : rules.Sound σ) : Reads σ a (argument rules) (Spanned σ a) := by
  unfold argument
  refine .peekKind_bind ?_
  split
  · exact reads_parameter ok
  · exact reads_parameter ok
  · exact reads_expression ok

/-! ## Blocks and functions -/

theorem reads_block (ok : rules.Sound σ) : Reads σ a (block rules none) (Spanned σ a) := by
  unfold block
  refine .mark_bind rfl ?_
  rintro start b rfl - hstart
  refine .get_bind fun r hr => ?_
  rw [hr.raw_not_comment]
  simp only [Bool.and_false, Bool.false_and, Bool.false_eq_true, if_false, pure_bind]
  refine .bind (reads_statementList ok .block [.rightBrace]) ?_
  rintro items c ⟨hitems, -⟩
  refine .mark_bind rfl ?_
  rintro close d rfl - hclose
  exact .build (hitems.framed (by simp [Shape.ink, hstart, hclose]) rfl rfl)

theorem reads_functionBody (ok : rules.Sound σ) : Reads σ a (functionBody rules) (Spanned σ a) := by
  unfold functionBody
  refine .at_bind ?_
  dsimp only
  split
  · exact .wanted_bind
  exact .takePending_bind (reads_block ok)

/-- a function after its heading and its name -/
theorem reads_function (ok : rules.Sound σ) (scope : Scope) (head : DeclarationHead) {name : Node} {front : List Token}
    (hink : inkOf front = headingInk head.modifiers head.typeName ++ (if head.isArray then mark "*" else []) ++
      name.ink σ.text) (hfree : name.DirectiveFree) : Reads σ a (function rules scope head name) (Kept σ front a) := by
  unfold function
  refine .mark_bind rfl ?_
  rintro start b rfl - hstart
  refine .bind (reads_delimited rfl fun a => (ok.argument a).mono fun _ _ => Spanned.stated) ?_
  rintro ⟨params, close⟩ c ⟨⟨ts, rfl, hparams⟩, hclose⟩
  refine .eatMark_bind rfl (fun _ => ?_) ?_
  · dsimp only
    split
    · exact .bind (P := fun _ _ => False) .refuse (by simp)
    refine .bind (reads_functionBody ok) ?_
    rintro body d ⟨us, rfl, hbody⟩
    refine .build ⟨start :: ts ++ close :: us, by simp, .ofShape ?_ rfl ?_⟩
    · simp [Shape.ink, hink, hstart, hparams.ink, hclose, hbody.ink]
    · simp only [Shape.parts, List.forall_mem_cons, List.forall_mem_append]
      exact ⟨⟨hfree, hparams.free⟩, by simpa using hbody.free⟩
  · rintro semicolon d rfl - hsemicolon
    refine .build ⟨start :: ts ++ [close, semicolon], by simp, .ofShape ?_ rfl ?_⟩
    · simp [Shape.ink, hink, hstart, hparams.ink, hclose, hsemicolon]
    · simp only [Shape.parts, List.forall_mem_cons, List.forall_mem_append]
      exact ⟨⟨hfree, hparams.free⟩, by simp⟩

/-! ## Structs and whole declarations -/

/-- the word that a struct opens with is read off its source text -/
theorem structWord_eq {first name close : Token} (hclose : close ∈ b) (h : first :: name :: b <:+ significant σ.tokens)
    (hfirst : first.kind = .typeWord) (hstruct : isStructWord first = true) (hname : name.kind = .name) :
    structWord σ.text ⟨first.span.start, close.span.stop⟩ = first.text := by
  have hword : first.text = "struct".toList ∨ first.text = "class".toList := by
    simpa [isStructWord] using hstruct
  have hplain : first.text ≠ [] ∧ ∀ c ∈ first.text, isBlank c = false := by
    rcases hword with hword | hword
    · rw [hword]
      exact ⟨by decide, plain_of_all (by decide)⟩
    · rw [hword]
      exact ⟨by decide, plain_of_all (by decide)⟩
  have hmem : name ∈ σ.tokens := List.mem_of_mem_filter (h.mem (by simp))
  obtain ⟨front, hfront⟩ := h
  have htiled := σ.tiled_significant
  rw [← hfront] at htiled
  rw [structWord, htiled.words_slice hclose hfirst hplain.1 hplain.2 (hname ▸ σ.spelt name hmem), Option.getD_some]

theorem reads_structDefinition (ok : rules.Sound σ) {first name : Token} (h : first :: name :: a <:+ significant σ.tokens)
    (hfirst : first.kind = .typeWord) (hstruct : isStructWord first = true) (hname : name.kind = .name) :
    Reads σ a (structDefinition rules first.span.start name) (Kept σ [first, name] a) := by
  unfold structDefinition
  refine .mark_bind rfl ?_
  rintro start b rfl - hstart
  refine .bind (reads_statementList ok .block [.rightBrace]) ?_
  rintro members c ⟨⟨ts, rfl, hmembers⟩, -⟩
  refine .mark_bind rfl ?_
  rintro close d rfl - hclose
  refine .bind (reads_eat rfl) ?_
  rintro semicolon e ⟨⟨rfl, hsemicolon, -⟩, -⟩
  have hmem : close ∈ start :: (ts ++ close :: (semicolon.toList ++ e)) := by simp
  have hword := structWord_eq hmem h hfirst hstruct hname
  refine .build ⟨start :: ts ++ close :: semicolon.toList, by simp, .ofShape ?_ rfl ?_⟩
  · simp [Shape.ink, Node.ink, leaf, hword, hstart, hmembers.ink, hclose, hsemicolon]
  · simp only [Shape.parts, List.forall_mem_cons]
    exact ⟨.mk rfl (by simp [Shape.parts]), hmembers.free⟩

theorem reads_inherit (ok : rules.Sound σ) {ms : List Lexeme} {front : List Token} (hms : inkOf front = headingInk ms none)
    (start : Nat) : Reads σ a (inherit rules ms start) (Kept σ front a) := by
  unfold inherit
  refine .mark_bind rfl ?_
  rintro word b rfl - hword
  refine .bind (ok.expression b) ?_
  rintro argument c ⟨ts, rfl, hargument⟩
  refine .mark_bind rfl ?_
  rintro semicolon d rfl - hsemicolon
  refine .build ⟨word :: ts ++ [semicolon], by simp, .ofShape ?_ rfl ?_⟩
  · simp [Shape.ink, hms, hword, hargument.ink, hsemicolon]
  · simpa [Shape.parts] using hargument.free

theorem reads_declared (ok : rules.Sound σ) (scope : Scope) {ms : List Lexeme} {type : Option Lexeme} {front : List Token}
    (hfront : inkOf front = headingInk ms type) (start : Nat) :
    Reads σ a (declared rules scope start ms type) (Kept σ front a) := by
  unfold declared
  refine .peek_bind (.bind (reads_eat rfl) ?_)
  rintro star b ⟨⟨rfl, hstar, -⟩, -⟩
  refine .bind reads_eatAmpersand ?_
  rintro ampersand c ⟨rfl, hampersand, -⟩
  refine .bind reads_name ?_
  rintro name d ⟨ts, rfl, hname⟩
  refine .at_bind ?_
  split
  · next hparen =>
    -- a function: its name follows the heading and the star directly
    obtain rfl : ampersand = none := by
      simp only [Bool.and_eq_true, Bool.not_eq_true', Option.isSome_eq_false_iff, Option.isNone_iff_eq_none] at hparen
      exact hparen.1
    have hink : inkOf (front ++ (star.toList ++ ts)) =
        headingInk ms type ++ (if star.isSome then mark "*" else []) ++ name.ink σ.text := by
      simp [hfront, hstar, hname.ink]
    refine (reads_function ok scope ⟨start, ms, type, star.isSome⟩ hink hname.free).mono ?_
    rintro n e ⟨us, rfl, hn⟩
    exact ⟨star.toList ++ (ts ++ us), by simp, by simpa using hn⟩
  refine .bind (reads_declaratorRest ok (.named hstar hampersand hname d) false) ?_
  rintro first e ⟨us, hus, hfirst⟩
  refine .bind (reads_moreDeclarators ok true hfirst) ?_
  rintro ⟨last, before⟩ f ⟨vs, rfl, hchain⟩
  refine .bind reads_statementEnd ?_
  rintro - g ⟨ws, rfl, hend⟩
  refine .build ⟨us ++ (vs ++ ws), ?_, .ofShape ?_ rfl hchain.all.free⟩
  · simpa using hus
  · have hink := hchain.varDecl_ink hfront ⟨start, last.stop⟩
    simpa [hend] using hink

/-- a type word that is used as a name starts an expression -/
theorem reads_nameStatement (ok : rules.Sound σ) (first : Token) : Reads σ a (do
    let node ← expressionFrom rules (leaf first (.identifier first.text))
    statementEnd
    return node) (Stated σ (first :: a)) := by
  have hfirst : (leaf first (.identifier first.text)).Covers σ [first] := .leaf rfl rfl rfl
  refine .bind (reads_expressionFrom ok hfirst) ?_
  rintro node b ⟨ts, rfl, hnode⟩
  refine .bind reads_statementEnd ?_
  rintro - c ⟨us, rfl, hend⟩
  refine .pure ⟨first :: ts ++ us, by simp, ?_, hnode.suffix, hnode.free⟩
  have hink := hnode.ink
  simpa [hend] using hink

/-- **A declaration holds the tokens it is read from.** -/
theorem reads_declaration (ok : rules.Sound σ) (scope : Scope) :
    Reads σ a (declaration rules scope) (Stated σ a) := by
  unfold declaration
  refine .peek_bind (.bind reads_modifiers ?_)
  rintro ms b ⟨ts, rfl, hms, hnil⟩
  refine .known fun hknown => .peekKind_bind ?_
  split
  · exact (reads_inherit ok hms _).mono fun _ _ h => h.stated rfl
  · next hk =>
    refine .takeSome_bind (by simp [hk]) ?_
    rintro first c rfl
    refine .bind (reads_isTypeUsedAsName ms first) ?_
    rintro x d ⟨rfl, hx⟩
    split
    · next h =>
      obtain rfl := hnil (hx h)
      exact reads_nameStatement ok first
    split
    · next hstruct =>
      refine .expect_bind (by simp) ?_
      rintro name e rfl hname
      refine .at_bind ?_
      split
      · split
        · obtain rfl := hnil rfl
          exact (reads_structDefinition ok hknown hk hstruct hname).mono fun _ _ h => h.stated rfl
        · exact .refuse
      · refine .bind (reads_lexemeBetween hknown) ?_
        rintro type f ⟨rfl, htype, -⟩
        have hheading : inkOf (ts ++ [first, name]) = headingInk ms (some type) := by simp [hms, headingInk_some, htype]
        exact (reads_declared ok scope hheading _).mono fun _ _ h => h.stated (by simp)
    · have hheading : inkOf (ts ++ [first]) = headingInk ms (some (.ofToken first)) := by simp [hms, headingInk_some]
      exact (reads_declared ok scope hheading _).mono fun _ _ h => h.stated (by simp)
  · split
    · exact .wanted
    · exact (reads_declared ok scope hms _).mono fun _ _ h => h.stated rfl

end Grammar

end LpcStyle
