import Mathlib.Tactic
import LpcStyle.Format
import LpcStyle.Proofs.Grammar.Draws.Statement
import LpcStyle.Proofs.Style.Typeset.File

/-!
Formatting keeps the tree. The operator language has names, numbers, calls, parentheses, conditionals and the operators
before, after and between operands. No layout puts parentheses into such a text, so what is printed must be taken apart into
the same tokens and grouped the same: whatever the options are, the printed text has the tokens of the statements
(`relaid_print`), so it is read to the same tree, and printed again it stays as it is. Main statement:
`parse_format_operatorText`.
-/

namespace LpcStyle

open Text

/-! ## The language -/

/-- kinds of the tokens of the operator language -/
def operatorKinds : List Kind :=
  [.name, .number, .parenStart, .parenEnd, .question, .colon, .semicolon, .binaryOp, .logicalOp, .arithOp, .star, .unaryOp,
    .assignOp, .blankLines, .endOfFile]

/-- a text of the operator language -/
structure OperatorText (text : List Char) : Prop where
  kinds : ∀ t ∈ (Stream.ofText text).toList, t.kind ∈ operatorKinds
  noLambda : ∀ t ∈ (Stream.ofText text).toList, t.kind = .name → t.text ≠ "lambda".toList

namespace OperatorText

variable {text : List Char}

/-- what holds of all kinds of the language holds of all tokens -/
theorem all_kinds (h : OperatorText text) {p : Kind → Bool} (hp : operatorKinds.all p = true) :
    ∀ t ∈ (Stream.ofText text).closed, p t.kind = true :=
  Stream.forall_mem_closed (fun t ht => List.all_eq_true.1 hp _ (h.kinds t ht)) <| by
    rw [Stream.eof_ofText]
    exact List.all_eq_true.1 hp _ (by decide)

theorem quiet (h : OperatorText text) : Quiet text := fun t ht => by
  simpa using h.all_kinds (p := (!·.isComment)) (by decide) t (List.mem_append_left _ ht)

theorem inOperators (h : OperatorText text) : InOperators text := fun t ht => by
  obtain ⟨hmem, htrivia⟩ := List.mem_filter.1 ht
  have hkind := h.all_kinds (p := fun k => k.isTrivia || (k.isTerm || k.isStop)) (by decide) t (List.mem_append_left _ hmem)
  simpa [show t.kind.isTrivia = false by simpa using htrivia] using hkind

theorem legitimate (h : OperatorText text) : Legitimate text where
  spelt k := spelt_place text k (by simpa using h.all_kinds (p := (· != .closureEnd)) (by decide) _ (place_mem_closed text k))
  exact := exact_place text
  noLambda k := Stream.forall_mem_closed (P := fun t => t.kind = .name → t.text ≠ "lambda".toList) h.noLambda
    (by simp [Stream.eof_ofText]) _ (place_mem_closed text k)

/-- where no token is `&`, it stands before no operand -/
theorem refersNowhere (h : OperatorText text) (hand : ∀ t ∈ (Stream.ofText text).toList, t.text ≠ ['&']) {d : Document}
    (hparse : parse text = .ok d) : ∀ n ∈ d.roots, n.RefersNowhere := by
  obtain ⟨G, hroots, hread, -⟩ := h.inOperators.sentences h.quiet hparse
  intro n hn
  rw [hroots] at hn
  obtain ⟨x, hx, hn⟩ := List.mem_flatMap.1 hn
  rcases List.mem_append.1 hn with hblank | hnode
  · obtain ⟨b, -, rfl⟩ : ∃ b, x.blank = some b ∧ Parser.leaf b .blankLine = n := by simpa [blankNode] using hblank
    intro k hk op a hshape
    cases hk with
    | self => cases hshape
    | part hm => simp [Shape.parts] at hm
  · obtain rfl := List.mem_singleton.1 hnode
    have heof : (Stream.ofText text).eof.text ≠ ['&'] := by
      obtain ⟨-, -, -, htext, -⟩ := Stream.eof_span_ofText text
      simp [htext]
    exact (hread x hx).writes.refersNowhere fun k => Stream.forall_mem_closed hand heof _ (place_mem_closed text _)

end OperatorText

/-! ## What is printed -/

/-- a text that says the sentences again has no comments -/
theorem Relaid.quiet {text text' : List Char} {G : List Sentence} (h : Relaid text G (Stream.ofText text').ahead)
    (hread : ∀ x ∈ G, x.ReadFrom text) : Quiet text' := by
  intro t ht
  rcases h.kinds hread t ht with hterm | hkind | hkind
  · revert hterm
    cases t.kind <;> decide
  · rw [hkind]
    rfl
  · rw [hkind]
    rfl

/-- and no closures, whose ends alone may be spelled in other ways -/
theorem Relaid.spelt {text text' : List Char} {G : List Sentence} (h : Relaid text G (Stream.ofText text').ahead)
    (hread : ∀ x ∈ G, x.ReadFrom text) (k : Nat) : Spelt (place text' k).kind (place text' k).text := by
  refine spelt_place text' k fun hclosure => ?_
  have hend : (place text' k).kind ≠ .endOfFile := by rw [hclosure]; simp
  rcases h.kinds hread _ (place_mem (lt_length_of_place hend)) with hterm | hkind | hkind
  · rw [hclosure] at hterm
    cases hterm
  · rw [hclosure] at hkind
    cases hkind
  · rw [hclosure] at hkind
    cases hkind

/-- **A printed text says the statements again**, one after the other, and nothing in it is at fault. -/
theorem relaid_print (o : Options) {text : List Char} {d : Document} (hquiet : Quiet text) (hlegitimate : Legitimate text)
    (hsource : d.text = text) {G : List Sentence} (hroots : d.roots = G.flatMap Sentence.nodes)
    (hread : ∀ x ∈ G, x.ReadFrom text) (hfirst : ∀ x ∈ G.head?, x.blank = none)
    (hsigns : ∀ n ∈ d.roots, n.RefersNowhere) :
    Relaid text G (Stream.ofText (d.print o)).ahead ∧ (Stream.ofText (d.print o)).eof.fault = none := by
  cases G with
  | nil =>
    have hnothing : d.print o = [] := by
      have hempty : Layout.finishLines o.useTabs o.tabWidth [] = [] := Layout.finishLines_plain _ _ (by simp)
      have hrender : Doc.nil.render o.printWidth = [] := rfl
      rw [Document.print, hroots, List.flatMap_nil, Style.sourceFile, List.isEmpty_nil, if_pos rfl, hrender, Layout.finish,
        ← Layout.finishLines, hempty]
      rfl
    rw [hnothing, Stream.ofText]
    exact ⟨.nil, rfl⟩
  | cons x G =>
    have hlaid : ∀ y ∈ x :: G, y.Laid ⟨o, d.text, d.forest⟩ := fun y hy =>
      (hread y hy).laid hquiet hlegitimate hsource (hsigns _ (by
        rw [hroots]
        exact List.mem_flatMap.2 ⟨y, hy, by simp [Sentence.nodes]⟩))
    have hlays := Doc.lays_render o.printWidth (Style.sourceFile ⟨o, d.text, d.forest⟩ d.roots)
    rw [hroots] at hlays
    obtain ⟨w, k, hw, hrender⟩ := lays_sourceFile hlaid (hfirst x rfl) hlays
    obtain ⟨w', hw', hfinish⟩ := finish_statements o.useTabs o.tabWidth hw k
    have hprint : d.print o = w' ++ ['\n'] := by
      rw [Document.print, hroots, hrender, hfinish]
    have hterm : ∀ y ∈ x :: G, y.term.spelled = sayings (fun k => place text (y.start + k)) 0 y.size :=
      fun y hy => (hread y hy).writes.said fun k => hlegitimate.spelt _
    obtain ⟨ts, hspells, hwritten, -⟩ := TypesetAll.written hw'
    have hx := hread x List.mem_cons_self
    have hhead : ∀ t ∈ (x.term.spelled ++ (.semicolon, [';']) :: ts).head?, t.1 ≠ Kind.blankLines := by
      rw [hterm x List.mem_cons_self, sayings_cons hx.writes.lt]
      rintro t ⟨⟩
      exact place_ne_blankLines _
    obtain ⟨hspelling, -, hfault⟩ := Stream.ofText_written hwritten hhead
    rw [hprint]
    refine ⟨Relaid.of_spells hterm ?_, hfault⟩
    rw [hspelling]
    exact .cons (show List.map Prod.fst [] = _ by simp [hfirst x rfl]) hspells

/-- **Formatting a text of the operator language keeps its tree and is stable**: under all options, the printed text is read
to the same statements, blank lines among them, but for their places, and it is formatted to itself. `&` is left out before
an operand, where two of them would be read as one operator. -/
theorem parse_format_operatorText (o : Options) {text : List Char} {d : Document} (hparse : parse text = .ok d)
    (htext : OperatorText text) (hsigns : ∀ n ∈ d.roots, n.RefersNowhere) :
    ∃ out d', format o text = .ok out ∧ parse out = .ok d' ∧
      Node.unplacedAll true d.roots = Node.unplacedAll true d'.roots ∧ format o out = .ok out := by
  have hquiet := htext.quiet
  have hlegitimate := htext.legitimate
  have hsource := (legible_parse hparse).1
  obtain ⟨G, hroots, hread, hfirst, hagain⟩ := htext.inOperators.parse_relaid hquiet hparse
  obtain ⟨hrelaid, hfault⟩ := relaid_print o hquiet hlegitimate hsource hroots hread hfirst hsigns
  obtain ⟨out, hout⟩ : ∃ out, out = d.print o := ⟨_, rfl⟩
  rw [← hout] at hrelaid hfault
  have hquiet' := hrelaid.quiet hread
  obtain ⟨d', hparse', hstatements⟩ := hagain out hquiet' hrelaid hfault
  -- the same statements are printed the same
  have hpage : Style.sourceFile ⟨o, d.text, d.forest⟩ d.roots = Style.sourceFile ⟨o, d'.text, d'.forest⟩ d'.roots :=
    sourceFile_eq hquiet hquiet' hlegitimate (hrelaid.spelt hread) hsource (legible_parse hparse').1 rfl hstatements hsigns
  have hprint : d'.print o = out := by rw [hout, Document.print, Document.print, hpage]
  refine ⟨out, d', ?_, hparse', unplacedAll_eq_of_again hstatements, ?_⟩
  · rw [format, hparse, hout]
    rfl
  · rw [format, hparse', ← hprint]
    rfl

/-- signs next to each other, operators of many ranks, a conditional, calls and a blank line -/
def assortedOperators : List Char := "x=- -y*(a+b);\n\n\nz++ + ++w?f()(1.5e3):!g(c)&&~d<-5;".toList

theorem parse_format_assortedOperators : OperatorText assortedOperators ∧ ∃ d, parse assortedOperators = .ok d ∧
    d.roots.length = 3 ∧ (∀ n ∈ d.roots, n.RefersNowhere) ∧ ∀ o : Options, ∃ out d', format o assortedOperators = .ok out ∧
      parse out = .ok d' ∧ Node.unplacedAll true d.roots = Node.unplacedAll true d'.roots ∧ format o out = .ok out := by
  have htext : OperatorText assortedOperators := ⟨by decide +kernel, by decide +kernel⟩
  have hand : ∀ t ∈ (Stream.ofText assortedOperators).toList, t.text ≠ ['&'] := by decide +kernel
  have hparse : ((parse assortedOperators).toOption.map fun d => d.roots.length) = some 3 := by decide +kernel
  cases h : parse assortedOperators with
  | error e =>
    rw [h] at hparse
    cases hparse
  | ok d =>
    rw [h] at hparse
    have hsigns := htext.refersNowhere hand h
    exact ⟨htext, d, rfl, Option.some.inj hparse, hsigns, fun o => parse_format_operatorText o h htext hsigns⟩

namespace Style

/-! ## Outside the language -/

/-- two prefix operators that are printed as one that stands between operands -/
theorem format_ampersands_unreadable : format {} "& &x;".toList = .ok "&&x;\n".toList ∧
    ∀ d, parse "&&x;\n".toList ≠ .ok d := by
  refine ⟨by decide +kernel, fun d hd => ?_⟩
  have hnone : (parse "&&x;\n".toList).toOption.isNone = true := by decide +kernel
  rw [hd] at hnone
  cases hnone

/-- a struct on one line -/
def inlineStruct : List Char := "struct s \x7b int a;\n\nint b; \x7d".toList

/-- its blank line is printed as two spaces, and those as one when it is printed again -/
theorem format_struct_unstable : ∃ out again, format {} inlineStruct = .ok out ∧ format {} out = .ok again ∧ again ≠ out := by
  refine ⟨"struct s \x7b int a;  int b; \x7d;\n".toList, "struct s \x7b int a; int b; \x7d;\n".toList, ?_⟩
  decide +kernel

end Style

end LpcStyle
