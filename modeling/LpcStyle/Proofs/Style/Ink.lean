import Mathlib.Tactic
import LpcStyle.Proofs.Style.Even

/-!
What is printed of a tree, semicolons, commas and blanks aside. `Node.ink` puts a node's ink together from the ink of its
parts, form by form and without any layout. Main statements:
- `ink_print`: a printed node has the node's ink, at every place and under all options;
- `content_print`: so has the finished text of a whole document.
-/

namespace LpcStyle

open Text

/-- blanks, semicolons and commas do not count -/
def contentSieve : Sieve where
  passes c := !isBlank c && c != ';' && c != ','
  not_blank h := by simp [h]
  not_comma := by simp

/-- the text without its blanks, semicolons and commas -/
def content (text : List Char) : List Char := contentSieve.sift text

/-- the characters of a mark or keyword -/
@[irreducible] def mark (spelling : String) : List Char := spelling.toList

/-- a comment as it is printed -/
def Comment.ink (c : Comment) : List Char := (Style.comment c.kind c.text).ink contentSieve

/-- the separator in the head of a `foreach`, as it was written between its variables and what they run through -/
def foreachMark (source : List Char) (vars : List Node) (iterable : Node) : List Char :=
  let varsStop := (vars.getLast?.map Node.stop).getD iterable.start
  if trim (slice source ⟨varsStop, iterable.start⟩) == "in".toList then mark "in" else mark ":"

/-- the first word of a struct's source text -/
def structWord (source : List Char) (span : Span) : List Char :=
  ((words (slice source span)).head?).getD "struct".toList

/-- modifiers and a type -/
def headingInk (modifiers : List Lexeme) (typeName : Option Lexeme) : List Char :=
  (modifiers ++ typeName.toList).flatMap fun l => content l.text

def IndexMark.ink : IndexMark → List Char
  | .fromEnd => mark "<"
  | .range => mark ".."
  | .comma => []

def Jump.ink : Jump → List Char
  | .breakOff => mark "break"
  | .goOn => mark "continue"

mutual

/-- the ink of a node and of the comment on its last line -/
def Node.ink (source : List Char) : Node → List Char
  | .mk span shape suffix => Shape.ink source span shape ++ suffix.toList.flatMap Comment.ink

/-- the ink of a form -/
def Shape.ink (source : List Char) (span : Span) : Shape Node → List Char
  | .literal _ text | .textBlock text | .identifier text | .closureSymbol text | .closureIndex text => content text
  | .blankLine => []
  | .comment kind text => Comment.ink ⟨kind, span, text⟩
  | .directive name key args => (Style.directive 0 name key args).ink contentSieve
  | .spread a => a.ink source ++ mark "..."
  | .call callee args => callee.ink source ++ mark "(" ++ Node.inks source args ++ mark ")"
  | .member object property dot =>
    object.ink source ++ (if dot then mark "." else mark "->") ++ property.ink source
  | .index object indexor => object.ink source ++ mark "[" ++ indexor.ink source ++ mark "]"
  | .indexor parts => Node.inks source parts
  | .indexMark mark => mark.ink
  | .parentAccess scope member => Node.ink? source scope ++ mark "::" ++ member.ink source
  | .binary left op right implied =>
    left.ink source ++ (if implied then [] else content op.text) ++ right.ink source
  | .logical left op right => left.ink source ++ content op.text ++ right.ink source
  | .ternary test consequent alternate =>
    test.ink source ++ mark "?" ++ consequent.ink source ++ mark ":" ++ alternate.ink source
  | .assignment left op right => left.ink source ++ content op.text ++ Node.ink? source right
  | .unary op a => content op.text ++ a.ink source
  | .typeCast typeName isArray a =>
    mark "(" ++ content typeName.text ++ (if isArray then mark "*" else []) ++ mark ")" ++ a.ink source
  | .paren items => mark "(" ++ Node.inks source items ++ mark ")"
  | .multiExpression items => Node.inks source items
  | .range first last => first.ink source ++ mark ".." ++ last.ink source
  | .array elements => mark "(\x7b" ++ Node.inks source elements ++ mark "\x7d)"
  | .mapping pairs => mark "([" ++ Node.inks source pairs ++ mark "])"
  | .mappingPair key values =>
    key.ink source ++ (if values.isEmpty then [] else mark ":") ++ Node.inks source values
  | .structLiteral name items => mark "(" ++ content name.text ++ Node.inks source items ++ mark ")"
  | .inlineClosure items => mark "(:" ++ Node.inks source items ++ mark ":)"
  | .lambda args code => mark "lambda(" ++ args.ink source ++ code.ink source ++ mark ")"
  | .varDecl modifiers typeName declarators => headingInk modifiers typeName ++ Node.inks source declarators
  | .declarator name isArray byRef isSpread init isDefault =>
    (if isArray then mark "*" else []) ++ (if byRef then mark "&" else []) ++ Node.ink? source name ++
      (if isSpread then mark "..." else []) ++
      (if init.isNone then [] else if isDefault then mark ":" else mark "=") ++ Node.ink? source init
  | .function modifiers typeName isArray name params body =>
    headingInk modifiers typeName ++ (if isArray then mark "*" else []) ++ name.ink source ++ mark "(" ++
      Node.inks source params ++ mark ")" ++ Node.ink? source body
  | .structDef name members =>
    content (structWord source span) ++ name.ink source ++ mark "\x7b" ++ Node.inks source members ++ mark "\x7d"
  | .inherit modifiers a => headingInk modifiers none ++ mark "inherit" ++ a.ink source
  | .codeBlock openComment items =>
    mark "\x7b" ++ openComment.toList.flatMap Comment.ink ++ Node.inks source items ++ mark "\x7d"
  | .ifElse test consequent alternate =>
    mark "if" ++ mark "(" ++ test.ink source ++ mark ")" ++ consequent.ink source ++
      (if alternate.isNone then [] else mark "else") ++ Node.ink? source alternate
  | .switch test cases =>
    mark "switch" ++ mark "(" ++ test.ink source ++ mark ")" ++ mark "\x7b" ++ Node.inks source cases ++ mark "\x7d"
  | .switchCase test body =>
    (if test.isNone then mark "default" else mark "case") ++ Node.ink? source test ++ mark ":" ++ Node.inks source body
  | .forLoop init test update body =>
    mark "for" ++ mark "(" ++ Node.ink? source init ++ Node.ink? source test ++ Node.ink? source update ++ mark ")" ++
      body.ink source
  | .foreachLoop vars iterable body =>
    mark "foreach" ++ mark "(" ++ Node.inks source vars ++ foreachMark source vars iterable ++ iterable.ink source ++
      mark ")" ++ body.ink source
  | .whileLoop test body => mark "while" ++ mark "(" ++ test.ink source ++ mark ")" ++ body.ink source
  | .doWhile body test => mark "do" ++ body.ink source ++ mark "while" ++ mark "(" ++ test.ink source ++ mark ")"
  | .returnValue a => mark "return" ++ Node.ink? source a
  | .jump kind => kind.ink

def Node.inks (source : List Char) : List Node → List Char
  | [] => []
  | n :: ns => n.ink source ++ Node.inks source ns

def Node.ink? (source : List Char) : Option Node → List Char
  | none => []
  | some n => n.ink source

end

@[simp] theorem Node.inks_eq_flatMap (source : List Char) (ns : List Node) :
    Node.inks source ns = ns.flatMap (Node.ink source) := by
  induction ns with
  | nil => rfl
  | cons n ns ih => simp [Node.inks, ih]

@[simp] theorem Node.ink?_eq_flatMap (source : List Char) (n : Option Node) :
    Node.ink? source n = n.toList.flatMap (Node.ink source) := by
  cases n <;> simp [Node.ink?]

@[simp] theorem sift_contentSieve (text : List Char) : contentSieve.sift text = content text := rfl

@[simp] theorem content_append (a b : List Char) : content (a ++ b) = content a ++ content b :=
  contentSieve.sift_append a b

theorem content_blanks {text : List Char} (h : ∀ c ∈ text, isBlank c = true) : content text = [] :=
  contentSieve.sift_blanks h

namespace Style

/-! ## Texts and comments -/

/-- the ink of a fixed text -/
def litInk (t : String) : List Char := (Doc.lit t).ink contentSieve

@[simp] theorem ink_lit (t : String) : (Doc.lit t).ink contentSieve = litInk t := rfl

/-- the fixed texts of the printer without their blanks, semicolons and commas -/
theorem litInks :
    litInk " " = [] ∧ litInk "&" = mark "&" ∧ litInk "(" = mark "(" ∧ litInk ")" = mark ")" ∧
    litInk "*" = mark "*" ∧ litInk "," = [] ∧ litInk "." = mark "." ∧ litInk ":" = mark ":" ∧
    litInk ";" = [] ∧ litInk "<" = mark "<" ∧ litInk "[" = mark "[" ∧ litInk "]" = mark "]" ∧
    litInk "  " = [] ∧ litInk " =" = mark "=" ∧ litInk "()" = mark "(" ++ mark ")" ∧ litInk "(:" = mark "(:" ∧
    litInk "([" = mark "([" ∧ litInk ", " = [] ∧ litInk "->" = mark "->" ∧ litInk ".." = mark ".." ∧
    litInk ": " = mark ":" ∧ litInk ":)" = mark ":)" ∧ litInk "::" = mark "::" ∧ litInk "? " = mark "?" ∧
    litInk "])" = mark "])" ∧ litInk "do" = mark "do" ∧ litInk "if" = mark "if" ∧ litInk " : " = mark ":" ∧
    litInk "..." = mark "..." ∧ litInk "for" = mark "for" ∧ litInk " in " = mark "in" ∧
    litInk "([])" = mark "([" ++ mark "])" ∧ litInk "\x7b" = mark "\x7b" ∧ litInk "\x7d" = mark "\x7d" ∧
    litInk "else" = mark "else" ∧ litInk " \x7b" = mark "\x7b" ∧ litInk "(: :)" = mark "(:" ++ mark ":)" ∧
    litInk "(\x7b" = mark "(\x7b" ∧ litInk "\x7d)" = mark "\x7d)" ∧ litInk "\x7d;" = mark "\x7d" ∧
    litInk "case " = mark "case" ∧ litInk "while" = mark "while" ∧ litInk "break;" = mark "break" ∧
    litInk "switch" = mark "switch" ∧ litInk "  \x7d;" = mark "\x7d" ∧ litInk "foreach" = mark "foreach" ∧
    litInk "lambda(" = mark "lambda(" ∧ litInk "return " = mark "return" ∧ litInk "return;" = mark "return" ∧
    litInk "default:" = mark "default" ++ mark ":" ∧ litInk "inherit " = mark "inherit" ∧
    litInk "continue;" = mark "continue" ∧ litInk "(\x7b\x7d)" = mark "(\x7b" ++ mark "\x7d)" := by
  and_intros <;> decide +kernel

@[simp] theorem content_trim (t : List Char) : content (trim t) = content t := contentSieve.sift_trim t

@[simp] theorem content_heading (modifiers : List Lexeme) (typeName : Option Lexeme) :
    content (heading modifiers typeName) = headingInk modifiers typeName := by
  rw [content, heading, contentSieve.sift_join contentSieve.sift_space, List.flatMap_assoc, headingInk]
  simp only [contentSieve.flatMap_sift_words, content]

@[simp] theorem suffixInk (p : Printed) :
    p.suffix.ink contentSieve = p.node.suffix.toList.flatMap Comment.ink := by
  simp only [Printed.suffix]
  split
  · next c hc => simp [hc, litInks, Comment.ink]
  · next hc => simp [hc]

/-! ## Printed nodes and lists of them -/

@[simp] theorem node_print (env : Env) (place : Place) (n : Node) : (print env place n).node = n := by
  cases n
  rfl

/-- the ink of a printed node with the comment on its last line -/
def Printed.ink (p : Printed) : List Char := p.bare.ink contentSieve ++ p.suffix.ink contentSieve

@[simp] theorem fullInk (p : Printed) : p.full.ink contentSieve = p.ink := by
  simp only [Printed.full, Printed.ink]
  split <;> simp [litInks]

theorem listItemInk (comma : Bool) (p : Printed) : (listItem comma p).ink contentSieve = p.ink := by
  simp only [listItem, Printed.ink]
  split
  · simp
  · split <;> simp [litInks]

theorem listItemsInk (items : List Printed) :
    (listItems items).flatMap (Doc.ink contentSieve) = items.flatMap Printed.ink := by
  induction items with
  | nil => rfl
  | cons p ps ih => simp only [listItems, List.flatMap_cons, listItemInk, ih]

theorem commaListInk {separator : Doc} (h : separator.ink contentSieve = []) (items : List Printed) :
    (commaList separator items).ink contentSieve = items.flatMap Printed.ink := by
  rw [commaList, Doc.ink_join contentSieve h, listItemsInk]

theorem joinFullInk {separator : Doc} (h : separator.ink contentSieve = []) (items : List Printed) :
    (Doc.join separator (items.map Printed.full)).ink contentSieve = items.flatMap Printed.ink := by
  rw [Doc.ink_join contentSieve h, List.flatMap_map]
  simp only [fullInk]

@[simp] theorem statementsInk (items : List Printed) :
    (statements items).ink contentSieve = items.flatMap Printed.ink := joinFullInk rfl items

@[simp] theorem indentInk (env : Env) (d : Doc) : (env.indent d).ink contentSieve = d.ink contentSieve := by
  simp [Env.indent]

@[simp] theorem bracketedInk (env : Env) (front : String) (body : Doc) (back : String) :
    (env.bracketed front body back).ink contentSieve = litInk front ++ body.ink contentSieve ++ litInk back := by
  simp only [Env.bracketed, Doc.ink_grouped, Doc.ink_andThen, indentInk, Doc.ink_softline, ink_lit, List.nil_append,
    List.append_nil]

/-! ## Collections -/

theorem fillRestInk (done : Doc) (before : Printed) (items : List Printed) :
    (fillRest done before items).ink contentSieve = done.ink contentSieve ++ items.flatMap Printed.ink := by
  induction items generalizing done before with
  | nil => simp [fillRest]
  | cons p ps ih =>
    simp only [fillRest, ih, List.flatMap_cons]
    split <;> simp [listItemInk]

theorem fillInk (items : List Printed) : (fill items).ink contentSieve = items.flatMap Printed.ink := by
  cases items with
  | nil => rfl
  | cons p ps => simp only [fill, fillRestInk, listItemInk, List.flatMap_cons]

/-- an even number of elements leaves none without a partner -/
theorem pairLinesInk (env : Env) (items : List Printed) (h : items.length % 2 = 0) :
    (pairLines env items).flatMap (Doc.ink contentSieve) = items.flatMap Printed.ink := by
  fun_induction pairLines env items with
  | case1 key value rest ih =>
    have hrest : rest.length % 2 = 0 := by
      simp only [List.length_cons] at h
      omega
    simp [ih hrest, Printed.ink, litInks]
  | case2 items hne =>
    obtain _ | ⟨a, _ | ⟨b, rest⟩⟩ := items
    · rfl
    · simp at h
    · exact absurd rfl (hne a b rest)

@[simp] theorem trailingCommaInk (env : Env) (items : List Printed) :
    (trailingComma env items).ink contentSieve = [] := by
  simp only [trailingComma]
  split
  · simp [litInks]
  · rfl

theorem arrayInk (env : Env) (place : Place) (span : Span) (elements : List Printed) :
    (array env place span elements).ink contentSieve =
      mark "(\x7b" ++ elements.flatMap Printed.ink ++ mark "\x7d)" := by
  cases elements with
  | nil => simp [array, litInks]
  | cons first rest =>
    have hstay : (if env.hasNewline (span.start + 2) first.node.start then Doc.breakParent else Doc.nil).ink
        contentSieve = [] := by
      split <;> rfl
    simp only [array, bracketedInk, litInks]
    split
    · next hpairs =>
      have hlength : (first :: rest).length % 2 = 0 := by
        simp only [printsAsPairs, Bool.and_eq_true, beq_iff_eq] at hpairs
        exact hpairs.1.1
      rw [Doc.ink_andThen, hstay, Doc.ink_join contentSieve rfl, pairLinesInk env _ hlength, List.nil_append]
    · rw [Doc.ink_andThen, Doc.ink_andThen, hstay, fillInk, trailingCommaInk, List.nil_append, List.append_nil]

theorem mappingInk (env : Env) (pairs : List Printed) :
    (mapping env pairs).ink contentSieve = mark "([" ++ pairs.flatMap Printed.ink ++ mark "])" := by
  simp only [mapping]
  split
  · next h => simp [litInks, List.isEmpty_iff.1 h]
  · simp only [bracketedInk, litInks, Doc.ink_andThen, commaListInk (Doc.ink_line _), trailingCommaInk,
      List.append_nil]

theorem mappingPairInk (env : Env) (key : Doc) (values : List Printed) :
    (mappingPair env key values).ink contentSieve =
      key.ink contentSieve ++ (if values.isEmpty then [] else mark ":") ++ values.flatMap Printed.ink := by
  have hseparator : (Doc.lit ";" ++ Doc.line).ink contentSieve = [] := by simp [litInks]
  simp only [mappingPair]
  split
  · next h => simp [List.isEmpty_iff.1 h]
  · simp [joinFullInk hseparator, litInks]

theorem structLiteralInk (env : Env) (name : List Char) (items : List Printed) :
    (structLiteral env name items).ink contentSieve =
      mark "(" ++ content name ++ items.flatMap Printed.ink ++ mark ")" := by
  simp only [structLiteral]
  split
  · next h => simp [litInks, List.isEmpty_iff.1 h]
  · simp [litInks, commaListInk (Doc.ink_line _)]

/-! ## Expressions -/

theorem callInk (env : Env) (callee : Doc) (args : List Printed) :
    (call env callee args).ink contentSieve =
      callee.ink contentSieve ++ mark "(" ++ args.flatMap Printed.ink ++ mark ")" := by
  fun_cases call env callee args with
  | case1 => simp [litInks]
  | case2 arg => simp [litInks]
  | case3 arg => simp [litInks, commaListInk (Doc.ink_line _)]
  | case4 => simp [litInks, commaListInk (Doc.ink_line _)]

theorem binaryishInk (isLogical : Bool) (slot : Slot) (left right : Printed) (op : Doc) :
    (binaryish isLogical slot left right op).ink contentSieve = left.ink ++ op.ink contentSieve ++ right.ink := by
  have hgroup (c : Bool) (d : Doc) : (if c then d.grouped else d).ink contentSieve = d.ink contentSieve := by
    cases c <;> simp
  simp only [binaryish, hgroup, Doc.ink_andThen, Doc.ink_grouped, fullInk, Doc.ink_line, List.append_nil,
    List.append_assoc]

theorem valueInk (env : Env) (p : Printed) : (value env p).ink contentSieve = p.ink := by
  simp only [value]
  split <;> simp [litInks]

theorem assignmentInk (env : Env) (left op : Doc) (right : Option Printed) :
    (assignment env left op right).ink contentSieve =
      left.ink contentSieve ++ op.ink contentSieve ++ right.toList.flatMap Printed.ink := by
  cases right <;> simp [assignment, valueInk, litInks]

theorem unaryInk (env : Env) (op : List Char) (argument : Printed) :
    (unary env op argument).ink contentSieve = content op ++ argument.ink := by
  simp only [unary]
  split <;> simp [litInks]

theorem typeCastInk (typeName : List Char) (isArray : Bool) (argument : Doc) :
    (typeCast typeName isArray argument).ink contentSieve =
      mark "(" ++ content typeName ++ (if isArray then mark "*" else []) ++ mark ")" ++
        argument.ink contentSieve := by
  cases isArray <;> simp [typeCast, litInks]

theorem parenInk (env : Env) (items : List Printed) :
    (paren env items).ink contentSieve = mark "(" ++ items.flatMap Printed.ink ++ mark ")" := by
  simp only [paren]
  split
  · next h => simp [litInks, List.isEmpty_iff.1 h]
  · simp only [bracketedInk, litInks, commaListInk (Doc.ink_line _)]

theorem inlineClosureInk (env : Env) (items : List Printed) :
    (inlineClosure env items).ink contentSieve = mark "(:" ++ items.flatMap Printed.ink ++ mark ":)" := by
  simp only [inlineClosure]
  split
  · next h => simp [litInks, List.isEmpty_iff.1 h]
  · simp [litInks, joinFullInk (Doc.ink_line _)]

/-! ## Statements and declarations -/

theorem codeBlockInk (env : Env) (slot : Slot) (span : Span) (openComment : Option Comment) (items : List Printed) :
    (codeBlock env slot span openComment items).ink contentSieve =
      mark "\x7b" ++ openComment.toList.flatMap Comment.ink ++ items.flatMap Printed.ink ++ mark "\x7d" := by
  have hseparator : (if condenses env slot span items then Doc.line else Doc.hardline).ink contentSieve = [] := by
    split <;> rfl
  have hbody := joinFullInk hseparator items
  cases openComment with
  | none =>
    simp only [codeBlock]
    split
    · next h => simp [List.isEmpty_iff.1 h, litInks]
    · simp [hseparator, hbody, litInks]
  | some c =>
    simp only [codeBlock]
    split
    · next h =>
      simp [List.isEmpty_iff.1 h, litInks, Comment.ink]
    · simp [hseparator, hbody, litInks, Comment.ink]

@[simp] theorem branchInk (env : Env) (body : Printed) : (branch env body).ink contentSieve = body.ink := by
  simp only [branch]
  split
  · simp [litInks]
  · split <;> simp

theorem headerInk (env : Env) (keyword : String) (inner : Doc) :
    (header env keyword inner).ink contentSieve = litInk keyword ++ mark "(" ++ inner.ink contentSieve ++ mark ")" := by
  simp [header, litInks]

theorem ifElseInk (env : Env) (test : Doc) (consequent : Printed) (alternate : Option Printed) :
    (ifElse env test consequent alternate).ink contentSieve =
      mark "if" ++ mark "(" ++ test.ink contentSieve ++ mark ")" ++ consequent.ink ++
        (if alternate.isNone then [] else mark "else") ++ alternate.toList.flatMap Printed.ink := by
  cases alternate with
  | none => simp [ifElse, headerInk, litInks]
  | some p =>
    have htail : (if p.shape.isIfElse then Doc.lit " " ++ p.full else branch env p).ink contentSieve = p.ink := by
      split <;> simp [litInks]
    have hgap : (if (consequent.shape.isCodeBlock && !consequent.hasSuffix) = true then Doc.lit " "
        else Doc.hardline).ink contentSieve = [] := by
      split
      · simp [litInks]
      · rfl
    simp only [ifElse, Doc.ink_grouped, Doc.ink_andThen, headerInk, branchInk, hgap, htail, ink_lit, litInks]
    simp

theorem switchInk (env : Env) (test : Doc) (cases : List Printed) :
    (switch env test cases).ink contentSieve =
      mark "switch" ++ mark "(" ++ test.ink contentSieve ++ mark ")" ++ mark "\x7b" ++ cases.flatMap Printed.ink ++ mark "\x7d" := by
  simp only [switch]
  split
  · next h => simp [List.isEmpty_iff.1 h, headerInk, litInks]
  · simp [headerInk, litInks]

theorem switchCaseInk (env : Env) (test : Option Printed) (body : List Printed) :
    (switchCase env test body).ink contentSieve =
      (if test.isNone then mark "default" else mark "case") ++ test.toList.flatMap Printed.ink ++ mark ":" ++
        body.flatMap Printed.ink := by
  cases test with
  | none =>
    simp only [switchCase]
    split
    · next h => simp [List.isEmpty_iff.1 h, litInks]
    · simp [litInks]
  | some p =>
    simp only [switchCase]
    split
    · next h => simp [List.isEmpty_iff.1 h, litInks]
    · simp [litInks]

theorem forLoopInk (env : Env) (init test update : Option Printed) (body : Printed) :
    (forLoop env init test update body).ink contentSieve =
      mark "for" ++ mark "(" ++ init.toList.flatMap Printed.ink ++ test.toList.flatMap Printed.ink ++
        update.toList.flatMap Printed.ink ++ mark ")" ++ body.ink := by
  cases init <;> cases test <;> cases update <;> simp [forLoop, headerInk, litInks]

theorem foreachLoopInk (env : Env) (vars : List Printed) (iterable body : Printed) :
    (foreachLoop env vars iterable body).ink contentSieve =
      mark "foreach" ++ mark "(" ++ vars.flatMap Printed.ink ++
        foreachMark env.source (vars.map Printed.node) iterable.node ++ iterable.ink ++ mark ")" ++ body.ink := by
  have hstop : (vars.getLast?.map fun p => p.node.stop) = (vars.map Printed.node).getLast?.map Node.stop := by
    simp [List.getLast?_map]
    rfl
  simp only [foreachLoop, foreachMark, hstop]
  split
  · simp [headerInk, commaListInk (Doc.ink_line _), litInks]
  · simp [headerInk, commaListInk (Doc.ink_line _), litInks]

theorem doWhileInk (env : Env) (body : Printed) (test : Doc) :
    (doWhile env body test).ink contentSieve =
      mark "do" ++ body.ink ++ mark "while" ++ mark "(" ++ test.ink contentSieve ++ mark ")" := by
  simp only [doWhile]
  split <;> simp [headerInk, litInks]

theorem returnValueInk (env : Env) (argument : Option Printed) :
    (returnValue env argument).ink contentSieve = mark "return" ++ argument.toList.flatMap Printed.ink := by
  cases argument <;> simp [returnValue, litInks]

theorem varDeclInk (modifiers : List Lexeme) (typeName : Option Lexeme) (declarators : List Printed) :
    (varDecl modifiers typeName declarators).ink contentSieve =
      headingInk modifiers typeName ++ declarators.flatMap Printed.ink := by
  have hseparator : (if declarators.any Printed.hasSuffix then Doc.hardline else Doc.line).ink contentSieve = [] := by
    split <;> rfl
  have hlist := commaListInk hseparator declarators
  simp only [varDecl]
  split
  · next h => simp [List.isEmpty_iff.1 h]
  · split
    · next h =>
      rw [Doc.ink_grouped, hlist, ← content_heading, List.isEmpty_iff.1 h]
      rfl
    · split <;>
        simp only [Doc.ink_andThen, Doc.ink_word, sift_contentSieve, content_heading, ink_lit, litInks, Doc.ink_nested,
          Doc.ink_grouped, hlist] <;> simp

theorem declaratorInk (env : Env) (name init : Option Printed) (isArray byRef isSpread isDefault : Bool) :
    (declarator env name isArray byRef isSpread init isDefault).ink contentSieve =
      (if isArray then mark "*" else []) ++ (if byRef then mark "&" else []) ++ name.toList.flatMap Printed.ink ++
        (if isSpread then mark "..." else []) ++
        (if init.isNone then [] else if isDefault then mark ":" else mark "=") ++ init.toList.flatMap Printed.ink := by
  have hdoc : ((if isArray then Doc.lit "*" else Doc.nil) ++ (if byRef then Doc.lit "&" else Doc.nil) ++
      (name.map Printed.full).getD .nil ++ if isSpread then Doc.lit "..." else Doc.nil).ink contentSieve =
      (if isArray then mark "*" else []) ++ (if byRef then mark "&" else []) ++ name.toList.flatMap Printed.ink ++
        (if isSpread then mark "..." else []) := by
    cases name <;> cases isArray <;> cases byRef <;> cases isSpread <;>
      simp [litInks]
  cases init with
  | none =>
    simp only [declarator, hdoc]
    simp
  | some p =>
    simp only [declarator]
    split
    · simp only [Doc.ink_andThen _ _ (Doc.lit ": "), Doc.ink_andThen _ _ p.full, hdoc, fullInk, ink_lit, litInks]
      simp
    · simp only [Doc.ink_andThen _ _ (Doc.lit " ="), Doc.ink_andThen _ _ (value env p), hdoc, valueInk,
        ink_lit, litInks]
      simp

theorem functionInk (env : Env) (modifiers : List Lexeme) (typeName : Option Lexeme) (isArray : Bool) (name : Doc)
    (params : List Printed) (body : Option Printed) :
    (function env modifiers typeName isArray name params body).ink contentSieve =
      headingInk modifiers typeName ++ (if isArray then mark "*" else []) ++ name.ink contentSieve ++ mark "(" ++
        params.flatMap Printed.ink ++ mark ")" ++ body.toList.flatMap Printed.ink := by
  have hhead : (if (heading modifiers typeName).isEmpty then Doc.nil
      else Doc.word (heading modifiers typeName) ++ Doc.lit " ").ink contentSieve = headingInk modifiers typeName := by
    split
    · next h =>
      rw [← content_heading, List.isEmpty_iff.1 h]
      rfl
    · simp [litInks]
  have hstar (d : Doc) : (if isArray then d ++ Doc.lit "*" else d).ink contentSieve =
      d.ink contentSieve ++ (if isArray then mark "*" else []) := by
    cases isArray <;> simp [litInks]
  have hparams (d : Doc) : (if params.isEmpty then d ++ Doc.lit "()"
      else d ++ env.bracketed "(" (commaList Doc.line params) ")").ink contentSieve =
      d.ink contentSieve ++ mark "(" ++ params.flatMap Printed.ink ++ mark ")" := by
    split
    · next h => simp [litInks, List.isEmpty_iff.1 h]
    · simp [litInks, commaListInk (Doc.ink_line _)]
  cases body with
  | none =>
    simp only [function, Doc.ink_andThen, hparams, hstar, hhead, ink_lit, litInks]
    simp
  | some p =>
    simp only [function, Doc.ink_andThen, hparams, hstar, hhead, ink_lit, litInks, fullInk]
    simp

theorem structDefInk (env : Env) (span : Span) (name : Doc) (members : List Printed) :
    (structDef env span name members).ink contentSieve =
      content (structWord env.source span) ++ name.ink contentSieve ++ mark "\x7b" ++ members.flatMap Printed.ink ++
        mark "\x7d" := by
  simp only [structDef, structWord]
  split
  · next h =>
    simp [List.isEmpty_iff.1 h, litInks]
  · simp [litInks, joinFullInk (Doc.ink_line _)]

theorem inheritInk (modifiers : List Lexeme) (argument : Doc) :
    (inherit modifiers argument).ink contentSieve =
      headingInk modifiers none ++ mark "inherit" ++ argument.ink contentSieve := by
  simp only [inherit]
  split
  · next h =>
    rw [← content_heading, List.isEmpty_iff.1 h]
    simp [litInks]
    rfl
  · simp [litInks]

/-! ## Whole trees -/

/-- a preprocessor line prints the same characters whatever its indentation -/
theorem directiveInk (indentation : Int) (name : Lexeme) (key : Option Lexeme) (args : List Lexeme) :
    (directive indentation name key args).ink contentSieve = (directive 0 name key args).ink contentSieve := by
  cases key with
  | none =>
    simp only [directive]
    split <;> simp
  | some key =>
    simp only [directive]
    split <;> simp

/-- **A printed node has the ink of the node**: every part is printed once and in order, at every place. -/
theorem ink_print (env : Env) (n : Node) (place : Place) : (print env place n).ink = n.ink env.source := by
  induction n using Node.partsInduction generalizing place with
  | mk span shape suffix ih =>
    have hall {ns : List Node} (hns : ∀ k ∈ ns, ∀ place, (print env place k).ink = k.ink env.source)
        (place : Place) : (ns.map (print env place)).flatMap Printed.ink = ns.flatMap (Node.ink env.source) := by
      rw [List.flatMap_map]
      exact List.flatMap_congr fun k hk => hns k hk place
    have hopt {o : Option Node} (ho : ∀ k ∈ o.toList, ∀ place, (print env place k).ink = k.ink env.source)
        (place : Place) :
        (o.map (print env place)).toList.flatMap Printed.ink = o.toList.flatMap (Node.ink env.source) := by
      rw [Option.toList_map]
      exact hall ho place
    have hnode (p : Place) (d : Doc) : (⟨.mk span shape suffix, p.slot, d⟩ : Printed).ink =
        d.ink contentSieve ++ suffix.toList.flatMap Comment.ink := by
      simp [Printed.ink, Node.suffix]
    simp only [print, hnode, Node.ink]
    congr 1
    cases shape <;> simp only [Shape.parts, List.forall_mem_append, List.forall_mem_cons, List.cons_append] at ih <;>
      simp only [layout, printAll_eq_map, print?_eq_map, Shape.ink, Node.inks_eq_flatMap, Node.ink?_eq_flatMap]
    case directive name key args => exact directiveInk _ _ _ _
    case spread a => simp [ih.1, litInks]
    case call callee args => rw [callInk, hall ih.2, fullInk, ih.1]
    case member object property dot => cases dot <;> simp [ih.1, ih.2.1, litInks]
    case index object indexor => simp [index, ih.1, ih.2.1, litInks]
    case indexor parts => simpa [List.flatMap_map] using hall ih _
    case indexMark mark => cases mark <;> simp [indexMark, litInks, IndexMark.ink]
    case parentAccess scope member =>
      cases scope with
      | none => simp [ih.2.1, litInks]
      | some s => simp [ih.1 s (by simp), ih.2.1, litInks]
    case binary left op right implied => cases implied <;> simp [binaryishInk, ih.1, ih.2.1, litInks]
    case logical left op right => simp [binaryishInk, ih.1, ih.2.1, litInks]
    case ternary test consequent alternate => simp [ternary, ih.1, ih.2.1, ih.2.2.1, litInks]
    case assignment left op right => simp [assignmentInk, hopt ih.2, ih.1]
    case unary op a => rw [unaryInk, ih.1]
    case typeCast typeName isArray a => rw [typeCastInk, fullInk, ih.1]
    case paren items => rw [parenInk, hall ih]
    case multiExpression items => rw [Doc.ink_grouped, commaListInk (Doc.ink_line _), hall ih]
    case range first last => simp [range, ih.1, ih.2.1, litInks]
    case array elements => rw [arrayInk, hall ih]
    case mapping pairs => rw [mappingInk, hall ih]
    case mappingPair key values => simp [mappingPairInk, hall ih.2, ih.1]
    case structLiteral name items => rw [structLiteralInk, hall ih]
    case inlineClosure items => rw [inlineClosureInk, hall ih]
    case lambda args code => simp [lambda, ih.1, ih.2.1, litInks]
    case varDecl modifiers typeName declarators => rw [varDeclInk, hall ih]
    case declarator name isArray byRef isSpread init isDefault =>
      rw [declaratorInk, hopt ih.1, hopt ih.2, Option.isNone_map]
    case function modifiers typeName isArray name params body =>
      rw [functionInk, hall ih.2.1, hopt ih.2.2, fullInk, ih.1]
    case structDef name members => rw [structDefInk, hall ih.2, fullInk, ih.1]
    case inherit modifiers a => rw [inheritInk, fullInk, ih.1]
    case codeBlock openComment items => rw [codeBlockInk, hall ih]
    case ifElse test consequent alternate =>
      rw [ifElseInk, hopt ih.2.2, fullInk, ih.1, ih.2.1, Option.isNone_map]
    case switch test cases => rw [switchInk, hall ih.2, fullInk, ih.1]
    case switchCase test body => rw [switchCaseInk, hopt ih.1, hall ih.2, Option.isNone_map]
    case forLoop init test update body =>
      rw [forLoopInk, hopt ih.1.1.1, hopt ih.1.1.2, hopt ih.1.2, ih.2.1]
    case foreachLoop vars iterable body =>
      have hvars (p : Place) : (vars.map (print env p)).map Printed.node = vars := by
        simp [Function.comp_def, node_print]
      rw [foreachLoopInk, hall ih.1, hvars, node_print, ih.2.1, ih.2.2.1]
    case whileLoop test body => simp [whileLoop, headerInk, ih.1, ih.2.1, litInks]
    case doWhile body test => rw [doWhileInk, fullInk, ih.1, ih.2.1]
    case returnValue a => rw [returnValueInk, hopt ih]
    case jump kind => cases kind <;> simp [jump, litInks, Jump.ink]
    case comment kind text => rfl
    all_goals simp

end Style

/-- **Every layout of a document has the ink of its tree**, if no preprocessor line stands in it. -/
theorem content_lays (d : Document) (options : Options) (h : ∀ n ∈ d.roots, n.DirectiveFree) {t : List Char}
    (hlays : (Style.sourceFile ⟨options, d.text, d.forest⟩ d.roots).Lays false t) :
    content (Layout.finish options.useTabs options.tabWidth t) = d.roots.flatMap (Node.ink d.text) := by
  have heven : (Style.sourceFile ⟨options, d.text, d.forest⟩ d.roots).Even contentSieve := by
    simp only [Style.sourceFile]
    split
    · trivial
    · have hroots : ∀ p ∈ d.roots.map (Style.print ⟨options, d.text, d.forest⟩ .listed), p.bare.Even contentSieve := by
        simpa using fun n hn => Style.even_print _ n (.inr (h n hn)) _
      simp [Style.even_statements hroots]
  rw [content, contentSieve.sift_finish, Doc.sift_lays _ heven hlays]
  simp only [Style.sourceFile]
  split
  · next hempty => simp [List.isEmpty_iff.1 hempty]
  · simp [List.flatMap_map, Style.ink_print]

/-- **The finished text of a document has the ink of its tree**: neither the width nor any other option adds a character
or drops one. -/
theorem content_print (d : Document) (options : Options) (h : ∀ n ∈ d.roots, n.DirectiveFree) :
    content (d.print options) = d.roots.flatMap (Node.ink d.text) :=
  content_lays d options h (Doc.lays_render _ _)

end LpcStyle
