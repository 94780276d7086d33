import LpcStyle.Style.Expression

/-!
Layout of statements and declarations, from their laid-out parts.
-/

namespace LpcStyle.Style

open Text

/-- statements one on a line. A blank line prints nothing, which leaves an empty line between its neighbours -/
def statements (items : List Printed) : Doc := Doc.join Doc.hardline (items.map Printed.full)

/-- a block with one statement that was written on one line stays there, unless it is a branch of an `if` -/
def condenses (env : Env) (slot : Slot) (span : Span) (items : List Printed) : Bool :=
  match items with
  | [item] =>
    env.options.condenseSingleStatementBlocks && slot != .ifBranch && !env.hasNewline span.start item.node.stop
  | _ => false

def codeBlock (env : Env) (slot : Slot) (span : Span) (openComment : Option Comment) (items : List Printed) : Doc :=
  let front := match openComment with
    | some c => Doc.lit "\x7b" ++ Doc.lit " " ++ comment c.kind c.text
    | none => Doc.lit "\x7b"
  if items.isEmpty then
    front ++ (if openComment.isSome then Doc.hardline else Doc.lit "  ") ++ Doc.lit "\x7d"
  else
    let separator := if condenses env slot span items then Doc.line else Doc.hardline
    let body := Doc.join separator (items.map Printed.full)
    front ++ (env.indent (separator ++ body) ++ separator).grouped ++ Doc.lit "\x7d"

/-- the body of a loop or branch: a block after a space, a bare semicolon, or a statement that may move to the next
line -/
def branch (env : Env) (body : Printed) : Doc :=
  if body.shape.isCodeBlock then Doc.lit " " ++ body.full
  else if body.shape.isPlaceholder then body.full
  else (env.indent (Doc.line ++ body.full)).grouped

/-- a keyword and its head in parentheses -/
def header (env : Env) (keyword : String) (inner : Doc) : Doc :=
  Doc.lit keyword ++ Doc.lit " " ++ env.bracketed "(" inner ")"

/-- `else` stays on the line of the closing brace of a block -/
def ifElse (env : Env) (test : Doc) (consequent : Printed) (alternate : Option Printed) : Doc :=
  let doc := header env "if" test ++ branch env consequent
  let doc := match alternate with
    | none => doc
    | some alternate =>
      let hugs := consequent.shape.isCodeBlock && !consequent.hasSuffix
      let tail := if alternate.shape.isIfElse then Doc.lit " " ++ alternate.full else branch env alternate
      doc ++ (if hugs then Doc.lit " " else Doc.hardline) ++ Doc.lit "else" ++ tail
  doc.grouped

def switch (env : Env) (test : Doc) (cases : List Printed) : Doc :=
  let head := header env "switch" test ++ Doc.lit " \x7b"
  if cases.isEmpty then head ++ Doc.hardline ++ Doc.lit "\x7d"
  else
    head ++ env.indent (Doc.hardline ++ statements cases) ++ Doc.hardline ++ Doc.lit "\x7d"

def switchCase (env : Env) (test : Option Printed) (body : List Printed) : Doc :=
  let label := match test with
    | some test => Doc.lit "case " ++ test.full ++ Doc.lit ":"
    | none => Doc.lit "default:"
  if body.isEmpty then label else label ++ env.indent (Doc.hardline ++ statements body)

def forLoop (env : Env) (init test update : Option Printed) (body : Printed) : Doc :=
  let inner := (init.map Printed.full).getD .nil ++ Doc.lit ";"
  let inner := match test with
    | some p => inner ++ Doc.line ++ p.full
    | none => inner
  let inner := inner ++ Doc.lit ";"
  let inner := match update with
    | some p => inner ++ Doc.line ++ p.full
    | none => inner
  header env "for" inner ++ branch env body

/-- the separator stays `in` or `:` as it was written -/
def foreachLoop (env : Env) (vars : List Printed) (iterable body : Printed) : Doc :=
  let varsStop := (vars.getLast?.map (·.node.stop)).getD iterable.node.start
  let written := trim (slice env.source ⟨varsStop, iterable.node.start⟩)
  let separator := if written == "in".toList then Doc.lit " in " else Doc.lit " : "
  let inner := commaList Doc.line vars ++ separator ++ iterable.full.grouped
  header env "foreach" inner ++ branch env body

def whileLoop (env : Env) (test : Doc) (body : Printed) : Doc := header env "while" test ++ branch env body

def doWhile (env : Env) (body : Printed) (test : Doc) : Doc :=
  let body :=
    if body.shape.isCodeBlock then Doc.lit " " ++ body.full ++ Doc.lit " "
    else (branch env body ++ Doc.line).grouped
  Doc.lit "do" ++ body ++ header env "while" test ++ Doc.lit ";"

def returnValue (env : Env) : Option Printed → Doc
  | none => Doc.lit "return;"
  | some argument =>
    Doc.lit "return " ++ (env.indent (Doc.softline ++ argument.full ++ Doc.lit ";")).grouped

def jump : Jump → Doc
  | .breakOff => Doc.lit "break;"
  | .goOn => Doc.lit "continue;"

/-- modifiers and the type with one space between their words -/
def heading (modifiers : List Lexeme) (typeName : Option Lexeme) : List Char :=
  join [' '] ((modifiers ++ typeName.toList).flatMap fun l => words l.text)

/-- declarators on several lines stand under the first one -/
def varDecl (modifiers : List Lexeme) (typeName : Option Lexeme) (declarators : List Printed) : Doc :=
  let head := heading modifiers typeName
  if declarators.isEmpty then Doc.word head
  else
    let separator := if declarators.any Printed.hasSuffix then Doc.hardline else Doc.line
    let list := (commaList separator declarators).grouped
    if head.isEmpty then list
    else
      let list := if 1 < declarators.length then list.nested (byteLength head + 1) else list
      Doc.word head ++ Doc.lit " " ++ list

def declarator (env : Env) (name : Option Printed) (isArray byRef isSpread : Bool) (init : Option Printed)
    (isDefault : Bool) : Doc :=
  let doc := (if isArray then Doc.lit "*" else .nil) ++ (if byRef then Doc.lit "&" else .nil) ++
    (name.map Printed.full).getD .nil ++ if isSpread then Doc.lit "..." else .nil
  match init with
  | none => doc
  | some init => if isDefault then doc ++ Doc.lit ": " ++ init.full else doc ++ Doc.lit " =" ++ value env init

def function (env : Env) (modifiers : List Lexeme) (typeName : Option Lexeme) (isArray : Bool) (name : Doc)
    (params : List Printed) (body : Option Printed) : Doc :=
  let head := heading modifiers typeName
  let doc := if head.isEmpty then .nil else Doc.word head ++ Doc.lit " "
  let doc := (if isArray then doc ++ Doc.lit "*" else doc) ++ name
  let doc := if params.isEmpty then doc ++ Doc.lit "()"
    else doc ++ env.bracketed "(" (commaList Doc.line params) ")"
  match body with
  | some body => doc ++ Doc.lit " " ++ body.full
  | none => doc ++ Doc.lit ";"

/-- a struct, on one line if it fits; its keyword is the first word of its source text -/
def structDef (env : Env) (span : Span) (name : Doc) (members : List Printed) : Doc :=
  let keyword := ((words (slice env.source span)).head?).getD "struct".toList
  let head := Doc.word keyword ++ Doc.lit " " ++ name ++ Doc.lit " \x7b"
  if members.isEmpty then head ++ Doc.lit "  \x7d;"
  else
    let members := Doc.join Doc.line (members.map Printed.full)
    head ++ (env.indent (Doc.line ++ members) ++ Doc.line).grouped ++ Doc.lit "\x7d;"

def inherit (modifiers : List Lexeme) (argument : Doc) : Doc :=
  let head := heading modifiers none
  (if head.isEmpty then .nil else Doc.word head ++ Doc.lit " ") ++ Doc.lit "inherit " ++ argument.grouped ++
    Doc.lit ";"

end LpcStyle.Style
