import LpcStyle.Grammar.Declaration

/-!
Statements.
-/

namespace LpcStyle.Grammar

open Text LpcStyle.Parser

/-- comments between the head of a statement and its body, oldest first -/
def headComments : Parser (List Comment) := do
  let found ← loop ([] : List Comment) fun found => do
    if (← raw).kind.isComment then return .inl ((← takeComment) :: found) else return .inr found
  return found.reverse

/-- an empty statement -/
def placeholder : Parser Node := do
  let semicolon ← expect .semicolon (.mark ";")
  return leaf semicolon (.literal .placeholder semicolon.text)

/-- the body of a loop or a branch: a block, a lone semicolon, or one statement. The first comment before a block opens
it; all others are parked -/
def body (rules : Rules) : Parser Node := do
  let comments ← headComments
  comments.tail.forM park
  if ← at? .leftBrace then block rules comments.head?
  else
    comments.head?.forM park
    if ← at? .semicolon then placeholder else rules.statement .block

/-- an expression in parentheses -/
def condition (rules : Rules) : Parser Node := do
  let _ ← expect .parenStart (.mark "(")
  let test ← rules.expression
  let _ ← expect .parenEnd (.mark ")")
  return test

/-- `else` may follow after a blank line -/
def ifElse (rules : Rules) : Parser Node := do
  let keyword ← take
  let _ ← expect .parenStart (.mark "(")
  let test ← rules.expression
  if ← at? .comma then refuse .commaInCondition (← peek).span
  let _ ← expect .parenEnd (.mark ")")
  let consequent ← trailingComment (← body rules)
  holdBlank
  if (← get).front.kind = .elseWord then
    dropHeld
    let _ ← take
    let alternate ← if ← at? .ifWord then rules.statement .block else body rules
    build keyword.span.start alternate.stop (.ifElse test consequent (some alternate))
  else build keyword.span.start consequent.stop (.ifElse test consequent none)

def whileLoop (rules : Rules) : Parser Node := do
  let keyword ← take
  let test ← condition rules
  let body ← body rules
  build keyword.span.start body.stop (.whileLoop test body)

def doWhile (rules : Rules) : Parser Node := do
  let keyword ← take
  let body ← body rules
  let _ ← expect .whileWord (.mark "while")
  let test ← condition rules
  let semicolon ← expect .semicolon (.mark ";")
  build keyword.span.start semicolon.span.stop (.doWhile body test)

/-- an expression, or several with commas between them -/
def commaList (rules : Rules) : Parser Node := do
  let first ← rules.expression
  let items ← loop [first] fun items => do
    match ← eat? .comma with
    | some _ => return .inl ((← rules.expression) :: items)
    | none => return .inr items
  match items with
  | [] | [_] => return first
  | last :: _ => build first.start last.stop (.multiExpression items.reverse)

def forLoop (rules : Rules) : Parser Node := do
  let keyword ← take
  let _ ← expect .parenStart (.mark "(")
  let init ← match ← peekKind with
    | .semicolon => pure none
    | .modifier | .typeWord => some <$> localDeclaration rules
    | _ => some <$> commaList rules
  let _ ← expect .semicolon (.mark ";")
  let test ← if ← at? .semicolon then pure none else some <$> rules.expression
  let _ ← expect .semicolon (.mark ";")
  let update ← if ← at? .parenEnd then pure none else some <$> commaList rules
  let _ ← expect .parenEnd (.mark ")")
  let body ← body rules
  build keyword.span.start body.stop (.forLoop init test update body)

/-- an expression, or a range of two -/
def maybeRange (rules : Rules) : Parser Node := do
  let first ← rules.expression
  match ← eat? .range with
  | some _ =>
    let last ← rules.expression
    build first.start last.stop (.range first last)
  | none => return first

def foreachLoop (rules : Rules) : Parser Node := do
  let keyword ← take
  let _ ← expect .parenStart (.mark "(")
  let vars ← loop [] fun vars => do
    let var ← rules.argument
    match ← eat? .comma with
    | some _ => return .inl (var :: vars)
    | none => return .inr (var :: vars)
  let _ ← expect .foreachIn .loopSeparator
  let iterable ← maybeRange rules
  let _ ← expect .parenEnd (.mark ")")
  let body ← body rules
  build keyword.span.start body.stop (.foreachLoop vars.reverse iterable body)

/-- a case ends where its last statement ends -/
def switchCase (rules : Rules) : Parser Node := do
  let keyword ← take
  let test ← if keyword.kind = .caseWord then some <$> maybeRange rules else pure none
  let colon ← expect .colon (.mark ":")
  let body ← statementList rules .block [.caseWord, .defaultWord, .rightBrace]
  build keyword.span.start ((body.getLast?.map Node.stop).getD colon.span.stop) (.switchCase test body)

def switch (rules : Rules) : Parser Node := do
  let keyword ← take
  let test ← condition rules
  let _ ← expect .leftBrace (.mark "\x7b")
  let cases ← loop [] fun cases => do
    match (← raw).kind with
    | .lineComment | .blockComment => return .inl (.ofComment (← takeComment) :: cases)
    | .blankLines =>
      let _ ← takeRaw
      return .inl cases
    | .caseWord | .defaultWord => return .inl ((← switchCase rules) :: cases)
    | _ => return .inr cases
  let close ← expect .rightBrace (.mark "\x7d")
  build keyword.span.start close.span.stop (.switch test cases.reverse)

/-- the last statement of a closure may omit its semicolon -/
def returnValue (rules : Rules) : Parser Node := do
  let keyword ← take
  let kind ← peekKind
  let argument ← if kind = .semicolon || kind = .closureEnd then pure none else some <$> rules.expression
  match ← eat? .semicolon with
  | some semicolon => build keyword.span.start semicolon.span.stop (.returnValue argument)
  | none =>
    if ← at? .closureEnd then
      build keyword.span.start ((argument.map Node.stop).getD keyword.span.stop) (.returnValue argument)
    else wanted (.mark ";")

def jump : Parser Node := do
  let keyword ← take
  let semicolon ← expect .semicolon (.mark ";")
  build keyword.span.start semicolon.span.stop (.jump (if keyword.kind = .breakWord then .breakOff else .goOn))

/-- an expression with a semicolon. In a file, a call before a block is a function without a type, and a call with
declarations as arguments is its prototype -/
def expressionStatement (rules : Rules) (scope : Scope) : Parser Node := do
  let node ← expression rules
  match node.shape with
  | .call callee args =>
    if !callee.shape.isIdentifier then
      statementEnd
      return node
    else if scope = .file && (← at? .leftBrace) then
      let body ← functionBody rules
      return .mk (← spanning node.start body.stop) (.function [] none false callee args (some body)) node.suffix
    else
      statementEnd
      if args.any (·.shape.isVarDecl) then
        return .mk node.span (.function [] none false callee args none) node.suffix
      else return node
  | _ =>
    statementEnd
    return node

def statement (rules : Rules) (scope : Scope) : Parser Node := do
  match ← peekKind with
  | .leftBrace => block rules none
  | .ifWord => ifElse rules
  | .whileWord => whileLoop rules
  | .doWord => doWhile rules
  | .forWord => forLoop rules
  | .foreachWord => foreachLoop rules
  | .switchWord => switch rules
  | .returnWord => returnValue rules
  | .breakWord | .continueWord => jump
  | .inheritWord => inherit rules [] (← peek).span.start
  | .directive => directive
  | .modifier | .typeWord => declaration rules scope
  | _ => expressionStatement rules scope

end LpcStyle.Grammar
