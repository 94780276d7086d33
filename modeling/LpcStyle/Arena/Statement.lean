import LpcStyle.Arena.Declaration
import LpcStyle.Grammar.Statement

/-!
Statements in the store.
-/

namespace LpcStyle.Arena

open Text LpcStyle.Parser Builder
open Store (Key)

def commentRound (found : List Key) : Builder (List Key ⊕ List Key) := do
  if (← reading raw).kind.isComment then return .inl ((← takeComment) :: found) else return .inr found

/-- comments between the head of a statement and its body, oldest first -/
def headComments : Builder (List Key) := do
  let found ← loop [] commentRound
  return found.reverse

/-- an empty statement -/
def placeholder : Builder Key := do
  let semicolon ← reading (expect .semicolon (.mark ";"))
  leaf semicolon (.literal .placeholder semicolon.text)

/-- the body of a loop or a branch: a block, a lone semicolon, or one statement. The first comment before a block opens
it; all others are parked -/
def body (rules : Rules) : Builder Key := do
  let comments ← headComments
  comments.tail.forM park
  if ← reading (at? .leftBrace) then block rules comments.head?
  else
    comments.head?.forM park
    if ← reading (at? .semicolon) then placeholder else rules.statement .block

/-- an expression in parentheses -/
def condition (rules : Rules) : Builder Key := do
  let _ ← reading (expect .parenStart (.mark "("))
  let test ← rules.expression
  let _ ← reading (expect .parenEnd (.mark ")"))
  return test

/-- `else` may follow after a blank line -/
def ifElse (rules : Rules) : Builder Key := do
  let keyword ← reading take
  let _ ← reading (expect .parenStart (.mark "("))
  let test ← rules.expression
  if ← reading (at? .comma) then reading (refuse .commaInCondition (← reading peek).span)
  let _ ← reading (expect .parenEnd (.mark ")"))
  let consequent ← body rules
  trailingComment consequent
  reading holdBlank
  if (← get).reading.front.kind = .elseWord then
    reading dropHeld
    let _ ← reading take
    let alternate ← if ← reading (at? .ifWord) then rules.statement .block else body rules
    build keyword.span.start (← stopOf alternate) (.ifElse test consequent (some alternate))
  else build keyword.span.start (← stopOf consequent) (.ifElse test consequent none)

def whileLoop (rules : Rules) : Builder Key := do
  let keyword ← reading take
  let test ← condition rules
  let body ← body rules
  build keyword.span.start (← stopOf body) (.whileLoop test body)

def doWhile (rules : Rules) : Builder Key := do
  let keyword ← reading take
  let body ← body rules
  let _ ← reading (expect .whileWord (.mark "while"))
  let test ← condition rules
  let semicolon ← reading (expect .semicolon (.mark ";"))
  build keyword.span.start semicolon.span.stop (.doWhile body test)

def commaRound (rules : Rules) (items : List Key) : Builder (List Key ⊕ List Key) := do
  match ← reading (eat? .comma) with
  | some _ => return .inl ((← rules.expression) :: items)
  | none => return .inr items

/-- an expression, or several with commas between them -/
def commaList (rules : Rules) : Builder Key := do
  let first ← rules.expression
  let items ← loop [first] (commaRound rules)
  match items with
  | [] | [_] => return first
  | last :: _ => build (← startOf first) (← stopOf last) (.multiExpression items.reverse)

def forLoop (rules : Rules) : Builder Key := do
  let keyword ← reading take
  let _ ← reading (expect .parenStart (.mark "("))
  let init ← match ← reading peekKind with
    | .semicolon => pure none
    | .modifier | .typeWord => some <$> localDeclaration rules
    | _ => some <$> commaList rules
  let _ ← reading (expect .semicolon (.mark ";"))
  let test ← if ← reading (at? .semicolon) then pure none else some <$> rules.expression
  let _ ← reading (expect .semicolon (.mark ";"))
  let update ← if ← reading (at? .parenEnd) then pure none else some <$> commaList rules
  let _ ← reading (expect .parenEnd (.mark ")"))
  let body ← body rules
  build keyword.span.start (← stopOf body) (.forLoop init test update body)

/-- an expression, or a range of two -/
def maybeRange (rules : Rules) : Builder Key := do
  let first ← rules.expression
  match ← reading (eat? .range) with
  | some _ =>
    let last ← rules.expression
    build (← startOf first) (← stopOf last) (.range first last)
  | none => return first

def variableRound (rules : Rules) (vars : List Key) : Builder (List Key ⊕ List Key) := do
  let var ← rules.argument
  match ← reading (eat? .comma) with
  | some _ => return .inl (var :: vars)
  | none => return .inr (var :: vars)

def foreachLoop (rules : Rules) : Builder Key := do
  let keyword ← reading take
  let _ ← reading (expect .parenStart (.mark "("))
  let vars ← loop [] (variableRound rules)
  let _ ← reading (expect .foreachIn .loopSeparator)
  let iterable ← maybeRange rules
  let _ ← reading (expect .parenEnd (.mark ")"))
  let body ← body rules
  build keyword.span.start (← stopOf body) (.foreachLoop vars.reverse iterable body)

/-- where the last of some cells ends -/
def lastStop (start : Nat) (items : List Key) : Builder Nat := do
  match items.getLast? with
  | some last => stopOf last
  | none => return start

/-- a case ends where its last statement ends -/
def switchCase (rules : Rules) : Builder Key := do
  let keyword ← reading take
  let test ← if keyword.kind = .caseWord then some <$> maybeRange rules else pure none
  let colon ← reading (expect .colon (.mark ":"))
  let body ← statementList rules .block [.caseWord, .defaultWord, .rightBrace]
  build keyword.span.start (← lastStop colon.span.stop body) (.switchCase test body)

def caseRound (rules : Rules) (cases : List Key) : Builder (List Key ⊕ List Key) := do
  match (← reading raw).kind with
  | .lineComment | .blockComment => return .inl ((← takeComment) :: cases)
  | .blankLines =>
    let _ ← reading takeRaw
    return .inl cases
  | .caseWord | .defaultWord => return .inl ((← switchCase rules) :: cases)
  | _ => return .inr cases

def switch (rules : Rules) : Builder Key := do
  let keyword ← reading take
  let test ← condition rules
  let _ ← reading (expect .leftBrace (.mark "\x7b"))
  let cases ← loop [] (caseRound rules)
  let close ← reading (expect .rightBrace (.mark "\x7d"))
  build keyword.span.start close.span.stop (.switch test cases.reverse)

/-- the last statement of a closure may omit its semicolon -/
def returnValue (rules : Rules) : Builder Key := do
  let keyword ← reading take
  let kind ← reading peekKind
  let argument ← if kind = .semicolon || kind = .closureEnd then pure none else some <$> rules.expression
  match ← reading (eat? .semicolon) with
  | some semicolon => build keyword.span.start semicolon.span.stop (.returnValue argument)
  | none =>
    if ← reading (at? .closureEnd) then
      build keyword.span.start (← lastStop keyword.span.stop argument.toList) (.returnValue argument)
    else reading (wanted (.mark ";"))

def jump : Builder Key := do
  let keyword ← reading take
  let semicolon ← reading (expect .semicolon (.mark ";"))
  build keyword.span.start semicolon.span.stop (.jump (if keyword.kind = .breakWord then .breakOff else .goOn))

/-- some of the cells are declarations -/
def anyVarDecl (items : List Key) : Builder Bool := do
  let cells ← items.mapM cell
  return cells.any (·.shape.isVarDecl)

/-- an expression with a semicolon. In a file, a call before a block is a function without a type, and a call with
declarations as arguments is its prototype; the cell of the call becomes that of the function -/
def expressionStatement (rules : Rules) (scope : Scope) : Builder Key := do
  let item ← expression rules
  match (← cell item).shape with
  | .call callee args =>
    if !(← cell callee).shape.isIdentifier then
      reading Grammar.statementEnd
      return item
    else if scope = .file && (← reading (at? .leftBrace)) then
      let body ← functionBody rules
      let start ← startOf item
      let stop ← stopOf body
      replace item (.function [] none false callee args (some body)) (← reading (spanning start stop))
      return item
    else
      let isPrototype ← anyVarDecl args
      reading Grammar.statementEnd
      if isPrototype then
        replace item (.function [] none false callee args none) (← cell item).span
        return item
      else return item
  | _ =>
    reading Grammar.statementEnd
    return item

def statement (rules : Rules) (scope : Scope) : Builder Key := do
  match ← reading peekKind with
  | .leftBrace => block rules none
  | .ifWord => ifElse rules
  | .whileWord => whileLoop rules
  | .doWord => doWhile rules
  | .forWord => forLoop rules
  | .foreachWord => foreachLoop rules
  | .switchWord => switch rules
  | .returnWord => returnValue rules
  | .breakWord | .continueWord => jump
  | .inheritWord => inherit rules [] (← reading peek).span.start
  | .directive => directive
  | .modifier | .typeWord => declaration rules scope
  | _ => expressionStatement rules scope

end LpcStyle.Arena
