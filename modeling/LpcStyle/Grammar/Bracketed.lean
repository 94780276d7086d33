import LpcStyle.Grammar.Sequence
import LpcStyle.Token.KindSet

/-!
Forms between brackets: text blocks, parentheses, struct literals, arrays, mappings, indices, closures and lambdas.
-/

namespace LpcStyle.Grammar

open Text LpcStyle.Parser

/-- `@MARKER ... MARKER` -/
def textBlock : Parser Node := do
  let start ← expect .textBlockStart .textBlock
  let body ← expect .textBlockBody .textBlockBody
  let stop ← expect .textBlockEnd .textBlockMarker
  build start.span.start stop.span.stop (.textBlock (start.text ++ body.text ++ stop.text))

/-- a value of a struct literal, or `member: value` -/
def structItem (rules : Rules) : Parser Node := do
  let key ← rules.expression
  if !key.shape.isIdentifier then return key
  match ← eat? .colon with
  | none => return key
  | some _ =>
    let value ← rules.expression
    build key.start value.stop (.mappingPair key [value])

/-- expressions in parentheses, or a struct literal if they open with `<name>` -/
def paren (rules : Rules) : Parser Node := do
  let start ← expect .parenStart (.mark "(")
  match ← eat? .structType with
  | some name =>
    let (items, close) ← delimited .parenEnd ")" (structItem rules)
    build start.span.start close.span.stop (.structLiteral (.ofToken name) items)
  | none =>
    let (items, close) ← delimited .parenEnd ")" rules.expression
    build start.span.start close.span.stop (.paren items)

def array (rules : Rules) : Parser Node := do
  let start ← expect .arrayStart (.mark "(\x7b")
  let (elements, close) ← delimited .arrayEnd "\x7d)" rules.expression
  build start.span.start close.span.stop (.array elements)

/-- expressions with semicolons between them, newest first, after those given -/
def moreValues (rules : Rules) (values : List Node) : Parser (List Node) :=
  loop values fun values => do
    match ← eat? .semicolon with
    | some _ => return .inl ((← rules.expression) :: values)
    | none => return .inr values

/-- `key: value; value`, or a key alone -/
def mappingPair (rules : Rules) : Parser Node := do
  let key ← rules.expression
  match ← eat? .colon with
  | none => build key.start key.stop (.mappingPair key [])
  | some _ =>
    let first ← rules.expression
    let values ← moreValues rules [first]
    build key.start (values.headD first).stop (.mappingPair key values.reverse)

def mapping (rules : Rules) : Parser Node := do
  let start ← expect .mappingStart (.mark "([")
  let (pairs, close) ← delimited .mappingEnd "])" (mappingPair rules)
  build start.span.start close.span.stop (.mapping pairs)

/-- the mark that a token is inside an index -/
def indexMark? : Kind → Option IndexMark
  | .fromEnd => some .fromEnd
  | .range => some .range
  | .comma => some .comma
  | _ => none

/-- an index after the object it is taken of -/
def index (rules : Rules) (object : Node) : Parser Node := do
  let start ← expect .indexStart (.mark "[")
  let parts ← loop [] fun parts => do
    let token ← peek
    if token.kind = .indexEnd then return .inr parts
    else
      match indexMark? token.kind with
      | some mark =>
        let _ ← take
        return .inl (leaf token (.indexMark mark) :: parts)
      | none => return .inl ((← rules.expression) :: parts)
  let close ← expect .indexEnd (.mark "]")
  let indexor ← build start.span.start close.span.stop (.indexor parts.reverse)
  build object.start close.span.stop (.index object indexor)

/-- what starts a full statement inside a closure -/
def closureStatements : KindSet :=
  .ofList [.ifWord, .whileWord, .doWord, .forWord, .foreachWord, .switchWord, .returnWord, .breakWord,
    .continueWord, .modifier, .typeWord]

/-- one item of a closure: a statement, or an expression whose semicolon may be missing -/
def closureItem (rules : Rules) (kind : Kind) : Parser Node := do
  if closureStatements.contains kind then rules.statement .block
  else
    let node ← rules.expression
    let _ ← eat? .semicolon
    return node

/-- `(: ... :)` -/
def inlineClosure (rules : Rules) : Parser Node := do
  let start ← expect .closureStart (.mark "(:")
  let items ← loop [] fun items => do
    match (← raw).kind with
    | .lineComment | .blockComment => return .inl (← listComment items)
    | .blankLines =>
      let _ ← takeRaw
      return .inl items
    | .closureEnd => return .inr items
    | .semicolon =>
      let _ ← take
      return .inl items
    | kind => return .inl (← addItem items (← closureItem rules kind))
  let close ← expect .closureEnd (.mark ":)")
  build start.span.start close.span.stop (.inlineClosure items.reverse)

/-- `lambda(args, code)` -/
def lambda (rules : Rules) : Parser Node := do
  let start ← expect .lambdaStart (.mark "lambda(")
  let args ← rules.expression
  let _ ← expect .comma (.mark ",")
  let code ← rules.expression
  let close ← expect .lambdaEnd (.mark ")")
  build start.span.start close.span.stop (.lambda args code)

end LpcStyle.Grammar
