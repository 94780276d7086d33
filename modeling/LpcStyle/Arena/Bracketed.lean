import LpcStyle.Arena.Sequence
import LpcStyle.Grammar.Bracketed

/-!
Forms between brackets in the store: text blocks, parentheses, struct literals, arrays, mappings, indices, closures and
lambdas.
-/

namespace LpcStyle.Arena

open Text LpcStyle.Parser Builder
open Store (Key)

/-- `@MARKER ... MARKER` -/
def textBlock : Builder Key := do
  let start ← reading (expect .textBlockStart .textBlock)
  let body ← reading (expect .textBlockBody .textBlockBody)
  let stop ← reading (expect .textBlockEnd .textBlockMarker)
  build start.span.start stop.span.stop (.textBlock (start.text ++ body.text ++ stop.text))

/-- a value of a struct literal, or `member: value` -/
def structItem (rules : Rules) : Builder Key := do
  let key ← rules.expression
  if !(← cell key).shape.isIdentifier then return key
  else
    match ← reading (eat? .colon) with
    | none => return key
    | some _ =>
      let value ← rules.expression
      build (← startOf key) (← stopOf value) (.mappingPair key [value])

/-- expressions in parentheses, or a struct literal if they open with `<name>` -/
def paren (rules : Rules) : Builder Key := do
  let start ← reading (expect .parenStart (.mark "("))
  match ← reading (eat? .structType) with
  | some name =>
    let (items, close) ← delimited .parenEnd ")" (structItem rules)
    build start.span.start close.span.stop (.structLiteral (.ofToken name) items)
  | none =>
    let (items, close) ← delimited .parenEnd ")" rules.expression
    build start.span.start close.span.stop (.paren items)

def array (rules : Rules) : Builder Key := do
  let start ← reading (expect .arrayStart (.mark "(\x7b"))
  let (elements, close) ← delimited .arrayEnd "\x7d)" rules.expression
  build start.span.start close.span.stop (.array elements)

def valueRound (rules : Rules) (values : List Key) : Builder (List Key ⊕ List Key) := do
  match ← reading (eat? .semicolon) with
  | some _ => return .inl ((← rules.expression) :: values)
  | none => return .inr values

/-- `key: value; value`, or a key alone -/
def mappingPair (rules : Rules) : Builder Key := do
  let key ← rules.expression
  match ← reading (eat? .colon) with
  | none => build (← startOf key) (← stopOf key) (.mappingPair key [])
  | some _ =>
    let first ← rules.expression
    let values ← loop [first] (valueRound rules)
    build (← startOf key) (← stopOf (values.headD first)) (.mappingPair key values.reverse)

def mapping (rules : Rules) : Builder Key := do
  let start ← reading (expect .mappingStart (.mark "(["))
  let (pairs, close) ← delimited .mappingEnd "])" (mappingPair rules)
  build start.span.start close.span.stop (.mapping pairs)

def indexRound (rules : Rules) (parts : List Key) : Builder (List Key ⊕ List Key) := do
  let token ← reading peek
  if token.kind = .indexEnd then return .inr parts
  else
    match Grammar.indexMark? token.kind with
    | some mark =>
      let _ ← reading take
      return .inl ((← leaf token (.indexMark mark)) :: parts)
    | none => return .inl ((← rules.expression) :: parts)

/-- an index after the object it is taken of -/
def index (rules : Rules) (object : Key) : Builder Key := do
  let start ← reading (expect .indexStart (.mark "["))
  let parts ← loop [] (indexRound rules)
  let close ← reading (expect .indexEnd (.mark "]"))
  let indexor ← build start.span.start close.span.stop (.indexor parts.reverse)
  build (← startOf object) close.span.stop (.index object indexor)

/-- one item of a closure: a statement, or an expression whose semicolon may be missing -/
def closureItem (rules : Rules) (kind : Kind) : Builder Key := do
  if Grammar.closureStatements.contains kind then rules.statement .block
  else
    let item ← rules.expression
    let _ ← reading (eat? .semicolon)
    return item

def closureRound (rules : Rules) (items : List Key) : Builder (List Key ⊕ List Key) := do
  match (← reading raw).kind with
  | .lineComment | .blockComment => return .inl (← listComment items)
  | .blankLines =>
    let _ ← reading takeRaw
    return .inl items
  | .closureEnd => return .inr items
  | .semicolon =>
    let _ ← reading take
    return .inl items
  | kind => return .inl (← addItem items (← closureItem rules kind))

/-- `(: ... :)` -/
def inlineClosure (rules : Rules) : Builder Key := do
  let start ← reading (expect .closureStart (.mark "(:"))
  let items ← loop [] (closureRound rules)
  let close ← reading (expect .closureEnd (.mark ":)"))
  build start.span.start close.span.stop (.inlineClosure items.reverse)

/-- `lambda(args, code)` -/
def lambda (rules : Rules) : Builder Key := do
  let start ← reading (expect .lambdaStart (.mark "lambda("))
  let args ← rules.expression
  let _ ← reading (expect .comma (.mark ","))
  let code ← rules.expression
  let close ← reading (expect .lambdaEnd (.mark ")"))
  build start.span.start close.span.stop (.lambda args code)

end LpcStyle.Arena
