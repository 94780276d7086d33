import LpcStyle.Grammar.Bracketed
import LpcStyle.Grammar.Operators

/-!
Expressions. Operators between operands are read by climbing their ranks; equal ranks group from the left.
-/

namespace LpcStyle.Grammar

open Text LpcStyle.Parser

/-- the next token can be a name: a name proper, or a type word that may be one -/
def atName : Parser Bool := do
  let token ← peek
  return token.kind = .name || token.kind = .typeWord && Words.isTypeAllowedAsName token.text

def name : Parser Node := do
  if ← atName then
    let token ← take
    return leaf token (.identifier token.text)
  else wanted .name

/-- an operand without operators before or after it -/
def primary (rules : Rules) : Parser Node := do
  let token ← peek
  let whole (shape : Shape Node) : Parser Node := do
    let _ ← take
    return leaf token shape
  match token.kind with
  | .number => whole (.literal .number token.text)
  | .string => whole (.literal .string token.text)
  | .char => whole (.literal .char token.text)
  | .symbol => whole (.literal .symbol token.text)
  | .name => name
  | .typeWord => if Words.isTypeAllowedAsName token.text then name else wanted .expression
  | .closureArgument => whole (.identifier token.text)
  | .closureSymbol => whole (.closureSymbol token.text)
  | .closureIndex => whole (.closureIndex token.text)
  | .doubleColon =>
    let _ ← take
    let member ← name
    build token.span.start member.stop (.parentAccess none member)
  | .textBlockStart => textBlock
  | .parenStart => paren rules
  | .arrayStart => array rules
  | .mappingStart => mapping rules
  | .closureStart => inlineClosure rules
  | .lambdaStart => lambda rules
  | _ => wanted .expression

/-- forms that can be called -/
def isCallable {α : Type} : Shape α → Bool
  | .identifier _ | .parentAccess .. | .paren _ | .index .. | .call .. | .member .. => true
  | _ => false

def call (rules : Rules) (callee : Node) : Parser Node := do
  let _ ← expect .parenStart (.mark "(")
  let (args, close) ← delimited .parenEnd ")" rules.argument
  build callee.start close.span.stop (.call callee args)

/-- a member after its object: a name, a call, or an expression in parentheses -/
def member (rules : Rules) (object : Node) : Parser Node := do
  let dot := (← take).kind = .dot
  let property ←
    if ← at? .parenStart then paren rules
    else
      let property ← name
      if ← at? .parenStart then call rules property else pure property
  build object.start property.stop (.member object property dot)

/-- calls, indices, members and the other things that follow an operand -/
def trailers (rules : Rules) (operand : Node) : Parser Node :=
  loop operand fun left => do
    let token ← peek
    match token.kind with
    | .parenStart =>
      if isCallable left.shape then return .inl (← call rules left) else return .inr left
    | .indexStart => return .inl (← index rules left)
    | .arrow | .dot => return .inl (← member rules left)
    | .doubleColon =>
      if left.shape.isIdentifier then
        let _ ← take
        let member ← name
        return .inl (← build left.start member.stop (.parentAccess (some left) member))
      else return .inr left
    | .assignOp =>
      if isStep token then
        let _ ← take
        return .inl (← build left.start token.span.stop (.assignment left (.ofToken token) none))
      else return .inr left
    | .ellipsis =>
      let _ ← take
      return .inl (← build left.start token.span.stop (.spread left))
    | _ => return .inr left

/-- the token continues an operand without an operator: strings, and names after strings -/
def joins {α : Type} (left : Shape α) (next : Kind) : Bool :=
  let isString := next = .string || next = .textBlockStart
  match left with
  | .literal .string _ => isString || next = .name
  | .textBlock _ | .identifier _ | .binary _ _ _ true => isString
  | _ => false

/-- joins adjacent string pieces by an operator without text -/
def joined (rules : Rules) (operand : Node) : Parser Node :=
  loop operand fun left => do
    if joins left.shape (← peekKind) then
      let right ← trailers rules (← primary rules)
      return .inl (← build left.start right.stop (.binary left ⟨.empty left.stop, []⟩ right true))
    else return .inr left

/-- the type word of a cast -/
def castType (token : Token) : Lexeme :=
  let word := token.text.dropWhile (!·.isAlpha)
  let text := word.takeWhile fun c => c.isAlphanum || c == '_'
  let start := token.span.start + (byteLength token.text - byteLength word)
  ⟨⟨start, start + byteLength text⟩, text⟩

/-- an operand with the operators and casts before it and all that follows it -/
def operand (rules : Rules) : Parser Node := do
  let token ← peek
  if token.kind = .typeCast then
    let _ ← take
    let argument ← rules.operand
    build token.span.start argument.stop (.typeCast (castType token) (token.text.contains '*') argument)
  else if isPrefixOperator token then
    let _ ← take
    let argument ← rules.operand
    build token.span.start argument.stop (.unary (.ofToken token) argument)
  else trailers rules (← primary rules)

/-- takes in operators that bind tighter than the rank -/
def tighter (rules : Rules) (rank : Nat) (right : Node) : Parser Node :=
  loop right fun right => do
    match rank? (← peek) with
    | some next => if rank < next then return .inl (← rules.climb right (rank + 1)) else return .inr right
    | none => return .inr right

/-- the operators after a left operand that bind at least as tight as `min` -/
def climb (rules : Rules) (left : Node) (min : Nat) : Parser Node :=
  loop left fun left => do
    match rank? (← peek) with
    | some rank =>
      if min ≤ rank then
        let op ← take
        let right ← joined rules (← rules.operand)
        let right ← tighter rules rank right
        let shape : Shape Node :=
          if op.kind = .logicalOp then .logical left (.ofToken op) right
          else .binary left (.ofToken op) right false
        return .inl (← build left.start right.stop shape)
      else return .inr left
    | none => return .inr left

/-- both branches are full expressions -/
def ternary (rules : Rules) (test : Node) : Parser Node := do
  match ← eat? .question with
  | none => return test
  | some _ =>
    let consequent ← rules.expression
    let _ ← expect .colon (.mark ":")
    let alternate ← rules.expression
    build test.start alternate.stop (.ternary test consequent alternate)

def assignment (rules : Rules) (left : Node) : Parser Node := do
  let token ← peek
  if token.kind = .assignOp && !isStep token then
    let op ← take
    let right ← rules.expression
    build left.start right.stop (.assignment left (.ofToken op) (some right))
  else return left

/-- the rest of an expression after its first operand -/
def afterOperand (rules : Rules) (left : Node) : Parser Node := do
  assignment rules (← ternary rules (← climb rules (← joined rules left) 0))

def expression (rules : Rules) : Parser Node := do afterOperand rules (← operand rules)

/-- an expression that starts with a name read already -/
def expressionFrom (rules : Rules) (left : Node) : Parser Node := do
  afterOperand rules (← trailers rules left)

end LpcStyle.Grammar
