import LpcStyle.Arena.Bracketed
import LpcStyle.Grammar.Expression

/-!
Expressions in the store.
-/

namespace LpcStyle.Arena

open Text LpcStyle.Parser Builder
open Store (Key)

def name : Builder Key := do
  if ← reading Grammar.atName then
    let token ← reading take
    leaf token (.identifier token.text)
  else reading (wanted .name)

/-- a token that is an operand by itself -/
def whole (token : Token) (shape : Shape Key) : Builder Key := do
  let _ ← reading take
  leaf token shape

/-- an operand without operators before or after it -/
def primary (rules : Rules) : Builder Key := do
  let token ← reading peek
  match token.kind with
  | .number => whole token (.literal .number token.text)
  | .string => whole token (.literal .string token.text)
  | .char => whole token (.literal .char token.text)
  | .symbol => whole token (.literal .symbol token.text)
  | .name => name
  | .typeWord => if Words.isTypeAllowedAsName token.text then name else reading (wanted .expression)
  | .closureArgument => whole token (.identifier token.text)
  | .closureSymbol => whole token (.closureSymbol token.text)
  | .closureIndex => whole token (.closureIndex token.text)
  | .doubleColon =>
    let _ ← reading take
    let member ← name
    build token.span.start (← stopOf member) (.parentAccess none member)
  | .textBlockStart => textBlock
  | .parenStart => paren rules
  | .arrayStart => array rules
  | .mappingStart => mapping rules
  | .closureStart => inlineClosure rules
  | .lambdaStart => lambda rules
  | _ => reading (wanted .expression)

def call (rules : Rules) (callee : Key) : Builder Key := do
  let _ ← reading (expect .parenStart (.mark "("))
  let (args, close) ← delimited .parenEnd ")" rules.argument
  build (← startOf callee) close.span.stop (.call callee args)

/-- a member after its object: a name, a call, or an expression in parentheses -/
def member (rules : Rules) (object : Key) : Builder Key := do
  let dot := (← reading take).kind = .dot
  let property ←
    if ← reading (at? .parenStart) then paren rules
    else
      let property ← name
      if ← reading (at? .parenStart) then call rules property else pure property
  build (← startOf object) (← stopOf property) (.member object property dot)

def trailerRound (rules : Rules) (left : Key) : Builder (Key ⊕ Key) := do
  let token ← reading peek
  match token.kind with
  | .parenStart =>
    if Grammar.isCallable (← cell left).shape then return .inl (← call rules left) else return .inr left
  | .indexStart => return .inl (← index rules left)
  | .arrow | .dot => return .inl (← member rules left)
  | .doubleColon =>
    if (← cell left).shape.isIdentifier then
      let _ ← reading take
      let member ← name
      return .inl (← build (← startOf left) (← stopOf member) (.parentAccess (some left) member))
    else return .inr left
  | .assignOp =>
    if Grammar.isStep token then
      let _ ← reading take
      return .inl (← build (← startOf left) token.span.stop (.assignment left (.ofToken token) none))
    else return .inr left
  | .ellipsis =>
    let _ ← reading take
    return .inl (← build (← startOf left) token.span.stop (.spread left))
  | _ => return .inr left

/-- calls, indices, members and the other things that follow an operand -/
def trailers (rules : Rules) (operand : Key) : Builder Key := loop operand (trailerRound rules)

def joinRound (rules : Rules) (left : Key) : Builder (Key ⊕ Key) := do
  let kind ← reading peekKind
  if Grammar.joins (← cell left).shape kind then
    let right ← trailers rules (← primary rules)
    let stop ← stopOf left
    return .inl (← build (← startOf left) (← stopOf right) (.binary left ⟨.empty stop, []⟩ right true))
  else return .inr left

/-- joins adjacent string pieces by an operator without text -/
def joined (rules : Rules) (operand : Key) : Builder Key := loop operand (joinRound rules)

/-- an operand with the operators and casts before it and all that follows it -/
def operand (rules : Rules) : Builder Key := do
  let token ← reading peek
  if token.kind = .typeCast then
    let _ ← reading take
    let argument ← rules.operand
    build token.span.start (← stopOf argument)
      (.typeCast (Grammar.castType token) (token.text.contains '*') argument)
  else if Grammar.isPrefixOperator token then
    let _ ← reading take
    let argument ← rules.operand
    build token.span.start (← stopOf argument) (.unary (.ofToken token) argument)
  else trailers rules (← primary rules)

def tighterRound (rules : Rules) (rank : Nat) (right : Key) : Builder (Key ⊕ Key) := do
  match Grammar.rank? (← reading peek) with
  | some next => if rank < next then return .inl (← rules.climb right (rank + 1)) else return .inr right
  | none => return .inr right

/-- takes in operators that bind tighter than the rank -/
def tighter (rules : Rules) (rank : Nat) (right : Key) : Builder Key := loop right (tighterRound rules rank)

def climbRound (rules : Rules) (min : Nat) (left : Key) : Builder (Key ⊕ Key) := do
  match Grammar.rank? (← reading peek) with
  | some rank =>
    if min ≤ rank then
      let op ← reading take
      let right ← joined rules (← rules.operand)
      let right ← tighter rules rank right
      let shape : Shape Key :=
        if op.kind = .logicalOp then .logical left (.ofToken op) right
        else .binary left (.ofToken op) right false
      return .inl (← build (← startOf left) (← stopOf right) shape)
    else return .inr left
  | none => return .inr left

/-- the operators after a left operand that bind at least as tight as `min` -/
def climb (rules : Rules) (left : Key) (min : Nat) : Builder Key := loop left (climbRound rules min)

/-- both branches are full expressions -/
def ternary (rules : Rules) (test : Key) : Builder Key := do
  match ← reading (eat? .question) with
  | none => return test
  | some _ =>
    let consequent ← rules.expression
    let _ ← reading (expect .colon (.mark ":"))
    let alternate ← rules.expression
    build (← startOf test) (← stopOf alternate) (.ternary test consequent alternate)

def assignment (rules : Rules) (left : Key) : Builder Key := do
  let token ← reading peek
  if token.kind = .assignOp && !Grammar.isStep token then
    let op ← reading take
    let right ← rules.expression
    build (← startOf left) (← stopOf right) (.assignment left (.ofToken op) (some right))
  else return left

/-- the rest of an expression after its first operand -/
def afterOperand (rules : Rules) (left : Key) : Builder Key := do
  assignment rules (← ternary rules (← climb rules (← joined rules left) 0))

def expression (rules : Rules) : Builder Key := do afterOperand rules (← operand rules)

/-- an expression that starts with a name read already -/
def expressionFrom (rules : Rules) (left : Key) : Builder Key := do
  afterOperand rules (← trailers rules left)

end LpcStyle.Arena
