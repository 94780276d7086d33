import LpcStyle.Arena.Expression
import LpcStyle.Grammar.Declaration

/-!
Declarations of variables, parameters, functions and structs in the store.
-/

namespace LpcStyle.Arena

open Text LpcStyle.Parser Builder
open Store (Key)

/-- what may stand between the start of a declarator and its value -/
structure DeclaratorHead where
  start : Nat
  stop : Nat
  name : Option Key
  isArray : Bool
  byRef : Bool

/-- the rest of a declarator: an ellipsis and a value, which may follow a colon if `allowDefault` -/
def declaratorRest (rules : Rules) (head : DeclaratorHead) (allowDefault : Bool) : Builder Key := do
  let ellipsis ← reading (eat? .ellipsis)
  let stop := (ellipsis.map (·.span.stop)).getD head.stop
  let shape (init : Option Key) (isDefault : Bool) : Shape Key :=
    .declarator head.name head.isArray head.byRef ellipsis.isSome init isDefault
  let hasValue ← do
    if ← reading (atText? .assignOp "=") then pure true
    else if allowDefault then reading (at? .colon) else pure false
  if hasValue then
    let isDefault := (← reading take).kind = .colon
    let value ← rules.expression
    build head.start (← stopOf value) (shape (some value) isDefault)
  else build head.start stop (shape none false)

def declarator (rules : Rules) (allowDefault : Bool) : Builder Key := do
  let start := (← reading peek).span.start
  let star ← reading (eat? .star)
  let ampersand ← reading Grammar.eatAmpersand?
  let marksStop := ((ampersand.or star).map (·.span.stop)).getD start
  let head (stop : Nat) (name : Option Key) : DeclaratorHead :=
    ⟨start, stop, name, star.isSome, ampersand.isSome⟩
  if ← reading Grammar.atName then
    let name ← name
    declaratorRest rules (head (← stopOf name) (some name)) allowDefault
  else
    if marksStop = start && !(← reading (at? .ellipsis)) then reading (wanted .variableName)
    declaratorRest rules (head marksStop none) allowDefault

def declaratorRound (rules : Rules) (comments : Bool) (found : Key × List Key) :
    Builder ((Key × List Key) ⊕ (Key × List Key)) := do
  let (last, before) := found
  match ← reading (eat? .comma) with
  | some _ =>
    if comments then trailingComment last
    return .inl (← declarator rules false, last :: before)
  | none => return .inr (last, before)

/-- the declarators after a comma, newest first, after those given. With `comments`, a comment right after the comma
belongs to the declarator before it -/
def moreDeclarators (rules : Rules) (comments : Bool) (first : Key) : Builder (Key × List Key) :=
  loop (first, []) (declaratorRound rules comments)

/-- `int i = 0, j` in the head of a loop -/
def localDeclaration (rules : Rules) : Builder Key := do
  let start := (← reading peek).span.start
  let modifiers ← reading Grammar.modifiers
  let first ← reading (expect .typeWord .typeWord)
  let typeName ← reading (Grammar.typeFrom first)
  let (last, before) ← moreDeclarators rules false (← declarator rules false)
  build start (← stopOf last) (.varDecl modifiers (some typeName) (last :: before).reverse)

/-- a parameter of a function, a loop variable, or an argument of a prototype -/
def parameter (rules : Rules) : Builder Key := do
  let start := (← reading peek).span.start
  let modifiers ← reading Grammar.modifiers
  let first ← reading (expect .typeWord .typeWord)
  if ← reading (Grammar.isTypeUsedAsName modifiers first) then
    expressionFrom rules (← leaf first (.identifier first.text))
  else
    let typeName ← reading (Grammar.typeFrom first)
    if ← reading Grammar.atDeclarator then
      let declarator ← declarator rules true
      build start (← stopOf declarator) (.varDecl modifiers (some typeName) [declarator])
    else build start typeName.span.stop (.varDecl modifiers (some typeName) [])

/-- an argument of a call: a declaration inside a prototype, otherwise an expression -/
def argument (rules : Rules) : Builder Key := do
  match ← reading peekKind with
  | .modifier | .typeWord => parameter rules
  | _ => expression rules

/-- a block, with a comment that stands before or right after its opening brace -/
def block (rules : Rules) (opener : Option Key) : Builder Key := do
  let start ← reading (expect .leftBrace (.mark "\x7b"))
  let r := (← get).reading
  let opener ← if opener.isNone && r.raw.kind.isComment && !r.onOwnLine then some <$> takeComment else pure opener
  let statements ← statementList rules .block [.rightBrace]
  let close ← reading (expect .rightBrace (.mark "\x7d"))
  let span ← reading (spanning start.span.start close.span.stop)
  alloc { span, shape := .codeBlock none statements, opener }

/-- the block of a function; the first comment before it opens it -/
def functionBody (rules : Rules) : Builder Key := do
  if !(← reading (at? .leftBrace)) then reading (wanted .blockOrSemicolon)
  let parked ← takeParked
  parked.tail.forM park
  block rules parked.head?

/-- a function from its parameters on: a prototype, or a definition, which must stand in a file -/
def function (rules : Rules) (scope : Scope) (head : Grammar.DeclarationHead) (name : Key) : Builder Key := do
  let _ ← reading (expect .parenStart (.mark "("))
  let (params, close) ← delimited .parenEnd ")" rules.argument
  let shape (body : Option Key) : Shape Key :=
    .function head.modifiers head.typeName head.isArray name params body
  match ← reading (eat? .semicolon) with
  | some _ => build head.start close.span.stop (shape none)
  | none =>
    if scope ≠ .file then reading (refuse .nestedFunction (← cell name).span)
    let body ← functionBody rules
    build head.start (← stopOf body) (shape (some body))

def structDefinition (rules : Rules) (start : Nat) (name : Token) : Builder Key := do
  let name ← leaf name (.identifier name.text)
  let _ ← reading (expect .leftBrace (.mark "\x7b"))
  let members ← statementList rules .block [.rightBrace]
  let close ← reading (expect .rightBrace (.mark "\x7d"))
  let _ ← reading (eat? .semicolon)
  build start close.span.stop (.structDef name members)

def inherit (rules : Rules) (modifiers : List Lexeme) (start : Nat) : Builder Key := do
  let _ ← reading (expect .inheritWord (.mark "inherit"))
  let argument ← rules.expression
  let semicolon ← reading (expect .semicolon (.mark ";"))
  build start semicolon.span.stop (.inherit modifiers argument)

/-- a function or variables, from the name on -/
def declared (rules : Rules) (scope : Scope) (start : Nat) (modifiers : List Lexeme) (typeName : Option Lexeme) :
    Builder Key := do
  let nameStart := (← reading peek).span.start
  let isArray := (← reading (eat? .star)).isSome
  let byRef := (← reading Grammar.eatAmpersand?).isSome
  let name ← name
  if !byRef && (← reading (at? .parenStart)) then function rules scope ⟨start, modifiers, typeName, isArray⟩ name
  else
    let first ← declaratorRest rules ⟨nameStart, ← stopOf name, some name, isArray, byRef⟩ false
    let (last, before) ← moreDeclarators rules true first
    reading Grammar.statementEnd
    build start (← stopOf last) (.varDecl modifiers typeName (last :: before).reverse)

/-- a statement that starts with modifiers or a type -/
def declaration (rules : Rules) (scope : Scope) : Builder Key := do
  let start := (← reading peek).span.start
  let modifiers ← reading Grammar.modifiers
  match ← reading peekKind with
  | .inheritWord => inherit rules modifiers start
  | .typeWord =>
    let first ← reading take
    if ← reading (Grammar.isTypeUsedAsName modifiers first) then
      let item ← expressionFrom rules (← leaf first (.identifier first.text))
      reading Grammar.statementEnd
      return item
    else if Grammar.isStructWord first then
      let name ← reading (expect .name .structName)
      if ← reading (at? .leftBrace) then
        match modifiers with
        | [] => structDefinition rules start name
        | modifier :: _ => reading (refuse .modifierOnStruct modifier.span)
      else declared rules scope start modifiers (some (← reading (Grammar.lexemeBetween first name)))
    else declared rules scope start modifiers (some (.ofToken first))
  | _ =>
    if modifiers.isEmpty then reading (wanted .typeWord) else declared rules scope start modifiers none

end LpcStyle.Arena
