import LpcStyle.Grammar.Expression

/-!
Declarations of variables, parameters, functions and structs.
-/

namespace LpcStyle.Grammar

open Text LpcStyle.Parser

def modifiers : Parser (List Lexeme) := do
  let found ← loop ([] : List Lexeme) fun found => do
    match ← eat? .modifier with
    | some token => return .inl (.ofToken token :: found)
    | none => return .inr found
  return found.reverse

def atAmpersand : Parser Bool := atText? .arithOp "&"

def eatAmpersand? : Parser (Option Token) := do
  if ← atAmpersand then return some (← take) else return none

/-- something that can be declared starts here -/
def atDeclarator : Parser Bool := do
  if ← atName then return true
  let kind ← peekKind
  if kind = .star || kind = .ellipsis then return true
  atAmpersand

def isStructWord (token : Token) : Bool := token.text == "struct".toList || token.text == "class".toList

/-- the source text from one token to another -/
def lexemeBetween (first last : Token) : Parser Lexeme := do
  lexeme (← spanning first.span.start last.span.stop)

/-- the type that starts with a word: `struct` and `class` go on with a name -/
def typeFrom (first : Token) : Parser Lexeme := do
  if isStructWord first then lexemeBetween first (← expect .name .structName) else return .ofToken first

/-- a type word that names a variable, as in `status = 1` -/
def isTypeUsedAsName (modifiers : List Lexeme) (token : Token) : Parser Bool := do
  if modifiers.isEmpty && Words.isTypeAllowedAsName token.text then return !(← atDeclarator) else return false

/-- what may stand before and after the name of a declarator -/
structure DeclaratorHead where
  start : Nat
  stop : Nat
  name : Option Node
  isArray : Bool
  byRef : Bool

/-- the rest of a declarator: an ellipsis and a value, which may follow a colon if `allowDefault` -/
def declaratorRest (rules : Rules) (head : DeclaratorHead) (allowDefault : Bool) : Parser Node := do
  let ellipsis ← eat? .ellipsis
  let stop := (ellipsis.map (·.span.stop)).getD head.stop
  let shape (init : Option Node) (isDefault : Bool) : Shape Node :=
    .declarator head.name head.isArray head.byRef ellipsis.isSome init isDefault
  let hasValue ← do
    if ← atText? .assignOp "=" then pure true else if allowDefault then at? .colon else pure false
  if hasValue then
    let isDefault := (← take).kind = .colon
    let value ← rules.expression
    build head.start value.stop (shape (some value) isDefault)
  else build head.start stop (shape none false)

def declarator (rules : Rules) (allowDefault : Bool) : Parser Node := do
  let start := (← peek).span.start
  let star ← eat? .star
  let ampersand ← eatAmpersand?
  let marksStop := ((ampersand.or star).map (·.span.stop)).getD start
  let head (stop : Nat) (name : Option Node) : DeclaratorHead :=
    ⟨start, stop, name, star.isSome, ampersand.isSome⟩
  if ← atName then
    let name ← name
    declaratorRest rules (head name.stop (some name)) allowDefault
  else
    if marksStop = start && !(← at? .ellipsis) then wanted .variableName
    declaratorRest rules (head marksStop none) allowDefault

/-- the end of a simple statement. A comma stands in for the semicolon, which may be missing before a closing brace and
at the end of the file -/
def statementEnd : Parser Unit := do
  match ← peekKind with
  | .semicolon | .comma =>
    let _ ← take
    return
  | .rightBrace | .endOfFile => return
  | _ => wanted (.mark ";")

/-- the declarators after a comma, newest first, after those given. With `comments`, a comment right after the comma
belongs to the declarator before it -/
def moreDeclarators (rules : Rules) (comments : Bool) (first : Node) : Parser (Node × List Node) :=
  loop (first, []) fun (last, before) => do
    match ← eat? .comma with
    | some _ =>
      let last ← if comments then trailingComment last else pure last
      return .inl (← declarator rules false, last :: before)
    | none => return .inr (last, before)

/-- `int i = 0, j` in the head of a loop -/
def localDeclaration (rules : Rules) : Parser Node := do
  let start := (← peek).span.start
  let modifiers ← modifiers
  let typeName ← typeFrom (← expect .typeWord .typeWord)
  let (last, before) ← moreDeclarators rules false (← declarator rules false)
  build start last.stop (.varDecl modifiers (some typeName) (last :: before).reverse)

/-- a parameter of a function, a loop variable, or an argument of a prototype -/
def parameter (rules : Rules) : Parser Node := do
  let start := (← peek).span.start
  let modifiers ← modifiers
  let first ← expect .typeWord .typeWord
  if ← isTypeUsedAsName modifiers first then expressionFrom rules (leaf first (.identifier first.text))
  else
    let typeName ← typeFrom first
    if ← atDeclarator then
      let declarator ← declarator rules true
      build start declarator.stop (.varDecl modifiers (some typeName) [declarator])
    else build start typeName.span.stop (.varDecl modifiers (some typeName) [])

/-- an argument of a call: a declaration inside a prototype, otherwise an expression -/
def argument (rules : Rules) : Parser Node := do
  match ← peekKind with
  | .modifier | .typeWord => parameter rules
  | _ => expression rules

/-- a block, with a comment that stands before or right after its opening brace -/
def block (rules : Rules) (openComment : Option Comment) : Parser Node := do
  let start ← expect .leftBrace (.mark "\x7b")
  let r ← get
  let openComment ←
    if openComment.isNone && r.raw.kind.isComment && !r.onOwnLine then some <$> takeComment else pure openComment
  let statements ← statementList rules .block [.rightBrace]
  let close ← expect .rightBrace (.mark "\x7d")
  build start.span.start close.span.stop (.codeBlock openComment statements)

/-- the block of a function; the first comment before it opens it -/
def functionBody (rules : Rules) : Parser Node := do
  if !(← at? .leftBrace) then wanted .blockOrSemicolon
  let pending ← takePending
  pending.tail.forM park
  block rules pending.head?

/-- what stands before the name of a function or variable -/
structure DeclarationHead where
  start : Nat
  modifiers : List Lexeme
  typeName : Option Lexeme
  isArray : Bool

/-- a function from its parameters on: a prototype, or a definition, which must stand in a file -/
def function (rules : Rules) (scope : Scope) (head : DeclarationHead) (name : Node) : Parser Node := do
  let _ ← expect .parenStart (.mark "(")
  let (params, close) ← delimited .parenEnd ")" rules.argument
  let shape (body : Option Node) : Shape Node :=
    .function head.modifiers head.typeName head.isArray name params body
  match ← eat? .semicolon with
  | some _ => build head.start close.span.stop (shape none)
  | none =>
    if scope ≠ .file then refuse .nestedFunction name.span
    let body ← functionBody rules
    build head.start body.stop (shape (some body))

def structDefinition (rules : Rules) (start : Nat) (name : Token) : Parser Node := do
  let _ ← expect .leftBrace (.mark "\x7b")
  let members ← statementList rules .block [.rightBrace]
  let close ← expect .rightBrace (.mark "\x7d")
  let _ ← eat? .semicolon
  build start close.span.stop (.structDef (leaf name (.identifier name.text)) members)

def inherit (rules : Rules) (modifiers : List Lexeme) (start : Nat) : Parser Node := do
  let _ ← expect .inheritWord (.mark "inherit")
  let argument ← rules.expression
  let semicolon ← expect .semicolon (.mark ";")
  build start semicolon.span.stop (.inherit modifiers argument)

/-- a function or variables, from the name on -/
def declared (rules : Rules) (scope : Scope) (start : Nat) (modifiers : List Lexeme) (typeName : Option Lexeme) :
    Parser Node := do
  let nameStart := (← peek).span.start
  let isArray := (← eat? .star).isSome
  let byRef := (← eatAmpersand?).isSome
  let name ← name
  if !byRef && (← at? .parenStart) then function rules scope ⟨start, modifiers, typeName, isArray⟩ name
  else
    let first ← declaratorRest rules ⟨nameStart, name.stop, some name, isArray, byRef⟩ false
    let (last, before) ← moreDeclarators rules true first
    statementEnd
    build start last.stop (.varDecl modifiers typeName (last :: before).reverse)

/-- a statement that starts with modifiers or a type -/
def declaration (rules : Rules) (scope : Scope) : Parser Node := do
  let start := (← peek).span.start
  let modifiers ← modifiers
  match ← peekKind with
  | .inheritWord => inherit rules modifiers start
  | .typeWord =>
    let first ← take
    if ← isTypeUsedAsName modifiers first then
      let node ← expressionFrom rules (leaf first (.identifier first.text))
      statementEnd
      return node
    else if isStructWord first then
      let name ← expect .name .structName
      if ← at? .leftBrace then
        match modifiers with
        | [] => structDefinition rules start name
        | modifier :: _ => refuse .modifierOnStruct modifier.span
      else declared rules scope start modifiers (some (← lexemeBetween first name))
    else declared rules scope start modifiers (some (.ofToken first))
  | _ => if modifiers.isEmpty then wanted .typeWord else declared rules scope start modifiers none

end LpcStyle.Grammar
