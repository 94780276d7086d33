import LpcStyle.Text.Span

/-!
The forms of the language. `Shape α` is one form with its parts, where `α` stands for the parts that are forms
themselves: `Shape Node` is a node's own form, `Shape Unit` is a form without its parts.
-/

namespace LpcStyle

open Text

/-- a piece of the source text and where it stands -/
structure Lexeme where
  span : Span
  text : List Char
deriving DecidableEq, Repr

inductive CommentKind where
  | line | block
deriving DecidableEq, Repr

/-- a comment of the source -/
structure Comment where
  kind : CommentKind
  span : Span
  text : List Char
deriving DecidableEq, Repr

inductive LiteralKind where
  | string | char | number | symbol
  /-- an empty statement, such as the `;` of `if (x) ;` -/
  | placeholder
deriving DecidableEq, Repr

/-- what may stand between the parts of an index -/
inductive IndexMark where
  | fromEnd | range | comma
deriving DecidableEq, Repr

inductive Jump where
  | breakOff | goOn
deriving DecidableEq, Repr

inductive Shape (α : Type) where
  | literal (kind : LiteralKind) (text : List Char)
  /-- `@MARKER ... MARKER` -/
  | textBlock (text : List Char)
  | identifier (text : List Char)
  | spread (argument : α)
  | array (elements : List α)
  | mapping (pairs : List α)
  /-- a key and its values; a key alone is a member of a set -/
  | mappingPair (key : α) (values : List α)
  | call (callee : α) (args : List α)
  /-- `object->property`, or `object.property` if `dot` -/
  | member (object property : α) (dot : Bool)
  | index (object indexor : α)
  | indexor (parts : List α)
  | indexMark (mark : IndexMark)
  /-- `::member` or `scope::member` -/
  | parentAccess (scope : Option α) (member : α)
  /-- adjacent literals are joined by an `implied` operator without text -/
  | binary (left : α) (op : Lexeme) (right : α) (implied : Bool)
  | logical (left : α) (op : Lexeme) (right : α)
  | ternary (test consequent alternate : α)
  /-- `++` and `--` after their operand are assignments without a right side -/
  | assignment (left : α) (op : Lexeme) (right : Option α)
  | unary (op : Lexeme) (argument : α)
  | typeCast (typeName : Lexeme) (isArray : Bool) (argument : α)
  | paren (items : List α)
  /-- expressions joined by commas in the head of a `for` -/
  | multiExpression (items : List α)
  | varDecl (modifiers : List Lexeme) (typeName : Option Lexeme) (declarators : List α)
  /-- the name is missing from an unnamed parameter; `isDefault` if the value is written after a colon -/
  | declarator (name : Option α) (isArray byRef isSpread : Bool) (init : Option α) (isDefault : Bool)
  /-- a function, or its prototype if it has no body -/
  | function (modifiers : List Lexeme) (typeName : Option Lexeme) (isArray : Bool) (name : α) (params : List α)
      (body : Option α)
  | structDef (name : α) (members : List α)
  | structLiteral (name : Lexeme) (items : List α)
  | ifElse (test consequent : α) (alternate : Option α)
  | switch (test : α) (cases : List α)
  /-- without a test it is the default -/
  | switchCase (test : Option α) (body : List α)
  | forLoop (init test update : Option α) (body : α)
  | foreachLoop (vars : List α) (iterable body : α)
  /-- `first .. last` in the head of a `foreach` or in a case -/
  | range (first last : α)
  | whileLoop (test body : α)
  | doWhile (body test : α)
  | returnValue (argument : Option α)
  | jump (kind : Jump)
  | inherit (modifiers : List Lexeme) (argument : α)
  /-- a preprocessor line; one argument for each line it goes over -/
  | directive (name : Lexeme) (key : Option Lexeme) (args : List Lexeme)
  | blankLine
  | comment (kind : CommentKind) (text : List Char)
  /-- the comment stands beside the opening brace -/
  | codeBlock (openComment : Option Comment) (statements : List α)
  /-- `#'name` and `#'!=` -/
  | closureSymbol (text : List Char)
  | inlineClosure (items : List α)
  | lambda (args code : α)
  /-- `#'[` and `#'[..<]` -/
  | closureIndex (text : List Char)
deriving DecidableEq, Repr

namespace Shape

variable {α β : Type}

/-- the form with its parts changed -/
def map (f : α → β) : Shape α → Shape β
  | literal kind text => literal kind text
  | textBlock text => textBlock text
  | identifier text => identifier text
  | spread a => spread (f a)
  | array es => array (es.map f)
  | mapping ps => mapping (ps.map f)
  | mappingPair k vs => mappingPair (f k) (vs.map f)
  | call c as => call (f c) (as.map f)
  | member o p dot => member (f o) (f p) dot
  | index o i => index (f o) (f i)
  | indexor ps => indexor (ps.map f)
  | indexMark mark => indexMark mark
  | parentAccess s m => parentAccess (s.map f) (f m)
  | binary l op r implied => binary (f l) op (f r) implied
  | logical l op r => logical (f l) op (f r)
  | ternary t c a => ternary (f t) (f c) (f a)
  | assignment l op r => assignment (f l) op (r.map f)
  | unary op a => unary op (f a)
  | typeCast ty isArray a => typeCast ty isArray (f a)
  | paren is => paren (is.map f)
  | multiExpression is => multiExpression (is.map f)
  | varDecl ms ty ds => varDecl ms ty (ds.map f)
  | declarator n isArray byRef isSpread i isDefault =>
    declarator (n.map f) isArray byRef isSpread (i.map f) isDefault
  | function ms ty isArray n ps b => function ms ty isArray (f n) (ps.map f) (b.map f)
  | structDef n ms => structDef (f n) (ms.map f)
  | structLiteral n is => structLiteral n (is.map f)
  | ifElse t c a => ifElse (f t) (f c) (a.map f)
  | switch t cs => switch (f t) (cs.map f)
  | switchCase t b => switchCase (t.map f) (b.map f)
  | forLoop i t u b => forLoop (i.map f) (t.map f) (u.map f) (f b)
  | foreachLoop vs i b => foreachLoop (vs.map f) (f i) (f b)
  | range a b => range (f a) (f b)
  | whileLoop t b => whileLoop (f t) (f b)
  | doWhile b t => doWhile (f b) (f t)
  | returnValue a => returnValue (a.map f)
  | jump kind => jump kind
  | inherit ms a => inherit ms (f a)
  | directive n k as => directive n k as
  | blankLine => blankLine
  | comment kind text => comment kind text
  | codeBlock c ss => codeBlock c (ss.map f)
  | closureSymbol text => closureSymbol text
  | inlineClosure is => inlineClosure (is.map f)
  | lambda a c => lambda (f a) (f c)
  | closureIndex text => closureIndex text

/-- the parts of a form that are forms themselves, in source order -/
def parts : Shape α → List α
  | .spread a | .unary _ a | .typeCast _ _ a | .inherit _ a => [a]
  | .array as | .mapping as | .indexor as | .paren as | .multiExpression as | .varDecl _ _ as
  | .structLiteral _ as | .inlineClosure as | .codeBlock _ as => as
  | .mappingPair a as | .call a as | .structDef a as | .switch a as => a :: as
  | .member a b _ | .index a b | .binary a _ b _ | .logical a _ b | .range a b | .whileLoop a b | .doWhile a b
  | .lambda a b => [a, b]
  | .parentAccess s m => s.toList ++ [m]
  | .ternary t c a => [t, c, a]
  | .assignment l _ r => l :: r.toList
  | .declarator n _ _ _ i _ => n.toList ++ i.toList
  | .function _ _ _ n ps b => n :: ps ++ b.toList
  | .ifElse t c a => t :: c :: a.toList
  | .switchCase t as => t.toList ++ as
  | .forLoop i t u b => i.toList ++ t.toList ++ u.toList ++ [b]
  | .foreachLoop vs i b => vs ++ [i, b]
  | .returnValue a => a.toList
  | .literal .. | .textBlock _ | .identifier _ | .indexMark _ | .jump _ | .directive .. | .blankLine | .comment ..
  | .closureSymbol _ | .closureIndex _ => []

/-- what the form is called -/
def name : Shape α → String
  | literal .. => "Literal"
  | textBlock _ => "StringBlock"
  | identifier _ => "Identifier"
  | spread _ => "Spread"
  | array _ => "Array"
  | mapping _ => "Mapping"
  | mappingPair .. => "MappingPair"
  | call .. => "Call"
  | member .. => "Member"
  | index .. => "Index"
  | indexor _ => "Indexor"
  | indexMark _ => "IndexorMark"
  | parentAccess .. => "ParentAccessor"
  | binary .. => "Binary"
  | logical .. => "Logical"
  | ternary .. => "Ternary"
  | assignment .. => "Assignment"
  | unary .. => "Unary"
  | typeCast .. => "TypeCast"
  | paren _ => "Paren"
  | multiExpression _ => "MultiExpression"
  | varDecl .. => "VarDecl"
  | declarator .. => "VarDeclarator"
  | function .. => "Function"
  | structDef .. => "StructDef"
  | structLiteral .. => "StructLiteral"
  | ifElse .. => "If"
  | switch .. => "Switch"
  | switchCase .. => "Case"
  | forLoop .. => "For"
  | foreachLoop .. => "Foreach"
  | range .. => "Range"
  | whileLoop .. => "While"
  | doWhile .. => "DoWhile"
  | returnValue _ => "Return"
  | jump _ => "ControlFlow"
  | inherit .. => "Inherit"
  | directive .. => "Directive"
  | blankLine => "BlankLine"
  | comment .. => "Comment"
  | codeBlock .. => "CodeBlock"
  | closureSymbol _ => "Closure"
  | inlineClosure _ => "InlineClosure"
  | lambda .. => "Lambda"
  | closureIndex _ => "LambdaIndexor"

def isComment : Shape α → Bool
  | comment .. => true
  | _ => false

def isDirective : Shape α → Bool
  | directive .. => true
  | _ => false

/-- comments and preprocessor lines: in a list they take no comma -/
def standsAlone (s : Shape α) : Bool := s.isComment || s.isDirective

def isBlankLine : Shape α → Bool
  | blankLine => true
  | _ => false

def isIdentifier : Shape α → Bool
  | identifier _ => true
  | _ => false

def isBinary : Shape α → Bool
  | binary .. => true
  | _ => false

def isLogical : Shape α → Bool
  | logical .. => true
  | _ => false

def isBinaryish (s : Shape α) : Bool := s.isBinary || s.isLogical

def isCollection : Shape α → Bool
  | array _ | mapping _ => true
  | _ => false

def isCodeBlock : Shape α → Bool
  | codeBlock .. => true
  | _ => false

def isVarDecl : Shape α → Bool
  | varDecl .. => true
  | _ => false

def isIfElse : Shape α → Bool
  | ifElse .. => true
  | _ => false

def isPlaceholder : Shape α → Bool
  | literal .placeholder _ => true
  | _ => false

end Shape

end LpcStyle
