import LpcStyle.Style.Place

/-!
Layout of expressions, from their laid-out parts.
-/

namespace LpcStyle.Style

open Text

/-- a lone array or mapping as argument keeps its brackets next to the parentheses -/
def call (env : Env) (callee : Doc) : List Printed → Doc
  | [] => callee ++ Doc.lit "()"
  | [arg] =>
    if arg.shape.isCollection then callee ++ Doc.lit "(" ++ arg.full ++ Doc.lit ")"
    else callee ++ env.bracketed "(" (commaList Doc.line [arg]) ")"
  | args => callee ++ env.bracketed "(" (commaList Doc.line args) ")"

def index (env : Env) (object indexor : Doc) : Doc :=
  object ++ Doc.lit "[" ++ (env.indent (Doc.softline ++ indexor) ++ Doc.softline).grouped ++ Doc.lit "]"

def indexMark : IndexMark → Doc
  | .fromEnd => Doc.lit "<"
  | .range => Doc.lit ".."
  | .comma => Doc.lit ", "

/-- an operator between its operands. The line may end after the operator. Links of a chain of the same kind share one
group, which the top of the chain makes; a logical chain right inside parentheses makes none -/
def binaryish (isLogical : Bool) (slot : Slot) (left right : Printed) (op : Doc) : Doc :=
  let sameKind (s : Shape Node) : Bool := if isLogical then s.isLogical else s.isBinary
  let flatInParen := isLogical && slot == .parenItem
  let isTop := slot != if isLogical then .logicalOperand else .binaryOperand
  let rest := op ++ Doc.line ++ right.full
  let rest := if !flatInParen && isTop && !sameKind left.shape && !sameKind right.shape then rest.grouped else rest
  let doc := left.full.grouped ++ rest
  if isTop && !flatInParen then doc.grouped else doc

def ternary (env : Env) (test consequent alternate : Doc) : Doc :=
  let branches := Doc.softline ++ Doc.lit "? " ++ consequent ++ Doc.line ++ Doc.lit ": " ++ alternate
  (test ++ Doc.lit " " ++ env.indent branches).grouped

/-- the right side of an assignment: a collection starts on the same line, anything else may move to the next -/
def value (env : Env) (p : Printed) : Doc :=
  if p.shape.isCollection then Doc.lit " " ++ p.full else (env.indent (Doc.line ++ p.full)).grouped

def assignment (env : Env) (left op : Doc) : Option Printed → Doc
  | some right => left ++ Doc.lit " " ++ op ++ value env right
  | none => left ++ op

/-- `- -x` keeps its space, so that it does not become a decrement -/
def unary (env : Env) (op : List Char) (argument : Printed) : Doc :=
  let space :=
    (op == ['-'] || op == ['+']) && startsWith op (slice env.source argument.node.span)
  Doc.word op ++ (if space then Doc.lit " " else .nil) ++ argument.full

def typeCast (typeName : List Char) (isArray : Bool) (argument : Doc) : Doc :=
  Doc.lit "(" ++ Doc.word typeName ++ (if isArray then Doc.lit "*" else .nil) ++ Doc.lit ")" ++ argument

def paren (env : Env) (items : List Printed) : Doc :=
  if items.isEmpty then Doc.lit "()" else env.bracketed "(" (commaList Doc.line items) ")"

def range (first last : Doc) : Doc := (first ++ Doc.line ++ Doc.lit ".." ++ Doc.line ++ last).grouped

def lambda (env : Env) (args code : Doc) : Doc :=
  env.bracketed "lambda(" (args ++ Doc.lit "," ++ Doc.line ++ code) ")"

/-- items of a closure, one on a line if they do not fit -/
def inlineClosure (env : Env) (items : List Printed) : Doc :=
  if items.isEmpty then Doc.lit "(: :)"
  else
    let body := Doc.join Doc.line (items.map Printed.full)
    (Doc.lit "(:" ++ env.indent (Doc.line ++ body) ++ Doc.line ++ Doc.lit ":)").grouped

end LpcStyle.Style
