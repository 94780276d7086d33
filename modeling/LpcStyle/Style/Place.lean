import LpcStyle.Style.Comment
import LpcStyle.Style.Options
import LpcStyle.Tree.Lookup

/-!
What the layout of a node depends on besides the node: the settings and source text, and where the node stands.
-/

namespace LpcStyle.Style

open Text

structure Env where
  options : Options
  source : List Char
  forest : List Branch

/-- the slot of its parent that a node fills -/
inductive Slot where
  | statement
  /-- a branch of an `if`, which is a statement too -/
  | ifBranch
  | binaryOperand | logicalOperand | parenItem
  /-- any slot that makes no difference -/
  | inner
deriving DecidableEq, Repr

def Slot.isStatement (s : Slot) : Bool := s == .statement || s == .ifBranch

structure Place where
  slot : Slot
  /-- the name that the node is assigned to -/
  target : Option (List Char) := none
  /-- where the statement around the node starts; none if the node is a statement of a list itself -/
  anchor : Option Nat := none
deriving DecidableEq, Repr

namespace Place

/-- a statement of a file, block or case -/
def listed : Place := { slot := .statement }

/-- a slot of a node that stands at this place -/
def under (p : Place) (parent : Span) (slot : Slot) : Place :=
  { slot, anchor := some (p.anchor.getD parent.start) }

end Place

/-- forms that take a semicolon when they are statements -/
def takesSemicolon {α : Type} : Shape α → Bool
  | .literal kind _ => kind != .placeholder
  | .textBlock _ | .identifier _ | .spread _ | .array _ | .mapping _ | .call .. | .member .. | .index ..
  | .parentAccess .. | .binary .. | .logical .. | .ternary .. | .assignment .. | .unary .. | .typeCast ..
  | .paren _ | .multiExpression _ | .varDecl .. | .structLiteral .. | .closureSymbol _ | .inlineClosure _
  | .lambda .. | .closureIndex _ => true
  | _ => false

/-- a node that is laid out, without its semicolon and suffix -/
structure Printed where
  node : Node
  slot : Slot
  bare : Doc

namespace Printed

def shape (p : Printed) : Shape Node := p.node.shape

def hasSuffix (p : Printed) : Bool := p.node.hasSuffix

/-- the comment on the node's last line -/
def suffix (p : Printed) : Doc :=
  match p.node.suffix with
  | some c => Doc.lit " " ++ comment c.kind c.text
  | none => .nil

/-- the node with its semicolon and suffix -/
def full (p : Printed) : Doc :=
  (if takesSemicolon p.shape && p.slot.isStatement then p.bare.grouped ++ Doc.lit ";" else p.bare) ++ p.suffix

end Printed

namespace Env

def indent (env : Env) (d : Doc) : Doc := d.nested env.options.indentation

/-- a line end stands between two offsets of the source -/
def hasNewline (env : Env) (start stop : Nat) : Bool :=
  start < stop && (slice env.source ⟨start, stop⟩).contains '\n'

/-- `front`, the body on lines of its own if it does not fit, then `back` -/
def bracketed (env : Env) (front : String) (body : Doc) (back : String) : Doc :=
  (Doc.lit front ++ env.indent (Doc.softline ++ body) ++ Doc.softline ++ Doc.lit back).grouped

end Env

/-- an element of a list with its comma. Comments and preprocessor lines take none, and a suffix comes after it -/
def listItem (comma : Bool) (p : Printed) : Doc :=
  let item :=
    if p.shape.isDirective then p.bare ++ Doc.breakParent
    else if comma && !p.shape.isComment then p.bare ++ Doc.lit ","
    else p.bare
  item ++ p.suffix

/-- elements with the separator between them, and a comma after each but the last that takes one -/
def listItems : List Printed → List Doc
  | [] => []
  | p :: ps => listItem (ps.any (!·.shape.standsAlone)) p :: listItems ps

def commaList (separator : Doc) (items : List Printed) : Doc := Doc.join separator (listItems items)

end LpcStyle.Style
