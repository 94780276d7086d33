import LpcStyle.Tree.Shape

/-!
Nodes of the syntax tree. A node has a form and may have a suffix: a comment that goes on on its last line.
-/

namespace LpcStyle

open Text

inductive Node where
  | mk (span : Span) (shape : Shape Node) (suffix : Option Comment)

namespace Node

def span : Node → Span
  | mk span _ _ => span

def shape : Node → Shape Node
  | mk _ shape _ => shape

def suffix : Node → Option Comment
  | mk _ _ suffix => suffix

def start (n : Node) : Nat := n.span.start

def stop (n : Node) : Nat := n.span.stop

def hasSuffix (n : Node) : Bool := n.suffix.isSome

/-- the node with a comment on its last line -/
def withSuffix (n : Node) (comment : Comment) : Node := mk n.span n.shape (some comment)

/-- a comment that stands by itself -/
def ofComment (c : Comment) : Node := mk c.span (.comment c.kind c.text) none

end Node

/-- a source text and the statements it consists of -/
structure Document where
  text : List Char
  roots : List Node

end LpcStyle
