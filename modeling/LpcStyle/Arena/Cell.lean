import LpcStyle.Store
import LpcStyle.Tree.Node

/-!
Nodes in a store. A cell holds a form whose parts are keys of other cells, so a part is told from another one that says
the same. Cells do not know their parents until a finished document links them.
-/

namespace LpcStyle.Arena

open Text
open Store (Key)

structure Cell where
  span : Span
  shape : Shape Key
  /-- the comment beside the opening brace of a block -/
  opener : Option Key := none
  /-- the comment on the last line; it is none of the children -/
  suffix : Option Key := none
  parent : Option Key := none

namespace Cell

/-- the parts in source order -/
def children (c : Cell) : List Key := c.opener.toList ++ c.shape.parts

/-- all cells that hang below: the parts, and then the suffix -/
def below (c : Cell) : List Key := c.children ++ c.suffix.toList

/-- a comment that stands by itself -/
def ofComment (c : Comment) : Cell := { span := c.span, shape := .comment c.kind c.text }

end Cell

/-- a source text, the cells of its tree and of what was read in vain, and the keys of its statements -/
structure Document where
  text : List Char
  cells : Store Cell
  roots : List Key

/-- each cell below another one, and that one, in the order in which parents are set -/
def links (cells : Store Cell) : List (Key × Key) :=
  cells.toList.flatMap fun (key, cell) => cell.below.map fun child => (child, key)

/-- sets the parent of a cell; there is no result for a key that the store did not give -/
def link? (cells : Store Cell) (l : Key × Key) : Option (Store Cell) :=
  cells.update? l.1 fun cell => { cell with parent := some l.2 }

/-- the document of finished cells: each is linked to its parent, cells that no root leads to included -/
def Document.new? (text : List Char) (cells : Store Cell) (roots : List Key) : Option Document :=
  ((links cells).foldlM link? cells).map fun cells => ⟨text, cells, roots⟩

end LpcStyle.Arena
