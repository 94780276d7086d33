import LpcStyle.Text.Span

/-!
Line and column of a place in a text. Both count from one; lines end at line feeds and columns count characters.
-/

namespace LpcStyle.Text

/-- a place as people read it -/
structure Location where
  line : Nat
  column : Nat
deriving DecidableEq, Repr

/-- the place right after `before` -/
def Location.after (before : List Char) : Location :=
  ⟨before.count '\n' + 1, (before.reverse.takeWhile (· != '\n')).length + 1⟩

/-- the place of a byte offset, which is moved back to the end of the text if it lies past it. There is none inside a
character -/
def locate? (text : List Char) (offset : Nat) : Option Location :=
  (takeBytes? (min offset (byteLength text)) text).map Location.after

/-- `path:line:column` -/
def Location.label (path : List Char) (l : Location) : List Char :=
  path ++ ':' :: l.line.repr.toList ++ ':' :: l.column.repr.toList

end LpcStyle.Text
