import LpcStyle.Text.Blank

/-!
The last pass over laid-out text: no blanks at line ends, tabs for indentation where they are wanted, and one line feed
at the end of a text that is not empty.
-/

namespace LpcStyle.Layout

open Text

/-- leading spaces as tabs of the given width, the remainder as spaces -/
def tabbed (tabWidth : Nat) (line : List Char) : List Char :=
  let spaces := (line.takeWhile (· == ' ')).length
  List.replicate (spaces / tabWidth) '\t' ++ List.replicate (spaces % tabWidth) ' ' ++ line.drop spaces

/-- a line without blanks at its end. Tabs need a width -/
def finishLine (useTabs : Bool) (tabWidth : Nat) (line : List Char) : List Char :=
  if useTabs && 0 < tabWidth then tabbed tabWidth (trimEnd line) else trimEnd line

/-- finished lines, without empty ones at the end -/
def finish (useTabs : Bool) (tabWidth : Nat) (text : List Char) : List Char :=
  let body := dropEndWhile (· == '\n') (join ['\n'] ((lines text).map (finishLine useTabs tabWidth)))
  if body.isEmpty then [] else body ++ ['\n']

end LpcStyle.Layout
