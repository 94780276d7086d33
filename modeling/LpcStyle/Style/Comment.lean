import LpcStyle.Layout.Doc
import LpcStyle.Text.Blank
import LpcStyle.Tree.Shape

/-!
Layout of comments and preprocessor lines.
-/

namespace LpcStyle.Style

open Text

/-- a line comment has one space before its text and nothing after it on the line -/
def lineComment (text : List Char) : Doc :=
  let body := trim ((dropFront? "//".toList text).getD text)
  Doc.word (if body.isEmpty then "//".toList else "// ".toList ++ body) ++ Doc.breakParent

/-- a line of a block comment without its blanks and leading stars. A line that starts with four stars is a headline and
keeps them -/
def commentLine (line : List Char) : List Char :=
  let line := trim line
  if startsWith "****".toList line then line else line.dropWhile fun c => c == '*' || isBlank c

/-- the lines between the marks of a block comment -/
def blockCommentLines (text : List Char) : List (List Char) :=
  let inner := (dropFront? "/*".toList text).getD text
  let inner := (dropBack? "*/".toList inner).getD inner
  (lines inner).map commentLine

/-- the lines of a block comment after the first, each with a star; an empty last line holds the closing mark only -/
def laterCommentLines : List (List Char) → List Doc
  | [] => []
  | [last] => if last.isEmpty then [Doc.hardline] else [Doc.hardline, Doc.word (" * ".toList ++ last)]
  | line :: lines => Doc.hardline :: Doc.word (" * ".toList ++ line) :: laterCommentLines lines

/-- a block comment. One with a single line of text stands on one line -/
def blockComment (text : List Char) : Doc :=
  let lines := blockCommentLines text
  if (lines.filter (!·.isEmpty)).length ≤ 1 then
    let body := lines.flatten
    Doc.word (if body.isEmpty then "/* */".toList else "/* ".toList ++ body ++ " */".toList)
  else
    let first := match lines.head? with
      | some line => if line.isEmpty then [] else [Doc.lit " ", Doc.word line]
      | none => []
    Doc.concat (Doc.lit "/*" :: first ++ laterCommentLines lines.tail ++ [Doc.lit " */"])

def comment (kind : CommentKind) (text : List Char) : Doc :=
  match kind with
  | .line => lineComment (trim text)
  | .block => blockComment (trim text)

/-- a preprocessor line. If it does not fit, each line but the last ends with a backslash -/
def directive (indentation : Int) (name : Lexeme) (key : Option Lexeme) (args : List Lexeme) : Doc :=
  let head := Doc.lit "#" ++ Doc.word name.text
  let head := match key with
    | some key => head ++ Doc.lit " " ++ Doc.word (trim key.text)
    | none => head
  let separator := Doc.flatAlt (Doc.lit " \\" ++ Doc.hardline) (Doc.lit " ")
  if args.isEmpty then head
  else
    let args := Doc.concat (args.map fun arg => separator ++ Doc.word (trim arg.text))
    (head ++ args.nested indentation).grouped

end LpcStyle.Style
