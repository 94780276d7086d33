import LpcStyle.Grammar.Failure
import LpcStyle.Text.Blank
import LpcStyle.Text.Location
import LpcStyle.Text.Width

/-!
Reports of errors for people: the message, the place, and the line with the faulty part marked. A line that is too long
or far indented is shown in part, through a window around the faulty part (`Window.around`).
-/

namespace LpcStyle.Report

open Text

/-- the text before and after a byte offset, which is moved back to the end of the text if it lies past it -/
def splitAt? (text : List Char) (offset : Nat) : Option (List Char × List Char) :=
  let offset := min offset (byteLength text)
  return (← takeBytes? offset text, ← dropBytes? offset text)

/-- the part of a text after its last line feed -/
def lastLine (text : List Char) : List Char := (text.reverse.takeWhile (· != '\n')).reverse

/-- the part of a text before its first line feed; a carriage return belongs to the line end -/
def firstLine (text : List Char) : List Char :=
  let line := text.takeWhile (· != '\n')
  if line.length < text.length then (dropBack? ['\r'] line).getD line else line

def isControl (c : Char) : Bool := c.toNat < 0x20 || (0x7f ≤ c.toNat && c.toNat < 0xa0)

/-- columns of a text whose characters count each by itself -/
def totalWidth : List Char → Nat
  | [] => 0
  | c :: rest => charWidth c + totalWidth rest

/-- columns up to a mark: each character counts by itself, and controls count nothing -/
def columns (text : List Char) : Nat := totalWidth (text.filter (!isControl ·))

/-- the characters of a line as a report shows them: a tab as four spaces, and no joiners and marks of direction, which
would move the text away from the marks under it -/
def plain (line : List Char) : List Char :=
  line.flatMap fun c =>
    if c == '\t' then List.replicate 4 ' '
    else if inRanges [(0x200d, 0x200d), (0x202a, 0x202e), (0x2066, 0x2069)] c.toNat then []
    else [c]

/-- the part of a line that is shown -/
structure Window where
  start : Nat
  stop : Nat
deriving DecidableEq, Repr

namespace Window

/-- columns that a report has for a line -/
def room : Nat := 140

/-- columns around the marked part, so that the dots for what is left out do not touch it -/
def padding : Nat := 6

def dots : List Char := "...".toList

/-- the window on a line of the given length, where `indent` columns are blank, the marks take the columns from `start`
to `stop`, and their label ends at `label`. It shows the whole line if there is room and the indentation is moderate,
else what is marked with as much around it as there is room for -/
def around (indent start stop label length : Nat) : Window :=
  let indent := indent - padding
  let start := start - padding
  let stop := stop + padding
  let label := label + padding
  let left := if 20 < indent then indent - 16 else 0
  let right := max length left
  if right - left ≤ room then ⟨left, right⟩
  else if label - indent ≤ room then ⟨indent, indent + room⟩
  else if label - start ≤ room then
    let left := start - (room - (label - start)) / 2
    ⟨left, left + room⟩
  else if stop - start ≤ room then
    let left := start - (room - (stop - start)) / 5 * 2
    ⟨left, left + room⟩
  else ⟨start, stop⟩

/-- the characters of a line that fit into a number of columns from the left, controls included -/
def fitting : Nat → List Char → List Char
  | _, [] => []
  | room, c :: rest => if charWidth c ≤ room then c :: fitting (room - charWidth c) rest else []

/-- the row with a text written over it from a column on -/
def overwrite (column : Nat) (text row : List Char) : List Char :=
  row.take column ++ List.replicate (column - row.length) ' ' ++ text ++ row.drop (column + text.length)

/-- characters of the line before the window -/
def skipped (w : Window) (line : List Char) : Nat := min w.start (byteLength line)

/-- what the window shows of a line, with dots where something is left out -/
def view (w : Window) (line : List Char) : List Char :=
  let length := byteLength line
  let stop := if length - w.start ≤ room then length else min length w.stop
  let ahead := line.drop (w.skipped line)
  let shown := fitting (stop - w.skipped line) ahead
  let row := if 0 < w.start then overwrite 0 dots shown else shown
  if shown.length < ahead.length then overwrite (totalWidth shown - 3) dots row else row

/-- columns of the line before the window -/
def offset (w : Window) (line : List Char) : Nat := totalWidth (line.take (w.skipped line))

end Window

/-- lines of a report on an error that lies inside one line. The marks under it take at least one column -/
def snippet (path text message : List Char) (span : Span) : List (List Char) :=
  match splitAt? text span.start with
  | none => ["error: ".toList ++ message]
  | some (before, after) =>
    let location := Location.after before
    let number := location.line.repr.toList
    let margin := List.replicate (number.length + 1) ' '
    let front := lastLine before
    let ahead := firstLine after
    let marked := (takeBytes? (min (span.stop - span.start) (byteLength ahead)) ahead).getD []
    let label := " here".toList
    let line := front ++ ahead
    let start := columns front
    let stop := start + max 1 (columns marked)
    let indent := (plain (line.takeWhile isBlank)).length
    let window := Window.around indent start stop (stop + label.length) (byteLength line)
    [ "error: ".toList ++ message,
      List.replicate number.length ' ' ++ "--> ".toList ++ location.label path,
      margin ++ ['|'],
      number ++ " | ".toList ++ window.view (plain line),
      margin ++ "| ".toList ++ List.replicate (start - window.offset (plain line)) ' ' ++
        List.replicate (stop - start) '^' ++ label,
      margin ++ ['|'] ]

/-- `path:line:column: message` -/
def headline (path text : List Char) (error : ParseError) : List Char :=
  let place := match locate? text error.span.start with
    | some location => location.label path
    | none => path
  place ++ ": ".toList ++ error.cause.message

end LpcStyle.Report
