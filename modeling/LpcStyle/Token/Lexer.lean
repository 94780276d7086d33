import LpcStyle.Token.Basic
import LpcStyle.Token.Pattern

/-!
The lexer. What a character means depends on the mode, on the innermost open bracket and on the kind of the last
token, so these are its state. `Lexer.cut` decides where the next token lies and how the state changes, `Lexer.step`
cuts it off the text. A cut counts characters only, so the pieces that are cut off always make up the text. `Lexer.scan` is
one call of the lexer: the step, with the assertion that it took a character.
-/

namespace LpcStyle

open Text Pattern

/-- constructs that a later character closes -/
inductive Bracket where
  | array | mapping | paren | closure | lambda | foreach | index
deriving DecidableEq, Repr

/-- what the lexer is inside of -/
inductive Mode where
  | file
  /-- right after a directive's name -/
  | directiveStart
  | directive
  | textBlock (marker : List Char)
  | textBlockEnd (marker : List Char)
deriving DecidableEq, Repr

/-- where the next token lies, in characters: `gap` are skipped before it, `slack` after it -/
structure Cut where
  kind : Kind
  gap : Nat := 0
  size : Nat
  slack : Nat := 0
  fault : Option Fault := none
  brackets : List Bracket
  mode : Mode := .file
  credit : Nat := 0
deriving DecidableEq, Repr

structure Lexer where
  /-- the text that is still to be read -/
  rest : List Char
  /-- bytes that are read -/
  offset : Nat := 0
  /-- only indentation stands between here and the start of the line -/
  fresh : Bool := true
  mode : Mode := .file
  /-- open brackets, innermost first -/
  brackets : List Bracket := []
  /-- kind of the last token that is no comment and no blank line -/
  last : Kind := .endOfFile
  /-- line feeds that the end of a directive took from the blank lines after it -/
  credit : Nat := 0
deriving DecidableEq, Repr

/-- whether a line start stays one when a text is read -/
def lineStartAfter (fresh : Bool) (text : List Char) : Bool :=
  text.foldl (fun fresh c => c == '\n' || (fresh && isIndent c)) fresh

namespace Lexer

/-- a cut with a fault in it -/
def faulty (brackets : List Bracket) (fault : Fault) (size : Nat) : Cut :=
  { kind := .unknown, size, fault, brackets }

def blockCommentCut (brackets : List Bracket) (ahead : List Char) : Cut :=
  match blockComment ahead with
  | some size => { kind := .blockComment, size, brackets }
  | none => faulty brackets .blockComment ahead.length

/-- a `#`: a closure symbol, or a directive where a line starts -/
def hashCut (s : Lexer) (ahead : List Char) : Cut :=
  if startsWith "#\x27".toList ahead then
    let after := ahead.drop 2
    if 0 < closureIndex after then { kind := .closureIndex, size := 2 + closureIndex after, brackets := s.brackets }
    else if 0 < closureSymbol after then
      { kind := .closureSymbol, size := 2 + closureSymbol after, brackets := s.brackets }
    else faulty s.brackets .closureSymbol 2
  else if s.fresh then
    let gap := run isGap (ahead.drop 1)
    let name := (ahead.drop (1 + gap)).take (word (ahead.drop (1 + gap)))
    if Words.isAmong Words.directives name then
      { kind := .directive, size := 1 + gap + name.length, brackets := s.brackets, mode := .directiveStart }
    else faulty s.brackets .directiveName (1 + gap + name.length)
  else faulty s.brackets .hash 1

/-- a single quote: a character, or a quoted name -/
def quoteCut (brackets : List Bracket) (after : List Char) : Cut :=
  let symbol : Cut :=
    if 0 < word after then { kind := .symbol, size := 1 + word after, brackets } else faulty brackets .char 1
  match after with
  | '\\' :: rest =>
    let tail := rest.drop 1
    let n := run (fun c => c.toNat != 0 && c != '\x27' && c != '\n') tail
    let size := after.length - tail.length + n + 1
    if startsWith ['\x27'] (tail.drop n) then { kind := .char, size := size + 1, brackets }
    else faulty brackets .char size
  | c :: '\x27' :: _ => if c != '\n' then { kind := .char, size := 3, brackets } else symbol
  | _ => symbol

def wordCut (brackets : List Bracket) (ahead : List Char) : Cut :=
  let size := word ahead
  let text := ahead.take size
  if text == "lambda".toList && startsWith ['('] (ahead.drop size) then
    { kind := .lambdaStart, size := size + 1, brackets := .lambda :: brackets }
  else if text == "in".toList && brackets.head? == some .foreach then { kind := .foreachIn, size, brackets }
  else { kind := Words.classify text, size, brackets }

/-- after these an opening parenthesis cannot start a cast -/
def refusesCast : Kind → Bool
  | .name | .parenEnd | .indexEnd | .lambdaEnd | .ifWord | .whileWord | .switchWord | .forWord => true
  | _ => false

/-- an opening parenthesis: array, mapping, closure, cast, or a plain one -/
def openParenCut (last : Kind) (brackets : List Bracket) (after : List Char) : Cut :=
  let blanks := run (fun c => c == ' ' || c == '\t') after
  let cast := if refusesCast last then none else castTail after
  if startsWith ['\x7b'] after then { kind := .arrayStart, size := 2, brackets := .array :: brackets }
  else if startsWith ['['] after then { kind := .mappingStart, size := 2, brackets := .mapping :: brackets }
  else if startsWith [':'] (after.drop blanks) && !startsWith "::".toList (after.drop blanks) then
    { kind := .closureStart, size := blanks + 2, brackets := .closure :: brackets }
  else
    match cast with
    | some n => { kind := .typeCast, size := n + 1, brackets }
    | none =>
      { kind := .parenStart, size := 1,
        brackets := (if last = .foreachWord then .foreach else .paren) :: brackets }

/-- a colon: two of them, the end of a closure, the separator of a loop head, or a plain one -/
def colonCut (brackets : List Bracket) (after : List Char) : Cut :=
  if startsWith [':'] after then { kind := .doubleColon, size := 2, brackets }
  else
    match brackets with
    | .closure :: outer =>
      if startsWith [')'] (trimStart after) then
        { kind := .closureEnd, size := run isGapOrLineFeed after + 2, brackets := outer }
      else { kind := .colon, size := 1, brackets }
    | .foreach :: _ => { kind := .foreachIn, size := 1, brackets }
    | _ => { kind := .colon, size := 1, brackets }

def operatorCut (brackets : List Bracket) (ahead : List Char) : Cut :=
  match Words.operators.find? fun (op, _) => startsWith op.toList ahead with
  | some (op, kind) => { kind, size := op.length, brackets }
  | none => faulty brackets .character 1

/-- a closing parenthesis -/
def closeParenCut (brackets : List Bracket) : Cut :=
  match brackets with
  | .paren :: outer | .foreach :: outer => { kind := .parenEnd, size := 1, brackets := outer }
  | .lambda :: outer => { kind := .lambdaEnd, size := 1, brackets := outer }
  | _ => faulty brackets .closingParen 1

/-- a closing brace, which closes an array if a parenthesis follows -/
def closeBraceCut (brackets : List Bracket) (after : List Char) : Cut :=
  match brackets with
  | .array :: outer =>
    if startsWith [')'] after then { kind := .arrayEnd, size := 2, brackets := outer }
    else { kind := .rightBrace, size := 1, brackets }
  | _ => { kind := .rightBrace, size := 1, brackets }

/-- a closing square bracket, which closes a mapping only if a parenthesis follows -/
def closeBracketCut (brackets : List Bracket) (after : List Char) : Cut :=
  match brackets with
  | .index :: outer => { kind := .indexEnd, size := 1, brackets := outer }
  | .mapping :: outer =>
    if startsWith [')'] after then { kind := .mappingEnd, size := 2, brackets := outer }
    else faulty brackets .closingBracket 1
  | _ => faulty brackets .closingBracket 1

/-- a `<` that counts from the end: first thing inside an index or after its range -/
def isFromEnd (s : Lexer) (after : List Char) : Bool :=
  s.brackets.head? == some .index && (s.last == .indexStart || s.last == .range) &&
    !startsWith ['<'] after && !startsWith ['='] after

/-- the token that starts with the character `c` -/
def tokenCut (s : Lexer) (c : Char) (after : List Char) : Cut :=
  let ahead := c :: after
  let brackets := s.brackets
  let mark (kind : Kind) (size : Nat) : Cut := { kind, size, brackets }
  if startsWith "//".toList ahead then mark .lineComment (run (· != '\n') ahead)
  else if startsWith "/*".toList ahead then blockCommentCut brackets ahead
  else if c == '#' then s.hashCut ahead
  else if c == '@' then
    match textBlockMarker ahead with
    | some (ats, n) =>
      { kind := .textBlockStart, size := ats + n, brackets, mode := .textBlock ((ahead.drop ats).take n) }
    | none => faulty brackets .textBlockMarker 1
  else if c == '\x22' then
    match stringTail after with
    | some n => mark .string (n + 1)
    | none => faulty brackets .string ahead.length
  else if c == '\x27' then quoteCut brackets after
  else if c == '$' then
    if 0 < closureArgument ahead then mark .closureArgument (closureArgument ahead)
    else faulty brackets .closureArgument 1
  else if c.isDigit then mark .number (number ahead)
  else if isLetter c then wordCut brackets ahead
  else if c == '(' then openParenCut s.last brackets after
  else if c == ')' then closeParenCut brackets
  else if c == '\x7b' then mark .leftBrace 1
  else if c == '\x7d' then closeBraceCut brackets after
  else if c == '[' then { kind := .indexStart, size := 1, brackets := .index :: brackets }
  else if c == ']' then closeBracketCut brackets after
  else if c == ':' then colonCut brackets after
  else if c == ';' then mark .semicolon 1
  else if c == ',' then mark .comma 1
  else if c == '?' then mark .question 1
  else if c == '.' then
    if startsWith "..".toList after then mark .ellipsis 3
    else if startsWith ['.'] after then mark .range 2
    else mark .dot 1
  else if startsWith "->".toList ahead then mark .arrow 2
  else if c == '<' && s.isFromEnd after then mark .fromEnd 1
  else if c == '<' && s.last == .parenStart && 0 < structType ahead then mark .structType (structType ahead)
  else operatorCut brackets ahead

/-- in a file: blank lines, the end of the file, or a token after the blanks -/
def fileCut (s : Lexer) : Cut :=
  let gap := run isGapOrLineFeed s.rest
  let lineFeeds := (s.rest.take gap).count '\n' + s.credit
  if 1 < lineFeeds && s.brackets.isEmpty && s.offset != 0 then
    { kind := .blankLines, size := gap, brackets := [] }
  else
    match s.rest.drop gap with
    | [] =>
      { kind := .endOfFile, gap, size := 0, brackets := s.brackets,
        fault := if s.brackets.isEmpty then none else some .openBracket }
    | c :: after =>
      let fresh := lineStartAfter s.fresh (s.rest.take gap)
      { tokenCut { s with fresh } c after with gap }

/-- inside a directive: its end, a line continuation, a comment or an argument -/
def directiveCut (s : Lexer) : Cut :=
  let gap := run isGap s.rest
  let ahead := s.rest.drop gap
  let brackets := s.brackets
  match ahead with
  | [] => { kind := .directiveEnd, gap, size := 0, brackets }
  | c :: _ =>
    if c == '\n' then { kind := .directiveEnd, gap, size := 1, brackets, credit := 1 }
    else if atLineContinuation ahead then
      let size := run (· != '\n') ahead
      { kind := .directiveLineBreak, gap, size := min (size + 1) ahead.length, brackets, mode := .directive }
    else if startsWith "/*".toList ahead then
      { blockCommentCut brackets ahead with gap, mode := .directive }
    else
      let n := directiveArgument 0 ahead
      let size := (trimEnd (ahead.take n)).length
      { kind := .directiveArgument, gap, size, slack := n - size, brackets, mode := .directive }

/-- after a directive's name: its key, unless the line ends -/
def directiveKeyCut (s : Lexer) : Cut :=
  let gap := run isGap s.rest
  let ahead := s.rest.drop gap
  if ahead.isEmpty || startsWith ['\n'] ahead || atLineContinuation ahead then s.directiveCut
  else { kind := .directiveKey, gap, size := directiveKey ahead, brackets := s.brackets, mode := .directive }

/-- where the next token lies -/
def cut (s : Lexer) : Cut :=
  match s.mode with
  | .file => s.fileCut
  | .directiveStart => s.directiveKeyCut
  | .directive => s.directiveCut
  | .textBlock marker =>
    match textBlockBody marker s.rest with
    | some size => { kind := .textBlockBody, size, brackets := s.brackets, mode := .textBlockEnd marker }
    | none => faulty s.brackets .textBlock s.rest.length
  | .textBlockEnd marker => { kind := .textBlockEnd, size := marker.length, brackets := s.brackets }

/-- cuts the next token off the text -/
def step (s : Lexer) : Token × Lexer :=
  let cut := s.cut
  let gap := s.rest.take cut.gap
  let ahead := s.rest.drop cut.gap
  let text := ahead.take cut.size
  let slack := (ahead.drop cut.size).take cut.slack
  let start := s.offset + byteLength gap
  let stop := start + byteLength text
  let ownLine := lineStartAfter s.fresh gap
  ({ kind := cut.kind, span := ⟨start, stop⟩, text, fault := cut.fault, ownLine },
    { rest := (ahead.drop cut.size).drop cut.slack
      offset := stop + byteLength slack
      fresh := lineStartAfter (lineStartAfter ownLine text) slack
      mode := cut.mode
      brackets := cut.brackets
      last := if cut.kind.isTrivia then s.last else cut.kind
      credit := cut.credit })

/-- a step moves the lexer on, or leaves nothing to be read -/
def Advances (s : Lexer) : Prop := s.offset < s.step.2.offset ∨ s.step.2.rest = []

instance (s : Lexer) : Decidable s.Advances := inferInstanceAs (Decidable (_ ∨ _))

/-- one call of the lexer. It asserts that it advances, and breaks off if it does not -/
def scan (s : Lexer) : Option (Token × Lexer) := if s.Advances then some s.step else none

/-- stands where a call breaks off. It is no token of the text -/
def mark (s : Lexer) : Token :=
  { kind := .endOfFile, span := .empty s.offset, text := [], fault := some .stalled, ownLine := s.fresh }

/-- what a call leads to: a token and the lexer behind it, or the mark that there is none -/
def issue (s : Lexer) : Token × Lexer := s.scan.getD (s.mark, s)

/-- nothing is lost and nothing is read twice -/
theorem take_append_step (s : Lexer) :
    s.rest.take s.cut.gap ++ s.step.1.text ++ ((s.rest.drop s.cut.gap).drop s.cut.size).take s.cut.slack ++
      s.step.2.rest = s.rest := by
  simp only [step, List.append_assoc, List.take_append_drop]

/-- a call that advances gives what is cut off -/
theorem issue_of_advances {s : Lexer} (h : s.Advances) : s.issue = s.step := by rw [issue, scan, if_pos h, Option.getD_some]

theorem issue_of_not_advances {s : Lexer} (h : ¬s.Advances) : s.issue = (s.mark, s) := by
  rw [issue, scan, if_neg h, Option.getD_none]

/-- what is not the end of the file is cut off the text -/
theorem issue_of_ne {s : Lexer} (h : s.issue.1.kind ≠ .endOfFile) : s.issue = s.step := by
  by_cases hadvances : s.Advances
  · exact issue_of_advances hadvances
  · exact absurd rfl (issue_of_not_advances hadvances ▸ h)

/-- a token with a text moves the lexer on -/
theorem offset_lt_of_text {s : Lexer} (h : s.step.1.text ≠ []) : s.offset < s.step.2.offset := by
  have hbytes := byteLength_pos_of_ne_nil h
  have hstop : s.offset + byteLength s.step.1.text ≤ s.step.2.offset := by
    dsimp only [step]
    omega
  omega

theorem step_stop (s : Lexer) : s.step.1.span.stop = s.step.1.span.start + Text.byteLength s.step.1.text := rfl

end Lexer

end LpcStyle
