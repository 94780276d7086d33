import LpcStyle.Text.Blank
import LpcStyle.Text.WordChar
import LpcStyle.Token.Words

/-!
How far a token reaches. Each function looks at the characters ahead and counts those that belong to one lexical
form; a count of zero, or `none`, means that the form does not start here.
-/

namespace LpcStyle.Pattern

open Text

def isLetter (c : Char) : Bool := c == '_' || c.isAlpha

def isLetterOrDigit (c : Char) : Bool := c == '_' || c.isAlphanum

/-- blanks inside a line that are skipped between tokens -/
def isGap (c : Char) : Bool := c == ' ' || c == '\t' || c == '\r' || c == '\x0c'

/-- blanks that are skipped between tokens, line feeds included -/
def isGapOrLineFeed (c : Char) : Bool := isGap c || c == '\n'

/-- spaces, tabs and carriage returns: what may stand before a token that starts its line -/
def isIndent (c : Char) : Bool := c == ' ' || c == '\t' || c == '\r'

/-- length of the run of characters at the front that satisfy `p` -/
def run (p : Char → Bool) (ahead : List Char) : Nat := (ahead.takeWhile p).length

/-- a letter or underscore, then letters, digits and underscores -/
def word (ahead : List Char) : Nat :=
  match ahead with
  | [] => 0
  | c :: _ => if isLetter c then run isLetterOrDigit ahead else 0

def isHexDigit (c : Char) : Bool := c.isDigit || ('a' ≤ c && c ≤ 'f') || ('A' ≤ c && c ≤ 'F')

/-- the whole part of a number: decimal digits, or `0b`, `0o`, `0x` and digits -/
def wholePart : List Char → Nat
  | '0' :: c :: rest =>
    if c == 'b' || c == 'o' then 2 + run Char.isDigit rest
    else if c == 'x' || c == 'X' then 2 + run isHexDigit rest
    else 1 + run Char.isDigit (c :: rest)
  | ahead => run Char.isDigit ahead

/-- a point and the digits after it -/
def fraction : List Char → Nat
  | '.' :: c :: rest => if c.isDigit then 1 + run Char.isDigit (c :: rest) else 0
  | _ => 0

/-- `e` or `E`, a sign, and digits -/
def exponent : List Char → Nat
  | e :: rest =>
    if e == 'e' || e == 'E' then
      let sign := match rest with
        | c :: _ => if c == '-' || c == '+' then 1 else 0
        | [] => 0
      match rest.drop sign with
      | c :: digits => if c.isDigit then 1 + sign + run Char.isDigit (c :: digits) else 0
      | [] => 0
    else 0
  | [] => 0

/-- a number that starts with a digit -/
def number (ahead : List Char) : Nat :=
  let whole := wholePart ahead
  let decimals := fraction (ahead.drop whole)
  whole + decimals + exponent (ahead.drop (whole + decimals))

/-- the rest of a string after its opening quote, up to and with the closing one; a backslash protects the character
after it -/
def stringTail : List Char → Option Nat
  | [] => none
  | c :: rest =>
    if c == '\x22' then some 1
    else if c == '\\' then
      match rest with
      | [] => none
      | _ :: rest' => (stringTail rest').map (· + 2)
    else (stringTail rest).map (· + 1)

/-- up to and with the star and slash that close a block comment, from its two opening characters on -/
def blockComment (ahead : List Char) : Option Nat :=
  (find (startsWith "*/".toList) (ahead.drop 2)).map (· + 4)

/-- `$` with a number, or with a name in parentheses -/
def closureArgument : List Char → Nat
  | '$' :: '(' :: rest =>
    let n := word rest
    if 0 < n && startsWith [')'] (rest.drop n) then n + 3 else 0
  | '$' :: rest => if 0 < run Char.isDigit rest then 1 + run Char.isDigit rest else 0
  | _ => 0

/-- the brackets that may follow `#'` as an index operator -/
def closureIndex : List Char → Nat
  | '[' :: rest =>
    match [",]", "<..<]", "<..]", "..<]", "..]", "<"].find? (startsWith ·.toList rest) with
    | some mark => 1 + mark.length
    | none => 1
  | _ => 0

def isClosureOperator (c : Char) : Bool := "-+*/%<>=!&|^~?".toList.contains c

/-- a name after `#'`, with its scope, or an operator, or the opening bracket of an array or mapping -/
def closureSymbol (ahead : List Char) : Nat :=
  let scope := if startsWith "::".toList ahead then 2 else 0
  let name := word (ahead.drop scope)
  if 0 < name then
    let after := ahead.drop (scope + name)
    let member := word (after.drop 2)
    scope + name + if startsWith "::".toList after && 0 < member then 2 + member else 0
  else if startsWith "(\x7b".toList ahead || startsWith "([".toList ahead then 2
  else run isClosureOperator ahead

/-- a name in angle brackets -/
def structType : List Char → Nat
  | '<' :: rest =>
    let n := word rest
    if 0 < n && startsWith ['>'] (rest.drop n) then n + 2 else 0
  | _ => 0

/-- one or two `@` and a name; gives the length of both parts -/
def textBlockMarker : List Char → Option (Nat × Nat)
  | '@' :: '@' :: rest => if 0 < word rest then some (2, word rest) else none
  | '@' :: rest => if 0 < word rest then some (1, word rest) else none
  | _ => none

/-- up to and with the line feed before the line that starts with the marker and goes on with no word character -/
def textBlockBody (marker ahead : List Char) : Option Nat :=
  (find (fun rest =>
    match dropFront? ('\n' :: marker) rest with
    | some [] => true
    | some (c :: _) => !isWordChar c
    | none => false) ahead).map (· + 1)

/-- the rest of a cast after its opening parenthesis: a type, at most one star, the closing parenthesis -/
def castTail (ahead : List Char) : Option Nat :=
  let front := run isBlank ahead
  match Words.castTypes.find? (startsWith ·.toList (ahead.drop front)) with
  | none => none
  | some type =>
    let past := front + type.length
    let past := past + run isBlank (ahead.drop past)
    let past := match ahead.drop past with
      | '*' :: rest => past + 1 + run isBlank rest
      | _ => past
    if startsWith [')'] (ahead.drop past) then some (past + 1) else none

/-- a backslash that ends its line, blanks aside -/
def atLineContinuation : List Char → Bool
  | '\\' :: rest =>
    match rest.dropWhile isIndent with
    | [] => true
    | c :: _ => c == '\n'
  | _ => false

/-- from an opening parenthesis to the one that closes it, or to the end of the line -/
def parameters : Nat → List Char → Nat
  | _, [] => 0
  | depth, c :: rest =>
    if c == '\n' then 0
    else
      let depth := if c == '(' then depth + 1 else if c == ')' then depth - 1 else depth
      if depth = 0 then 1 else 1 + parameters depth rest

/-- the word after a directive's name: a name with its parameters, or all up to a blank -/
def directiveKey (ahead : List Char) : Nat :=
  let n := word ahead
  if 0 < n then
    if startsWith ['('] (ahead.drop n) then n + parameters 0 (ahead.drop n) else n
  else run (fun c => c.toNat != 0 && !isBlank c) ahead

/-- inside a string of a directive's argument, up to and with its closing quote. A line feed ends it as well, unless a
backslash protects it -/
def directiveString : List Char → Nat
  | [] => 0
  | c :: rest =>
    if c == '\x22' then 1
    else if c == '\n' then 0
    else if c == '\\' then
      match rest with
      | [] => 1
      | _ :: rest' => 2 + directiveString rest'
    else 1 + directiveString rest

/-- an argument of a directive, up to the end of its line, a line continuation or a block comment. `skip` counts the
characters of a string that are still to be passed over -/
def directiveArgument (skip : Nat) : List Char → Nat
  | [] => 0
  | c :: rest =>
    match skip with
    | skip + 1 => 1 + directiveArgument skip rest
    | 0 =>
      if c == '\n' || atLineContinuation (c :: rest) || startsWith "/*".toList (c :: rest) then 0
      else if c == '\x22' then 1 + directiveArgument (directiveString rest) rest
      else 1 + directiveArgument 0 rest

end LpcStyle.Pattern
