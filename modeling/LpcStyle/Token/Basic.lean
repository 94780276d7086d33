import LpcStyle.Text.Span
import LpcStyle.Token.Kind

/-!
Tokens: a kind, where it stands, its text, and what is wrong with it, if anything.
-/

namespace LpcStyle

open Text

/-- what can be wrong with a token -/
inductive Fault where
  | closureArgument | closingParen | closingBracket | character | closureSymbol | directiveName | hash | string
  | char | blockComment | textBlockMarker | textBlock | openBracket
  /-- no token at all: a call of the lexer took no character and broke off -/
  | stalled
deriving DecidableEq, Repr

/-- the wording of a fault -/
def Fault.message : Fault → String
  | .closureArgument => "expected `$N` or `$(name)`"
  | .closingParen => "unexpected `)`"
  | .closingBracket => "unexpected `]`"
  | .character => "unexpected character"
  | .closureSymbol => "expected a symbol after `#'`"
  | .directiveName => "unknown preprocessor directive"
  | .hash => "unexpected `#`"
  | .string => "unterminated string literal"
  | .char => "unterminated character literal"
  | .blockComment => "unterminated block comment"
  | .textBlockMarker => "expected a text block marker after `@`"
  | .textBlock => "unterminated text block"
  | .openBracket => "unexpected end of file, a bracket is still open"
  | .stalled => "tokenizer did not advance"

/-- one token of a text -/
structure Token where
  kind : Kind
  span : Span
  text : List Char
  fault : Option Fault
  /-- only spaces, tabs and carriage returns stand between the token and the line feed or text start before it -/
  ownLine : Bool
deriving DecidableEq, Repr

end LpcStyle
