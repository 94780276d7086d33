import LpcStyle.Token.Basic

/-!
Why a text is refused. Reading stops at the first error, so a text has at most one.
-/

namespace LpcStyle

open Text

/-- what the grammar wanted to read -/
inductive Wanted where
  | mark (spelling : String)
  /-- a comma, or what closes the list -/
  | separator (closer : String)
  | blockOrSemicolon | loopSeparator | expression | name | typeWord | structName | variableName | textBlock
  | textBlockBody | textBlockMarker
deriving DecidableEq, Repr

/-- the wording of what was wanted -/
def Wanted.phrase : Wanted → List Char
  | .mark spelling => '\x60' :: spelling.toList ++ ['\x60']
  | .separator closer => "`,` or `".toList ++ closer.toList ++ ['\x60']
  | .blockOrSemicolon => "`;` or `\x7b`".toList
  | .loopSeparator => "`in` or `:`".toList
  | .expression => "an expression".toList
  | .name => "a name".toList
  | .typeWord => "a type".toList
  | .structName => "a struct name".toList
  | .variableName => "a variable name".toList
  | .textBlock => "a text block".toList
  | .textBlockBody => "a text block body".toList
  | .textBlockMarker => "the text block marker".toList

/-- what is wrong with a text -/
inductive Cause where
  /-- a token is faulty by itself -/
  | lexical (fault : Fault)
  | endOfFile
  | unexpected (text : List Char)
  /-- `found` is the text of the token that stands there, none at the end of the file -/
  | expected (wanted : Wanted) (found : Option (List Char))
  | commaInCondition | modifierOnStruct | nestedFunction
deriving DecidableEq, Repr

/-- the wording of a cause -/
def Cause.message : Cause → List Char
  | .lexical fault => fault.message.toList
  | .endOfFile => "unexpected end of file".toList
  | .unexpected text => "unexpected `".toList ++ text ++ ['\x60']
  | .expected wanted none => "expected ".toList ++ wanted.phrase ++ ", found end of file".toList
  | .expected wanted (some text) =>
    "expected ".toList ++ wanted.phrase ++ ", found `".toList ++ text ++ ['\x60']
  | .commaInCondition => "unexpected `,` in if condition".toList
  | .modifierOnStruct => "modifiers are not allowed on a struct definition".toList
  | .nestedFunction => "functions can only be defined at file scope".toList

/-- an error and where it is -/
structure ParseError where
  cause : Cause
  span : Span
deriving DecidableEq, Repr

/-- how reading can end without a tree -/
inductive Failure where
  | refused (error : ParseError)
  /-- a node would have to end before it starts -/
  | inverted (start stop : Nat)
  /-- a call of the lexer broke off -/
  | stalled
  /-- more rounds were asked for than there are tokens -/
  | exhausted
deriving DecidableEq, Repr

end LpcStyle
