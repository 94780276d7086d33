import LpcStyle.Grammar.Reading
import LpcStyle.Text.Blank

/-!
Preprocessor lines. Their arguments are kept as source text, one piece for each line; a block comment belongs to the
piece of the line it starts on.
-/

namespace LpcStyle.Grammar

open Text LpcStyle.Parser

/-- what is read of a preprocessor line: the finished pieces, newest first, the piece of this line, and its end -/
structure DirectiveLines where
  done : List Span
  line : Option Span
  stop : Nat

namespace DirectiveLines

/-- puts a token on the line -/
def extend (d : DirectiveLines) (span : Span) : DirectiveLines :=
  { d with line := some (d.line.elim span (·.cover span)), stop := span.stop }

def finishLine (d : DirectiveLines) : DirectiveLines :=
  { d with done := d.line.toList ++ d.done, line := none }

end DirectiveLines

def directiveLines (start : DirectiveLines) : Parser DirectiveLines :=
  loop start fun d => do
    let token ← raw
    if let some fault := token.fault then refuse (.lexical fault) token.span
    match token.kind with
    | .directiveArgument | .blockComment =>
      let _ ← takeRaw
      return .inl (d.extend token.span)
    | .directiveLineBreak =>
      let _ ← takeRaw
      return .inl d.finishLine
    | .directiveEnd =>
      let _ ← takeRaw
      return .inr d.finishLine
    | _ => unexpected

/-- a preprocessor line, from its `#` on -/
def directive : Parser Node := do
  let hash ← take
  let word := trimStart (hash.text.dropWhile (· == '#'))
  let name : Lexeme := ⟨⟨hash.span.stop - byteLength word, hash.span.stop⟩, word⟩
  let key ← if (← raw).kind = .directiveKey then some <$> takeRaw else pure none
  let lines ← directiveLines ⟨[], none, (key.map (·.span.stop)).getD hash.span.stop⟩
  let args ← lines.done.reverse.mapM lexeme
  build hash.span.start lines.stop (.directive name (key.map Lexeme.ofToken) args)

end LpcStyle.Grammar
