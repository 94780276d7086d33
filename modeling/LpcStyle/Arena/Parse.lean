import LpcStyle.Arena.Statement
import LpcStyle.Grammar.Parse

/-!
Reading a whole source text into the store.
-/

namespace LpcStyle.Arena

open LpcStyle.Parser Builder
open Store (Key)

/-- the rules that allow at most `depth` calls inside each other -/
def Rules.upTo : Nat → Rules
  | 0 => .exhausted
  | depth + 1 =>
    let rules := upTo depth
    { expression := Arena.expression rules
      operand := Arena.operand rules
      climb := Arena.climb rules
      argument := Arena.argument rules
      statement := Arena.statement rules }

/-- the rules that a text is read with: there are no more calls inside each other than tokens -/
def Rules.ofText (text : List Char) : Rules := upTo ((Stream.ofText text).ahead.length + 1)

/-- all statements of a file -/
def sourceFile (rules : Rules) : Builder (List Key) := do
  let roots ← statementList rules .file []
  let token ← reading raw
  if let some fault := token.fault then reading (refuse (.lexical fault) token.span)
  if token.kind ≠ .endOfFile then reading unexpected
  return roots

/-- the document of a text in a store, or why there is none -/
def parse (text : List Char) : Except Halt Document :=
  match (sourceFile (.ofText text)).run (.ofText text) with
  | .ok (roots, s) =>
    match Document.new? text s.cells roots with
    | some d => .ok d
    | none => .error .dangling
  | .error (.reading failure) => .error (.reading failure.report)
  | .error .dangling => .error .dangling

end LpcStyle.Arena
