import LpcStyle.Grammar.Reading

/-!
The rules of the grammar that refer back to themselves. The other rules are written against this record and call it
only after they took a token, so a grammar that allows as many nested calls as there are tokens allows them all.
-/

namespace LpcStyle

/-- where a statement list stands. Functions are defined in a file only -/
inductive Scope where
  | file | block
deriving DecidableEq, Repr

structure Rules where
  expression : Parser Node
  /-- prefix operators and casts with their operand -/
  operand : Parser Node
  /-- the operators after a left operand that bind at least as tight as the rank -/
  climb : Node → Nat → Parser Node
  /-- an expression, or a declaration in the argument list of a prototype -/
  argument : Parser Node
  statement : Scope → Parser Node

/-- the rules that refuse to be called -/
def Rules.exhausted : Rules where
  expression := throw .exhausted
  operand := throw .exhausted
  climb _ _ := throw .exhausted
  argument := throw .exhausted
  statement _ := throw .exhausted

end LpcStyle
