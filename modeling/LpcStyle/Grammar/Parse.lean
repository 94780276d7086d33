import LpcStyle.Grammar.Statement

/-!
Reading a whole source text.
-/

namespace LpcStyle

open Grammar LpcStyle.Parser

/-- the rules that allow at most `depth` calls inside each other -/
def Rules.upTo : Nat → Rules
  | 0 => .exhausted
  | depth + 1 =>
    let rules := upTo depth
    { expression := Grammar.expression rules
      operand := Grammar.operand rules
      climb := Grammar.climb rules
      argument := Grammar.argument rules
      statement := Grammar.statement rules }

/-- all statements of a file -/
def sourceFile (rules : Rules) : Parser (List Node) := do
  let roots ← statementList rules .file []
  let token ← raw
  if let some fault := token.fault then refuse (.lexical fault) token.span
  if token.kind ≠ .endOfFile then unexpected
  return roots

/-- what a failure is to whoever calls `parse`: where the lexer breaks off there is no error to report -/
def Failure.report : Failure → Failure
  | .refused ⟨.lexical .stalled, _⟩ => .stalled
  | failure => failure

/-- the document that some rules read of a text, or the first error in it -/
def parseWith (rules : Rules) (text : List Char) : Except Failure Document :=
  match (sourceFile rules).run (.ofText text) with
  | .ok (roots, _) => .ok ⟨text, roots⟩
  | .error failure => .error failure.report

theorem parseWith_eq_ok_iff {rules : Rules} {text : List Char} {d : Document} :
    parseWith rules text = .ok d ↔ d.text = text ∧ ∃ s, (sourceFile rules).run (.ofText text) = .ok (d.roots, s) := by
  unfold parseWith
  cases h : (sourceFile rules).run (.ofText text) with
  | ok result =>
    constructor
    · intro hd
      cases hd
      exact ⟨rfl, _, rfl⟩
    · rintro ⟨rfl, s, hs⟩
      cases hs
      rfl
  | error failure => simp

theorem parseWith_eq_error_iff {rules : Rules} {text : List Char} {failure : Failure} :
    parseWith rules text = .error failure ↔
      ∃ cause, (sourceFile rules).run (.ofText text) = .error cause ∧ cause.report = failure := by
  unfold parseWith
  cases h : (sourceFile rules).run (.ofText text) <;> simp

/-- the rules that a text is read with: there are no more calls inside each other than tokens -/
def Rules.ofText (text : List Char) : Rules := upTo ((Stream.ofText text).ahead.length + 1)

/-- the document of a text, or the first error in it -/
def parse (text : List Char) : Except Failure Document := parseWith (.ofText text) text

end LpcStyle
