import LpcStyle.Token.Basic

/-!
Ranks of the operators that stand between two operands: the higher, the tighter they bind.
-/

namespace LpcStyle.Grammar

/-- operators of each kind with their ranks; a star binds like the other multiplications -/
def ranks : List (Kind × String × Nat) :=
  [(.logicalOp, "||", 1), (.logicalOp, "&&", 2), (.arithOp, "|", 3), (.arithOp, "^", 4), (.arithOp, "&", 5),
    (.binaryOp, "==", 6), (.binaryOp, "!=", 6), (.binaryOp, "<", 7), (.binaryOp, "<=", 7), (.binaryOp, ">", 7),
    (.binaryOp, ">=", 7), (.binaryOp, "<<", 8), (.binaryOp, ">>", 8), (.arithOp, "+", 9), (.arithOp, "-", 9),
    (.star, "*", 10), (.arithOp, "/", 10), (.arithOp, "%", 10)]

/-- the rank of an operator; none for a token that is no operator between operands -/
def rank? (t : Token) : Option Nat :=
  (ranks.find? fun (kind, text, _) => t.kind = kind && t.text == text.toList).map (·.2.2)

/-- what a token with a rank is -/
theorem mem_ranks {t : Token} {rank : Nat} (h : rank? t = some rank) :
    ∃ text, (t.kind, text, rank) ∈ ranks ∧ t.text = text.toList := by
  obtain ⟨⟨kind, text, rank⟩, hfind, rfl⟩ := Option.map_eq_some_iff.1 h
  have hentry := List.find?_some hfind
  simp only [Bool.and_eq_true, decide_eq_true_eq, beq_iff_eq] at hentry
  obtain ⟨rfl, htext⟩ := hentry
  exact ⟨text, List.mem_of_find?_eq_some hfind, htext⟩

theorem kind_of_rank {t : Token} {rank : Nat} (h : rank? t = some rank) :
    t.kind = .logicalOp ∨ t.kind = .arithOp ∨ t.kind = .binaryOp ∨ t.kind = .star := by
  obtain ⟨text, hmem, -⟩ := mem_ranks h
  have hall : ∀ entry ∈ ranks, entry.1 = .logicalOp ∨ entry.1 = .arithOp ∨ entry.1 = .binaryOp ∨ entry.1 = .star := by
    decide
  exact hall _ hmem

/-- the end of the file is no operator -/
theorem ne_endOfFile_of_rank {t : Token} {rank : Nat} (h : rank? t = some rank) : t.kind ≠ .endOfFile := by
  intro heof
  simpa [heof] using kind_of_rank h

/-- a preprocessor line is no operator -/
theorem ne_directive_of_rank {t : Token} {rank : Nat} (h : rank? t = some rank) : t.kind ≠ .directive := by
  intro hdirective
  simpa [hdirective] using kind_of_rank h

/-- `++` or `--` -/
def isStep (t : Token) : Bool := t.kind = .assignOp && (t.text == "++".toList || t.text == "--".toList)

/-- the token may stand before its operand -/
def isPrefixOperator (t : Token) : Bool :=
  match t.kind with
  | .unaryOp => true
  | .assignOp => isStep t
  | .arithOp => t.text == ['-'] || t.text == ['+'] || t.text == ['&']
  | _ => false

theorem ne_endOfFile_of_isPrefixOperator {t : Token} (h : isPrefixOperator t = true) : t.kind ≠ .endOfFile := by
  intro heof
  simp [isPrefixOperator, heof] at h

end LpcStyle.Grammar
