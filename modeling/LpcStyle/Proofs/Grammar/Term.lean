import Mathlib.Tactic
import LpcStyle.Proofs.Token.Written
import LpcStyle.Proofs.Tree.Unplaced

/-!
Expressions of names, numbers, operators and parentheses, as terms over what their tokens say. `Writes tok i j n e` says
that the node `n` is the term `e`, written with the tokens at the places from `i` up to `j`. Nodes that write the same
term are the same but for their places (`Writes.unplaced`), and the term gives what its tokens say (`Writes.said`).
-/

namespace LpcStyle

open Text Grammar LpcStyle.Parser

/-! ## Terms -/

/-- an expression of the operator language; operators are spelled as their tokens are -/
inductive Term where
  | name (text : List Char)
  | number (text : List Char)
  /-- `()` -/
  | unit
  | paren (inner : Term)
  /-- `f()` -/
  | call (callee : Term)
  | apply (callee argument : Term)
  /-- `++` and `--` after their operand -/
  | step (operand : Term) (op : Kind × List Char)
  /-- an operator before its operand -/
  | sign (op : Kind × List Char) (operand : Term)
  /-- an operator between two operands, assignments among them -/
  | binary (left : Term) (op : Kind × List Char) (right : Term)
  | ternary (test consequent alternate : Term)
deriving DecidableEq, Repr

namespace Term

/-- what the tokens of a term say -/
def spelled : Term → List (Kind × List Char)
  | name text => [(.name, text)]
  | number text => [(.number, text)]
  | unit => [(.parenStart, ['(']), (.parenEnd, [')'])]
  | paren e => (.parenStart, ['(']) :: (e.spelled ++ [(.parenEnd, [')'])])
  | call e => e.spelled ++ [(.parenStart, ['(']), (.parenEnd, [')'])]
  | apply e a => e.spelled ++ (.parenStart, ['(']) :: (a.spelled ++ [(.parenEnd, [')'])])
  | step e op => e.spelled ++ [op]
  | sign op e => op :: e.spelled
  | binary l op r => l.spelled ++ op :: r.spelled
  | ternary t c a => t.spelled ++ (.question, ['?']) :: (c.spelled ++ (.colon, [':']) :: a.spelled)

end Term

/-! ## Nodes -/

/-- the operator stands between two operands -/
def Joining (op : Token) : Prop := (rank? op).isSome = true ∨ op.kind = .assignOp ∧ isStep op = false

/-- the form that an operator makes of its operands -/
def joint (op : Token) (left right : Node) : Shape Node :=
  if op.kind = .logicalOp then .logical left (.ofToken op) right
  else if op.kind = .assignOp then .assignment left (.ofToken op) (some right)
  else .binary left (.ofToken op) right false

/-- the node is the term, written with the tokens at the places from the first up to the second -/
inductive Writes (tok : Nat → Token) : Nat → Nat → Node → Term → Prop where
  | name {i : Nat} {text : List Char} (hspells : (tok i).spelling = (.name, text)) :
      Writes tok i (i + 1) (leaf (tok i) (.identifier (tok i).text)) (.name text)
  | number {i : Nat} {text : List Char} (hspells : (tok i).spelling = (.number, text)) :
      Writes tok i (i + 1) (leaf (tok i) (.literal .number (tok i).text)) (.number text)
  | unit {i : Nat} (hopen : (tok i).kind = .parenStart) (hclose : (tok (i + 1)).kind = .parenEnd) :
      Writes tok i (i + 2) (.mk ⟨(tok i).span.start, (tok (i + 1)).span.stop⟩ (.paren []) none) .unit
  | paren {i j : Nat} {n : Node} {e : Term} (hopen : (tok i).kind = .parenStart) (h : Writes tok (i + 1) j n e)
      (hclose : (tok j).kind = .parenEnd) :
      Writes tok i (j + 1) (.mk ⟨(tok i).span.start, (tok j).span.stop⟩ (.paren [n]) none) (.paren e)
  | call {i j : Nat} {n : Node} {e : Term} (h : Writes tok i j n e) (hopen : (tok j).kind = .parenStart)
      (hclose : (tok (j + 1)).kind = .parenEnd) :
      Writes tok i (j + 2) (.mk ⟨n.start, (tok (j + 1)).span.stop⟩ (.call n []) none) (.call e)
  | apply {i j k : Nat} {n m : Node} {e a : Term} (h : Writes tok i j n e) (hopen : (tok j).kind = .parenStart)
      (harg : Writes tok (j + 1) k m a) (hclose : (tok k).kind = .parenEnd) :
      Writes tok i (k + 1) (.mk ⟨n.start, (tok k).span.stop⟩ (.call n [m]) none) (.apply e a)
  | step {i j : Nat} {n : Node} {e : Term} {op : Kind × List Char} (h : Writes tok i j n e)
      (hop : isStep (tok j) = true) (hspells : (tok j).spelling = op) :
      Writes tok i (j + 1) (.mk ⟨n.start, (tok j).span.stop⟩ (.assignment n (.ofToken (tok j)) none) none) (.step e op)
  | sign {i j : Nat} {n : Node} {e : Term} {op : Kind × List Char} (hop : isPrefixOperator (tok i) = true)
      (hspells : (tok i).spelling = op) (h : Writes tok (i + 1) j n e) :
      Writes tok i j (.mk ⟨(tok i).span.start, n.stop⟩ (.unary (.ofToken (tok i)) n) none) (.sign op e)
  | binary {i j k : Nat} {l r : Node} {e e' : Term} {op : Kind × List Char} (h : Writes tok i j l e)
      (hop : Joining (tok j)) (hspells : (tok j).spelling = op) (h' : Writes tok (j + 1) k r e') :
      Writes tok i k (.mk ⟨l.start, r.stop⟩ (joint (tok j) l r) none) (.binary e op e')
  | ternary {i j k m : Nat} {t c a : Node} {et ec ea : Term} (ht : Writes tok i j t et)
      (hquestion : (tok j).kind = .question) (hc : Writes tok (j + 1) k c ec) (hcolon : (tok k).kind = .colon)
      (ha : Writes tok (k + 1) m a ea) :
      Writes tok i m (.mk ⟨t.start, a.stop⟩ (.ternary t c a) none) (.ternary et ec ea)

/-- what the tokens at the places from the first up to the second say -/
def sayings (tok : Nat → Token) (i j : Nat) : List (Kind × List Char) :=
  (List.range' i (j - i)).map fun k => (tok k).spelling

section

variable {tok : Nat → Token} {i j k : Nat}

@[simp] theorem sayings_self : sayings tok i i = [] := by simp [sayings]

theorem sayings_cons (h : i < j) : sayings tok i j = (tok i).spelling :: sayings tok (i + 1) j := by
  have hlength : j - i = (j - (i + 1)) + 1 := by omega
  rw [sayings, hlength, List.range'_succ, List.map_cons, sayings]

theorem sayings_append (hij : i ≤ j) (hjk : j ≤ k) : sayings tok i j ++ sayings tok j k = sayings tok i k := by
  have hstart : i + (j - i) = j := by omega
  have hlength : j - i + (k - j) = k - i := by omega
  have hrange := List.range'_append_1 (s := i) (m := j - i) (n := k - j)
  rw [hstart, hlength] at hrange
  rw [sayings, sayings, sayings, ← List.map_append, hrange]

end

/-- a token of a kind with one spelling -/
theorem Token.spelling_of_kind {t : Token} (hspelt : Spelt t.kind t.text) {kind : Kind} {text : List Char}
    (hkind : t.kind = kind) (hone : ∀ s, Spelt kind s → s = text) : t.spelling = (kind, text) := by
  rw [Token.spelling, hkind, hone t.text (hkind ▸ hspelt)]

namespace Writes

variable {tok tok' : Nat → Token} {i j i' j' : Nat} {n n' : Node} {e : Term}

theorem lt (h : Writes tok i j n e) : i < j := by
  induction h <;> omega

/-- **The term gives what its tokens say**, one after the other. -/
theorem said (hspelt : ∀ k, Spelt (tok k).kind (tok k).text) (h : Writes tok i j n e) : e.spelled = sayings tok i j := by
  have hopen {k : Nat} (h : (tok k).kind = .parenStart) : (tok k).spelling = (.parenStart, ['(']) :=
    Token.spelling_of_kind (hspelt k) h (by simp)
  have hclose {k : Nat} (h : (tok k).kind = .parenEnd) : (tok k).spelling = (.parenEnd, [')']) :=
    Token.spelling_of_kind (hspelt k) h (by simp)
  have hquestion {k : Nat} (h : (tok k).kind = .question) : (tok k).spelling = (.question, ['?']) :=
    Token.spelling_of_kind (hspelt k) h (by simp)
  have hcolon {k : Nat} (h : (tok k).kind = .colon) : (tok k).spelling = (.colon, [':']) :=
    Token.spelling_of_kind (hspelt k) h (by simp)
  have hlast (k : Nat) : sayings tok k (k + 1) = [(tok k).spelling] := by
    rw [sayings_cons (Nat.lt_succ_self k), sayings_self]
  -- the tokens of the parts, one part after the other
  induction h with
  | name hspells => rw [hlast, hspells, Term.spelled]
  | number hspells => rw [hlast, hspells, Term.spelled]
  | @unit i h h' => rw [sayings_cons (by omega), hlast, hopen h, hclose h', Term.spelled]
  | @paren i j n e h hinner h' ih =>
    have := hinner.lt
    have hsplit : sayings tok (i + 1) j ++ sayings tok j (j + 1) = _ := sayings_append (by omega) (by omega)
    rw [sayings_cons (by omega), ← hsplit, hlast, hopen h, hclose h', ← ih]
    rfl
  | @call i j n e hcallee h h' ih =>
    have := hcallee.lt
    have hsplit : sayings tok i j ++ sayings tok j (j + 2) = _ := sayings_append (by omega) (by omega)
    rw [← hsplit, sayings_cons (i := j) (by omega), hlast, hopen h, hclose h', ← ih]
    rfl
  | @apply i j k n m e a hcallee h harg h' ih iharg =>
    have := hcallee.lt
    have := harg.lt
    have hsplit : sayings tok i j ++ sayings tok j (k + 1) = _ := sayings_append (by omega) (by omega)
    have hsplit' : sayings tok (j + 1) k ++ sayings tok k (k + 1) = _ := sayings_append (by omega) (by omega)
    rw [← hsplit, sayings_cons (i := j) (by omega), ← hsplit', hlast, hopen h, hclose h', ← ih, ← iharg]
    rfl
  | @step i j n e op h hop hspells ih =>
    have := h.lt
    have hsplit : sayings tok i j ++ sayings tok j (j + 1) = _ := sayings_append (by omega) (by omega)
    rw [← hsplit, hlast, hspells, ← ih]
    rfl
  | @sign i j n e op hop hspells h ih =>
    have := h.lt
    rw [sayings_cons (by omega), hspells, ← ih]
    rfl
  | @binary i j k l r e e' op h hop hspells h' ih ih' =>
    have := h.lt
    have := h'.lt
    have hsplit : sayings tok i j ++ sayings tok j k = _ := sayings_append (by omega) (by omega)
    rw [← hsplit, sayings_cons (i := j) (by omega), hspells, ← ih, ← ih']
    rfl
  | @ternary i j k m t c a et ec ea ht h hc h' ha iht ihc iha =>
    have := ht.lt
    have := hc.lt
    have := ha.lt
    have hsplit : sayings tok i j ++ sayings tok j m = _ := sayings_append (by omega) (by omega)
    have hsplit' : sayings tok (j + 1) k ++ sayings tok k m = _ := sayings_append (by omega) (by omega)
    rw [← hsplit, sayings_cons (i := j) (by omega), ← hsplit', sayings_cons (i := k) (by omega), hquestion h, hcolon h', ← iht,
      ← ihc, ← iha]
    rfl

theorem suffix (h : Writes tok i j n e) : n.suffix = none := by
  cases h <;> rfl

/-- counted from another place -/
theorem shift {s : Nat} (h : Writes (fun k => tok (s + k)) i j n e) : Writes tok (s + i) (s + j) n e := by
  induction h with
  | name hspells => exact .name hspells
  | number hspells => exact .number hspells
  | unit hopen hclose => exact .unit hopen hclose
  | paren hopen _ hclose ih => exact .paren hopen ih hclose
  | call _ hopen hclose ih => exact .call ih hopen hclose
  | apply _ hopen _ hclose ih iharg => exact .apply ih hopen iharg hclose
  | step _ hop hspells ih => exact .step ih hop hspells
  | sign hop hspells _ ih => exact .sign hop hspells ih
  | binary _ hop hspells _ ih ih' => exact .binary ih hop hspells ih'
  | ternary _ hquestion _ hcolon _ iht ihc iha => exact .ternary iht hquestion ihc hcolon iha

/-- **Nodes that write the same term** are the same but for their places. -/
theorem unplaced (h : Writes tok i j n e) (h' : Writes tok' i' j' n' e) : n.unplaced true = n'.unplaced true := by
  have htext {t t' : Token} {op : Kind × List Char} (h : t.spelling = op) (h' : t'.spelling = op) : t'.text = t.text :=
    congrArg Prod.snd (h'.trans h.symm)
  have hlexeme {t t' : Token} {op : Kind × List Char} (h : t.spelling = op) (h' : t'.spelling = op) :
      (Lexeme.ofToken t').unplaced = (Lexeme.ofToken t).unplaced := by
    simp only [Lexeme.unplaced, Lexeme.ofToken, htext h h']
  induction h generalizing i' j' n' with
  | name h =>
    cases h' with
    | name h' => simp only [leaf, Node.unplaced, Shape.unplaced, htext h h']
  | number h =>
    cases h' with
    | number h' => simp only [leaf, Node.unplaced, Shape.unplaced, htext h h']
  | unit =>
    cases h'
    rfl
  | paren _ _ _ ih =>
    cases h' with
    | paren _ h' => simp [Node.unplaced, Shape.unplaced, Node.unplacedAll, ih h']
  | call _ _ _ ih =>
    cases h' with
    | call h' => simp [Node.unplaced, Shape.unplaced, Node.unplacedAll, ih h']
  | apply _ _ _ _ ih iharg =>
    cases h' with
    | apply h' _ harg' => simp [Node.unplaced, Shape.unplaced, Node.unplacedAll, ih h', iharg harg']
  | step _ _ hspells ih =>
    cases h' with
    | step h' _ hspells' => simp [Node.unplaced, Shape.unplaced, Node.unplaced?, ih h', hlexeme hspells hspells']
  | sign _ hspells _ ih =>
    cases h' with
    | sign _ hspells' h' => simp [Node.unplaced, Shape.unplaced, ih h', hlexeme hspells hspells']
  | binary _ _ hspells _ ihl ihr =>
    cases h' with
    | binary hl _ hspells' hr =>
      have hkind := congrArg Prod.fst (hspells'.trans hspells.symm)
      dsimp only [Token.spelling] at hkind
      simp only [Node.unplaced, joint, hkind, Option.map_none]
      split_ifs <;> simp [Shape.unplaced, Node.unplaced?, ihl hl, ihr hr, hlexeme hspells hspells']
  | ternary _ _ _ _ _ iht ihc iha =>
    cases h' with
    | ternary ht _ hc _ ha => simp [Node.unplaced, Shape.unplaced, iht ht, ihc hc, iha ha]

end Writes

end LpcStyle
