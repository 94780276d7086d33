import Mathlib.Tactic
import LpcStyle.Proofs.Grammar.Echo.Expression
import LpcStyle.Proofs.Grammar.InStep.Parse

/-!
Statements of the operator language, and files of them. A file is read to entries, each a statement with the blank line
before it, if there is one. A second text that says the tokens of each entry once more, with a semicolon behind them and a
blank line before them where the entry has one, is read to the same statements (`parse_relaid`), whatever else stands
between the statements of the first text.
-/

namespace LpcStyle

open Text Grammar LpcStyle.Parser

variable {text text' : List Char} {k : Nat}

/-! ## The end of a statement -/

/-- reading stands behind what ends a statement at the place: behind the semicolon, or before the end of the file -/
inductive Reading.Behind (text : List Char) (k : Nat) : Reading → Prop where
  | semicolon {r : Reading} (hat : r.At text k) (hheld : r.held = none) (hraw : r.raw = place text k)
      (hkind : (place text k).kind = .semicolon) : Behind text k r.dropRaw
  | endOfFile {r : Reading} (hat : r.At text k) (hkind : (place text k).kind = .endOfFile) : Behind text k r

/-- so reading goes on at some place -/
theorem Reading.Behind.at {r : Reading} (h : r.Behind text k) : ∃ m, r.At text m := by
  cases h with
  | semicolon hat hheld hraw hkind => exact ⟨k + 1, hat.dropRaw (lt_length_of_place (by simp [hkind])) hheld hraw⟩
  | endOfFile hat => exact ⟨k, hat⟩

theorem Parser.run_take {r : Reading} (hfault : r.settle.raw.fault = none) :
    Parser.take.run r = .ok (r.settle.raw, r.settle.dropRaw) := by
  have hpeek : Parser.peek.run r = .ok (r.settle.raw, r.settle) := rfl
  rw [Parser.take, Parser.run_bind_of_run hpeek, hfault]
  rfl

theorem fault_place (hkind : (place text k).kind ≠ .unknown) (hend : (place text k).kind ≠ .endOfFile) :
    (place text k).fault = none := by
  by_contra hfault
  exact hkind (Stream.fault_ofText text _ (place_mem (lt_length_of_place hend)) hfault)

theorem run_statementEnd (r : Reading) : statementEnd.run r = (match r.settle.raw.kind with
    | .semicolon | .comma => do let _ ← take; return
    | .rightBrace | .endOfFile => return
    | _ => wanted (.mark ";") : Parser Unit).run r.settle := rfl

theorem statementEnd_of_isStop (hquiet : Quiet text) {r : Reading} (hat : r.At text k)
    (hstop : (place text k).kind.isStop = true) : ∃ s, statementEnd.run r = .ok ((), s) ∧ s.Behind text k := by
  have hsettle := hat.settle hquiet
  rw [run_statementEnd, hat.raw_settle]
  rcases Kind.isStop_iff.1 hstop with hkind | hkind
  · have hfault : r.settle.settle.raw.fault = none := by
      rw [hsettle.raw_settle]
      exact fault_place (by simp [hkind]) (by simp [hkind])
    refine ⟨r.settle.settle.dropRaw, ?_, .semicolon (hsettle.settle hquiet) rfl hsettle.raw_settle hkind⟩
    simp only [hkind]
    rw [StateT.run_bind, Parser.run_take hfault]
    rfl
  · refine ⟨r.settle, ?_, .endOfFile hsettle hkind⟩
    simp only [hkind]
    rfl

/-- inside an expression there is none -/
theorem statementEnd_of_isTerm {r : Reading} (hat : r.At text k) (hterm : (place text k).kind.isTerm = true) :
    ∃ e, statementEnd.run r = .error e := by
  rw [run_statementEnd, hat.raw_settle]
  cases hrun : (wanted (.mark ";") : Parser Unit).run r.settle with
  | ok result => exact absurd hrun Parser.wanted_ne_ok
  | error e =>
    refine ⟨e, ?_⟩
    split
    · next hkind => simp [hkind, Kind.isTerm] at hterm
    · next hkind => simp [hkind, Kind.isTerm] at hterm
    · next hkind => simp [hkind, Kind.isTerm] at hterm
    · next hkind => simp [hkind, Kind.isTerm] at hterm
    · exact hrun

/-! ## One statement -/

section

variable {τ : Echo} {rules rules' : Rules}

/-- the statement that the row of tokens is, and reading behind it in both texts -/
def Ends (τ : Echo) (n : Node) (s : Reading) (n' : Node) (s' : Reading) : Prop :=
  τ.Same 0 τ.size n n' ∧ s.Behind τ.text (τ.start + τ.size) ∧ s'.Behind τ.text' (τ.start' + τ.size)

theorem echoes_statementEnd {j : Nat} {n n' : Node} {r r' : Reading} (hat : τ.At j r r') (h : τ.Same 0 j n n') :
    Echoes (Ends τ) ((do statementEnd; return n : Parser Node).run r) ((do statementEnd; return n' : Parser Node).run r') := by
  rcases Nat.lt_or_eq_of_le hat.le with hlt | rfl
  · obtain ⟨e, hrun⟩ := statementEnd_of_isTerm hat.left (τ.terms j hlt)
    rw [StateT.run_bind, hrun]
    exact .failed
  · obtain ⟨s, hrun, hs⟩ := statementEnd_of_isStop τ.quiet hat.left τ.stop
    obtain ⟨s', hrun', hs'⟩ := statementEnd_of_isStop τ.quiet' hat.right τ.stop'
    rw [run_bind_of_run hrun, run_bind_of_run hrun']
    exact .ok ⟨h, hs, hs'⟩

theorem Writes.isBlankLine {tok : Nat → Token} {i j : Nat} {n : Node} {e : Term} (h : Writes tok i j n e) :
    n.shape.isBlankLine = false := by
  cases h with
  | binary =>
    simp only [Node.shape, joint]
    split_ifs <;> rfl
  | _ => rfl

/-- a term is no declaration, and no call of one -/
theorem Writes.not_declares {tok : Nat → Token} {i j : Nat} {n : Node} {e : Term} (h : Writes tok i j n e) :
    n.shape.isVarDecl = false ∧ ∀ callee args, n.shape = .call callee args → args.any (·.shape.isVarDecl) = false := by
  have hjoint (op : Token) (l r : Node) : (joint op l r).isVarDecl = false ∧
      ∀ callee args, joint op l r ≠ .call callee args := by
    unfold joint
    split_ifs <;> simp [Shape.isVarDecl]
  have hshape {n : Node} {e : Term} {i j : Nat} (h : Writes tok i j n e) : n.shape.isVarDecl = false := by
    cases h with
    | binary => exact (hjoint _ _ _).1
    | _ => rfl
  refine ⟨hshape h, ?_⟩
  intro callee args hcall
  cases h with
  | call =>
    cases hcall
    rfl
  | apply _ _ harg =>
    cases hcall
    simp [hshape harg]
  | binary => exact absurd hcall ((hjoint _ _ _).2 callee args)
  | _ => cases hcall

/-- what `expressionStatement` does with the expression at the top of a file -/
def fileEnd (rules : Rules) (node : Node) : Parser Node :=
  match node.shape with
  | .call callee args => do
    if !callee.shape.isIdentifier then
      statementEnd
      return node
    else if Scope.file = .file && (← at? .leftBrace) then
      let body ← functionBody rules
      return .mk (← spanning node.start body.stop) (.function [] none false callee args (some body)) node.suffix
    else
      statementEnd
      if args.any (·.shape.isVarDecl) then
        return .mk node.span (.function [] none false callee args none) node.suffix
      else return node
  | _ => do
    statementEnd
    return node

theorem expressionStatement_eq (rules : Rules) :
    expressionStatement rules .file = expression rules >>= fileEnd rules := rfl

/-- **A term is a statement** with what ends one behind it: no body comes next. -/
theorem Writes.run_fileEnd {tok : Nat → Token} {i j : Nat} {n : Node} {e : Term} (h : Writes tok i j n e) (hquiet : Quiet text)
    (rules : Rules) {r : Reading} (hat : r.At text k) (hbrace : (place text k).kind ≠ .leftBrace) :
    ∃ s, s.At text k ∧ (fileEnd rules n).run r = (do statementEnd; return n : Parser Node).run s := by
  obtain ⟨-, hargs⟩ := h.not_declares
  unfold fileEnd
  split
  · next callee args hshape =>
    have hdeclares : args.any (·.shape.isVarDecl) = false := hargs callee args hshape
    rw [hdeclares]
    by_cases hname : (!callee.shape.isIdentifier) = true
    · rw [if_pos hname]
      exact ⟨r, hat, rfl⟩
    · rw [if_neg hname]
      have hkind : (true && decide (r.settle.raw.kind = .leftBrace)) = false := by simpa [hat.raw_settle] using hbrace
      refine ⟨r.settle, hat.settle hquiet, ?_⟩
      change (if (true && decide (r.settle.raw.kind = .leftBrace)) = true then _ else _ : Parser Node).run r.settle = _
      rw [hkind]
      rfl
  · exact ⟨r, hat, rfl⟩

/-- what is no word of a statement starts an expression -/
theorem run_statement {r : Reading} (hat : r.At text k)
    (hkind : (place text k).kind.isTerm = true ∨ (place text k).kind.isStop = true) :
    (statement rules .file).run r = (expressionStatement rules .file).run r.settle := by
  have hpeek : Parser.peekKind.run r = .ok (r.settle.raw.kind, r.settle) := rfl
  rw [statement, Parser.run_bind_of_run hpeek, hat.raw_settle]
  cases hplace : (place text k).kind <;> first | rfl | simp [hplace, Kind.isTerm, Kind.isStop] at hkind

/-- **A statement whose tokens stand again** with what ends one behind them is read again. -/
theorem echoes_statement (hrules : Rules.Echoed τ rules rules') {r r' : Reading} (hat : τ.At 0 r r') :
    Echoes (Ends τ) ((statement rules .file).run r) ((statement rules' .file).run r') := by
  have hexpression : Echoes (Ends τ) ((expressionStatement rules .file).run r.settle)
      ((expressionStatement rules' .file).run r'.settle) := by
    rw [expressionStatement_eq, expressionStatement_eq]
    refine (follows_expression hrules _ _ hat.settle.toAt).bind ?_
    rintro n s n' s' ⟨j, hj, e, hn, hn'⟩
    have hbrace := τ.kind_ne (c := .leftBrace) hj.le rfl rfl
    obtain ⟨t, ht, hrun⟩ := hn.run_fileEnd τ.quiet rules hj.left hbrace.1
    obtain ⟨t', ht', hrun'⟩ := hn'.run_fileEnd τ.quiet' rules' hj.right hbrace.2
    rw [hrun, hrun']
    exact echoes_statementEnd ⟨hj.le, ht, ht'⟩ ⟨e, hn, hn'⟩
  have hkind : ((τ.left 0).kind.isTerm = true ∨ (τ.left 0).kind.isStop = true) ∧
      ((τ.right 0).kind.isTerm = true ∨ (τ.right 0).kind.isStop = true) := by
    rcases τ.cases_left hat.le with ⟨hlt, hterm⟩ | ⟨hstop, hstop'⟩
    · exact ⟨.inl hterm, .inl (by rwa [τ.kind_right hlt])⟩
    · exact ⟨.inr hstop, .inr hstop'⟩
  rw [run_statement hat.left hkind.1, run_statement hat.right hkind.2]
  exact hexpression

end

end LpcStyle
