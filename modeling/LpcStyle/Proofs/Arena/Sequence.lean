import Mathlib.Tactic
import LpcStyle.Arena.Sequence
import LpcStyle.Grammar.Sequence
import LpcStyle.Proofs.Arena.Builds

/-!
Lists are read into the store as into a tree. The newest element comes first while a list is read; it is the one that may
still get a suffix.
-/

namespace LpcStyle.Arena

open Text LpcStyle.Parser
open Store (Key)

/-- the rules of two grammars build the same -/
structure SameRules (rules : LpcStyle.Rules) (rules' : Rules) : Prop where
  expression : Builds 0 rules.expression rules'.expression One
  operand : Builds 0 rules.operand rules'.operand One
  climb : ∀ (x : Handle) (rank : Nat), Builds {x} (rules.climb x.node rank) (rules'.climb x.key rank) One
  argument : Builds 0 rules.argument rules'.argument One
  statement : ∀ scope, Builds 0 (rules.statement scope) (rules'.statement scope) One

/-- what is asked of the form in a cell is what is asked of the form of the node -/
theorem Cell.Fits.ask {γ : Type} {c : Cell} {n : Node} (h : c.Fits n.branch.label) (f : {α : Type} → Shape α → γ)
    (hmap : ∀ {α β : Type} (g : α → β) (σ : Shape α), f (σ.map g) = f σ)
    (hclosed : ∀ {α : Type} (σ : Shape α), f σ.closed = f σ) : f c.shape = f n.shape := by
  obtain ⟨span, shape, suffix⟩ := n
  have hshape : (c.shape.map fun _ => ()) = (shape.map fun _ => ()).closed := h.shape
  rw [← hmap (fun _ => ()) c.shape, hshape, hclosed, hmap]
  rfl

theorem Cell.Fits.isBlankLine {c : Cell} {n : Node} (h : c.Fits n.branch.label) :
    c.shape.isBlankLine = n.shape.isBlankLine :=
  h.ask Shape.isBlankLine (fun _ σ => by cases σ <;> rfl) fun σ => by cases σ <;> rfl

theorem Cell.Fits.isIdentifier {c : Cell} {n : Node} (h : c.Fits n.branch.label) :
    c.shape.isIdentifier = n.shape.isIdentifier :=
  h.ask Shape.isIdentifier (fun _ σ => by cases σ <;> rfl) fun σ => by cases σ <;> rfl

variable {xs : List Handle} {x : Handle} {rules : LpcStyle.Rules} {rules' : Rules}

theorem builds_placeComment {ownLine : Bool} {c : Key × Comment} :
    Builds (↑xs + {Handle.ofComment c}) (pure (Grammar.placeComment ownLine c.2 (xs.map Handle.node)))
      (placeComment ownLine c.1 (xs.map Handle.key)) Many := by
  cases xs with
  | nil => exact .pure ⟨[.ofComment c], rfl, rfl, rfl⟩
  | cons x xs =>
    refine .cell_bind (x := x) (by simp) fun d hfits hsuffix => ?_
    simp only [List.map_cons, Grammar.placeComment, hfits.isBlankLine, hsuffix]
    split
    · exact .pure ⟨.ofComment c :: x :: xs, rfl, rfl, Multiset.add_comm _ _⟩
    · next hplace =>
      simp only [Bool.or_eq_true, not_or, Bool.not_eq_true] at hplace
      have hheld : (↑(x :: xs) + {Handle.ofComment c} : Multiset Handle) = ↑xs + {x} + {Handle.ofComment c} := by
        rw [Multiset.add_comm (↑xs : Multiset Handle), Multiset.singleton_add, Multiset.cons_coe]
      refine .setSuffix_bind hplace.1.2 hheld (.pure ⟨⟨x.key, x.node.withSuffix c.2⟩ :: xs, rfl, rfl, ?_⟩)
      exact Multiset.add_comm _ _

theorem builds_listComment :
    Builds ↑xs (Grammar.listComment (xs.map Handle.node)) (listComment (xs.map Handle.key)) Many := by
  unfold Grammar.listComment listComment
  refine .get_bind fun r s _ hline _ => .takeComment_bind fun c => ?_
  rw [hline]
  exact builds_placeComment

/-- the round of a loop that takes a comment -/
theorem builds_commentRound {β α : Type} {R : β → α → Multiset Handle → Prop} :
    Builds ↑xs (do return .inl (← Grammar.listComment (xs.map Handle.node)))
      (do return .inl (← listComment (xs.map Handle.key))) (Round Many R) :=
  .andThen builds_listComment fun _ _ _ hitems => .pure hitems

theorem builds_addItem :
    Builds (↑xs + {x}) (Grammar.addItem (xs.map Handle.node) x.node) (addItem (xs.map Handle.key) x.key) Many := by
  unfold Grammar.addItem addItem
  refine .bind rfl .adoptParked ?_
  rintro ⟨n, _⟩ keys held ⟨cs, rfl, rfl, rfl⟩
  refine .pure ⟨(cs.map Handle.ofComment).reverse ++ ⟨x.key, n⟩ :: xs, ?_, ?_, ?_⟩
  · simp [Handle.ofComment, Function.comp_def]
  · simp [Handle.ofComment, Function.comp_def]
  · rw [← Multiset.coe_add, Multiset.coe_reverse, ← Multiset.cons_coe, ← Multiset.singleton_add]
    abel

theorem builds_addBlank {token : Token} :
    Builds ↑xs (pure (Grammar.addBlank token (xs.map Handle.node))) (addBlank token (xs.map Handle.key)) Many := by
  cases xs with
  | nil => exact .pure ⟨[], rfl, rfl, rfl⟩
  | cons x xs =>
    refine .cell_bind (x := x) (by simp) fun d hfits _ => ?_
    simp only [List.map_cons, Grammar.addBlank, hfits.isBlankLine]
    split
    · exact .pure ⟨x :: xs, rfl, rfl, rfl⟩
    · refine .alloc_bind .blankLine rfl (Multiset.add_zero _).symm fun key => ?_
      exact .pure ⟨⟨key, Parser.leaf token .blankLine⟩ :: x :: xs, rfl, rfl, Multiset.add_comm _ _⟩

/-- blank lines at the front are let go; their cells stay -/
theorem builds_dropBlanks :
    Builds ↑xs (pure ((xs.map Handle.node).dropWhile (·.shape.isBlankLine))) (dropBlanks (xs.map Handle.key)) Many := by
  induction xs with
  | nil => exact .pure ⟨[], rfl, rfl, rfl⟩
  | cons x xs ih =>
    refine .cell_bind (x := x) (by simp) fun d hfits _ => ?_
    simp only [List.map_cons, List.dropWhile_cons, hfits.isBlankLine]
    split
    · exact .drop (Multiset.le_cons_self _ x) ih
    · exact .pure ⟨x :: xs, rfl, rfl, rfl⟩

theorem builds_statementList (h : SameRules rules rules') (scope : Scope) (closers : List Kind) :
    Builds 0 (Grammar.statementList rules scope closers) (statementList rules' scope closers) Many := by
  unfold Grammar.statementList statementList
  refine .many_bind (.manyLoop fun xs => ?_) fun xs => ?_
  · refine .reading_bind .raw fun token => ?_
    have hitem (kind : Kind) : Builds ↑xs
        (if closers.contains kind then return .inr (xs.map Handle.node)
          else do return .inl (← Grammar.addItem (xs.map Handle.node) (← rules.statement scope)))
        (if closers.contains kind then return .inr (xs.map Handle.key)
          else do return .inl (← addItem (xs.map Handle.key) (← rules'.statement scope))) (Round Many Many) := by
      refine .ite (fun _ => .pure ⟨xs, rfl, rfl, rfl⟩) fun _ => .one_bind (h.statement scope) fun x => ?_
      exact .andThen builds_addItem fun _ _ _ hitems => .pure hitems
    cases token.kind with
    | lineComment => exact builds_commentRound
    | blockComment => exact builds_commentRound
    | blankLines => exact .reading_bind .takeRaw fun _ => .lift builds_addBlank fun _ _ hitems => .pure hitems
    | semicolon => exact .reading_bind .take fun _ => .pure ⟨xs, rfl, rfl, rfl⟩
    | endOfFile => exact .pure ⟨xs, rfl, rfl, rfl⟩
    | _ => exact hitem _
  · refine .lift (.of_eq (Multiset.zero_add _) builds_dropBlanks) ?_
    rintro _ _ ⟨ys, hys, rfl, rfl⟩
    rw [hys]
    exact .pure ⟨ys.reverse, by simp, by simp, by simp⟩

theorem builds_directive : Builds 0 Grammar.directive directive One := by
  unfold Grammar.directive directive
  refine .reading_bind .take fun hash => ?_
  extract_lets word name join word' name' join'
  refine .reading_bind .raw fun token => ?_
  have hjoin (key : Option Token) : Builds 0 (join key) (join' key) One :=
    .reading_bind (.directiveLines _) fun lines => .reading_bind (.mapM .lexeme _) fun args =>
      .build (.directive name (key.map Lexeme.ofToken) args) rfl rfl
  refine .ite (fun _ => ?_) fun _ => ?_
  · simp only [map_eq_pure_bind, bind_assoc, pure_bind]
    exact .reading_bind .takeRaw fun key => hjoin (some key)
  · simp only [pure_bind]
    exact hjoin none

theorem builds_delimited (close : Kind) (closeText : String) {item : Parser Node} {item' : Builder Key}
    (h : Builds 0 item item' One) :
    Builds 0 (Grammar.delimited close closeText item) (delimited close closeText item') Closed := by
  unfold Grammar.delimited delimited
  refine .many_bind (.manyLoop fun xs => ?_) fun xs => ?_
  · refine .reading_bind .raw fun token => ?_
    cases token.kind with
    | lineComment => exact builds_commentRound
    | blockComment => exact builds_commentRound
    | blankLines => exact .reading_bind .takeRaw fun _ => .pure ⟨xs, rfl, rfl, rfl⟩
    | _ =>
      refine .ite (fun _ => .pure ⟨xs, rfl, rfl, rfl⟩) fun _ => .ite (fun _ => .unexpected) fun _ => ?_
      refine .ite (fun _ => ?_) fun _ => ?_
      · exact .one_bind builds_directive fun x => .pure ⟨x :: xs, rfl, rfl, Multiset.add_comm _ _⟩
      · refine .one_bind h fun x => .reading_bind .peekKind fun separator => .andThen builds_addItem fun _ _ _ hitems => ?_
        refine .ite (fun _ => .reading_bind .take fun _ => .pure hitems) fun _ => .ite (fun _ => .pure hitems) fun _ => ?_
        exact .ite (fun _ => .pure hitems) fun _ => .wanted
  · exact .reading_bind (.expect _ _) fun token => .pure ⟨⟨xs.reverse, by simp, by simp, by simp⟩, rfl⟩

end LpcStyle.Arena
