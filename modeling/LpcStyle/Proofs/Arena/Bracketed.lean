import Mathlib.Tactic
import LpcStyle.Arena.Bracketed
import LpcStyle.Grammar.Bracketed
import LpcStyle.Proofs.Arena.Sequence

/-!
Forms between brackets are built alike.
-/

namespace LpcStyle.Arena

open Text LpcStyle.Parser
open Store (Key)

variable {x : Handle} {rules : LpcStyle.Rules} {rules' : Rules}

theorem builds_textBlock : Builds 0 Grammar.textBlock textBlock One := by
  unfold Grammar.textBlock textBlock
  refine .reading_bind (.expect _ _) fun start => .reading_bind (.expect _ _) fun body => ?_
  refine .reading_bind (.expect _ _) fun stop => ?_
  exact .build (.textBlock (start.text ++ body.text ++ stop.text)) rfl rfl

theorem builds_structItem (h : SameRules rules rules') : Builds 0 (Grammar.structItem rules) (structItem rules') One := by
  unfold Grammar.structItem structItem
  refine .one_bind h.expression fun key => .cell_bind (x := key) (by simp) fun c hfits _ => ?_
  rw [hfits.isIdentifier]
  refine .ite (fun _ => .pure rfl) fun _ => .reading_bind (.eat _) fun colon => ?_
  cases colon with
  | none => exact .pure rfl
  | some _ =>
    refine .one_bind h.expression fun value => .startOf_bind (x := key) (by simp) (.stopOf_bind (x := value) (by simp) ?_)
    exact .build (.mappingPair key [value]) rfl rfl

theorem builds_paren (h : SameRules rules rules') : Builds 0 (Grammar.paren rules) (paren rules') One := by
  unfold Grammar.paren paren
  refine .reading_bind (.expect _ _) fun start => .reading_bind (.eat _) fun name => ?_
  cases name with
  | none =>
    refine .closed_bind (builds_delimited _ _ h.expression) fun xs close => ?_
    exact .build (.paren xs) rfl rfl
  | some name =>
    refine .closed_bind (builds_delimited _ _ (builds_structItem h)) fun xs close => ?_
    exact .build (.structLiteral (.ofToken name) xs) rfl rfl

theorem builds_array (h : SameRules rules rules') : Builds 0 (Grammar.array rules) (array rules') One := by
  unfold Grammar.array array
  refine .reading_bind (.expect _ _) fun start => .closed_bind (builds_delimited _ _ h.expression) fun xs close => ?_
  exact .build (.array xs) rfl rfl

theorem builds_moreValues (h : SameRules rules rules') :
    Builds {x} (Grammar.moreValues rules [x.node]) (Builder.loop [x.key] (valueRound rules')) Row := by
  refine .loop (I := Row) ⟨x, [], rfl, rfl, rfl⟩ ?_
  rintro _ _ _ ⟨last, before, rfl, rfl, rfl⟩
  refine .reading_bind (.eat _) fun semicolon => ?_
  cases semicolon with
  | none => exact .pure ⟨last, before, rfl, rfl, rfl⟩
  | some _ => exact .one_bind h.expression fun x => .pure ⟨x, last :: before, rfl, rfl, Multiset.add_comm _ _⟩

theorem builds_mappingPair (h : SameRules rules rules') :
    Builds 0 (Grammar.mappingPair rules) (mappingPair rules') One := by
  unfold Grammar.mappingPair mappingPair
  refine .one_bind h.expression fun key => .reading_bind (.eat _) fun colon => ?_
  cases colon with
  | none =>
    refine .startOf_bind (x := key) (by simp) (.stopOf_bind (x := key) (by simp) ?_)
    exact .build (.mappingPair key []) rfl rfl
  | some _ =>
    refine .one_bind h.expression fun first => .row_bind rfl (builds_moreValues h) fun last before => ?_
    refine .startOf_bind (x := key) (by simp) (.stopOf_bind (x := last) (by simp) ?_)
    rw [← List.map_reverse, ← List.map_reverse]
    rw [← Multiset.coe_reverse (last :: before)]
    exact .build (.mappingPair key (last :: before).reverse) rfl rfl

theorem builds_mapping (h : SameRules rules rules') : Builds 0 (Grammar.mapping rules) (mapping rules') One := by
  unfold Grammar.mapping mapping
  refine .reading_bind (.expect _ _) fun start => .closed_bind (builds_delimited _ _ (builds_mappingPair h)) fun xs close => ?_
  exact .build (.mapping xs) rfl rfl

theorem builds_index (h : SameRules rules rules') :
    Builds {x} (Grammar.index rules x.node) (index rules' x.key) One := by
  unfold Grammar.index index
  refine .reading_bind (.expect _ _) fun start => .many_bind (.manyLoop fun xs => ?_) fun xs => ?_
  · refine .reading_bind .peek fun token => .ite (fun _ => .pure ⟨xs, rfl, rfl, rfl⟩) fun _ => ?_
    cases Grammar.indexMark? token.kind with
    | some mark =>
      refine .reading_bind .take fun _ => .alloc_bind (.indexMark mark) rfl (Multiset.add_zero _).symm fun key => ?_
      exact .pure ⟨⟨key, leaf token (.indexMark mark)⟩ :: xs, rfl, rfl, Multiset.add_comm _ _⟩
    | none => exact .one_bind h.expression fun x => .pure ⟨x :: xs, rfl, rfl, Multiset.add_comm _ _⟩
  · refine .reading_bind (.expect _ _) fun close => ?_
    rw [← List.map_reverse, ← List.map_reverse, ← Multiset.coe_reverse xs]
    refine .onward_bind rfl (.build (.indexor xs.reverse) rfl rfl) fun indexor => .startOf_bind (x := x) (by simp) ?_
    exact .build (.index x indexor) rfl rfl

theorem builds_closureItem (h : SameRules rules rules') (kind : Kind) :
    Builds 0 (Grammar.closureItem rules kind) (closureItem rules' kind) One := by
  unfold Grammar.closureItem closureItem
  refine .ite (fun _ => h.statement _) fun _ => .one_bind h.expression fun x => .reading_bind (.eat _) fun _ => .pure rfl

theorem builds_inlineClosure (h : SameRules rules rules') :
    Builds 0 (Grammar.inlineClosure rules) (inlineClosure rules') One := by
  unfold Grammar.inlineClosure inlineClosure
  refine .reading_bind (.expect _ _) fun start => .many_bind (.manyLoop fun xs => ?_) fun xs => ?_
  · refine .reading_bind .raw fun token => ?_
    cases token.kind with
    | lineComment => exact builds_commentRound
    | blockComment => exact builds_commentRound
    | blankLines => exact .reading_bind .takeRaw fun _ => .pure ⟨xs, rfl, rfl, rfl⟩
    | closureEnd => exact .pure ⟨xs, rfl, rfl, rfl⟩
    | semicolon => exact .reading_bind .take fun _ => .pure ⟨xs, rfl, rfl, rfl⟩
    | _ => exact .one_bind (builds_closureItem h _) fun x => .andThen builds_addItem fun _ _ _ hitems => .pure hitems
  · refine .reading_bind (.expect _ _) fun close => ?_
    rw [← List.map_reverse, ← List.map_reverse]
    rw [← Multiset.coe_reverse xs]
    exact .build (.inlineClosure xs.reverse) rfl rfl

theorem builds_lambda (h : SameRules rules rules') : Builds 0 (Grammar.lambda rules) (lambda rules') One := by
  unfold Grammar.lambda lambda
  refine .reading_bind (.expect _ _) fun start => .one_bind h.expression fun args => .reading_bind (.expect _ _) fun _ => ?_
  refine .one_bind h.expression fun code => .reading_bind (.expect _ _) fun close => ?_
  exact .build (.lambda args code) rfl rfl

end LpcStyle.Arena
