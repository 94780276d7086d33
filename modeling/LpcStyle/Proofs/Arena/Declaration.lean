import Mathlib.Tactic
import LpcStyle.Arena.Declaration
import LpcStyle.Proofs.Arena.Expression

/-!
Declarations are built alike.
-/

namespace LpcStyle.Arena

open Text LpcStyle.Parser
open Store (Key)

variable {x : Handle} {rules : LpcStyle.Rules} {rules' : Rules}

theorem builds_declaratorRest (h : SameRules rules rules') (name : Option Handle) {start stop : Nat}
    {isArray byRef allowDefault : Bool} :
    Builds ↑name.toList
      (Grammar.declaratorRest rules ⟨start, stop, name.map Handle.node, isArray, byRef⟩ allowDefault)
      (declaratorRest rules' ⟨start, stop, name.map Handle.key, isArray, byRef⟩ allowDefault) One := by
  unfold Grammar.declaratorRest declaratorRest
  refine .reading_bind (.eat _) fun ellipsis => ?_
  extract_lets stop' shape join stop'' shape' join'
  have hjoin (hasValue : Bool) : Builds ↑name.toList (join hasValue) (join' hasValue) One := by
    refine .ite (fun _ => .reading_bind .take fun token => .one_bind h.expression fun value => ?_) fun _ => ?_
    · refine .stopOf_bind (x := value) (by simp) ?_
      exact .build (.declarator name isArray byRef ellipsis.isSome (some value) (token.kind = .colon)) rfl rfl
    · refine .build (.declarator name isArray byRef ellipsis.isSome none false) rfl ?_
      simp [Shape.parts]
  refine .reading_bind (.atText _ _) fun isValue => .ite (fun _ => ?_) fun _ => .ite (fun _ => ?_) fun _ => ?_
  · exact hjoin true
  · exact .reading_bind (.at_ _) hjoin
  · exact hjoin false

theorem builds_declarator (h : SameRules rules rules') (allowDefault : Bool) :
    Builds 0 (Grammar.declarator rules allowDefault) (declarator rules' allowDefault) One := by
  unfold Grammar.declarator declarator
  refine .reading_bind .peek fun token => .reading_bind (.eat _) fun star => .reading_bind .eatAmpersand fun ampersand => ?_
  refine .reading_bind .atName fun isName => .ite (fun _ => .one_bind builds_name fun name => ?_) fun _ => ?_
  · refine .stopOf_bind (x := name) (by simp) ?_
    exact .of_eq (Multiset.zero_add _) (builds_declaratorRest h (some name))
  · refine .reading_bind (.at_ _) fun spread => .ite (fun _ => ?_) fun _ => ?_
    · exact .wanted_bind
    · exact builds_declaratorRest h none

/-- a declarator, and those before it -/
def Declarators (y : Node × List Node) (x : Key × List Key) (held : Multiset Handle) : Prop :=
  Row (y.1 :: y.2) (x.1 :: x.2) held

theorem builds_moreDeclarators (h : SameRules rules rules') (comments : Bool) :
    Builds {x} (Grammar.moreDeclarators rules comments x.node) (moreDeclarators rules' comments x.key) Declarators := by
  refine .loop (I := Declarators) ⟨x, [], rfl, rfl, rfl⟩ ?_
  rintro ⟨_, _⟩ ⟨_, _⟩ _ ⟨last, before, hn, hk, rfl⟩
  obtain ⟨rfl, rfl⟩ := List.cons.inj hn
  obtain ⟨rfl, rfl⟩ := List.cons.inj hk
  refine .reading_bind (.eat _) fun comma => ?_
  cases comma with
  | none => exact .pure ⟨last, before, rfl, rfl, rfl⟩
  | some _ =>
    dsimp only
    have hnext (n : Node) : Builds (↑before + {⟨last.key, n⟩})
        (do return .inl (← Grammar.declarator rules false, n :: before.map Handle.node))
        (do return .inl (← declarator rules' false, last.key :: before.map Handle.key)) (Round Declarators Declarators) := by
      refine .one_bind (builds_declarator h false) fun x => .pure ⟨x, ⟨last.key, n⟩ :: before, rfl, rfl, ?_⟩
      rw [← Multiset.cons_coe, ← Multiset.cons_coe, ← Multiset.singleton_add, ← Multiset.singleton_add]
      abel
    have heq : (↑(last :: before) : Multiset Handle) = ↑before + {last} := Multiset.add_comm {last} ↑before
    refine .ite (fun _ => .bind heq .trailingComment ?_) fun _ => ?_
    · rintro n _ _ rfl
      exact hnext n
    · exact .of_eq heq (hnext last.node)

/-- the step of some declarators, out of all that is in hand -/
theorem Builds.declarators_then {γ δ : Type} {held : Multiset Handle} {q : Parser (Node × List Node)}
    {p : Builder (Key × List Key)} {f : Node × List Node → Parser δ} {g : Key × List Key → Builder γ}
    {S : δ → γ → Multiset Handle → Prop} (h : Builds held q p Declarators)
    (hf : ∀ (last : Handle) (before : List Handle), Builds ↑(last :: before)
      (f (last.node, before.map Handle.node)) (g (last.key, before.map Handle.key)) S) :
    Builds held (q >>= f) (p >>= g) S := by
  refine .andThen h ?_
  rintro ⟨_, _⟩ ⟨_, _⟩ _ ⟨last, before, hn, hk, rfl⟩
  obtain ⟨rfl, rfl⟩ := List.cons.inj hn
  obtain ⟨rfl, rfl⟩ := List.cons.inj hk
  exact hf last before

theorem builds_localDeclaration (h : SameRules rules rules') :
    Builds 0 (Grammar.localDeclaration rules) (localDeclaration rules') One := by
  unfold Grammar.localDeclaration localDeclaration
  refine .reading_bind .peek fun token => .reading_bind .modifiers fun modifiers => .reading_bind (.expect _ _) fun first => ?_
  refine .reading_bind (.typeFrom first) fun typeName => .one_then (builds_declarator h false) fun x => ?_
  refine .declarators_then (builds_moreDeclarators h false) fun last before => .stopOf_bind (x := last) (by simp) ?_
  dsimp only
  rw [← List.map_cons, ← List.map_cons, ← List.map_reverse, ← List.map_reverse, ← Multiset.coe_reverse]
  exact .build (.varDecl modifiers (some typeName) (last :: before).reverse) rfl rfl

theorem builds_parameter (h : SameRules rules rules') : Builds 0 (Grammar.parameter rules) (parameter rules') One := by
  unfold Grammar.parameter parameter
  refine .reading_bind .peek fun token => .reading_bind .modifiers fun modifiers => .reading_bind (.expect _ _) fun first => ?_
  refine .reading_bind (.isTypeUsedAsName modifiers first) fun isName => .ite (fun _ => ?_) fun _ => ?_
  · refine .alloc_bind (.identifier first.text) rfl (Multiset.zero_add _).symm fun key => ?_
    exact .of_eq (Multiset.zero_add _) (builds_expressionFrom (x := ⟨key, leaf first (.identifier first.text)⟩) h)
  · refine .reading_bind (.typeFrom first) fun typeName => .reading_bind .atDeclarator fun isDeclarator => ?_
    refine .ite (fun _ => .one_then (builds_declarator h true) fun x => .stopOf_bind (x := x) (by simp) ?_) fun _ => ?_
    · exact .build (.varDecl modifiers (some typeName) [x]) rfl rfl
    · exact .build (.varDecl modifiers (some typeName) []) rfl rfl

theorem builds_argument (h : SameRules rules rules') : Builds 0 (Grammar.argument rules) (argument rules') One := by
  unfold Grammar.argument argument
  refine .reading_bind .peekKind fun kind => ?_
  cases kind with
  | modifier => exact builds_parameter h
  | typeWord => exact builds_parameter h
  | _ => exact builds_expression h

/-- a block is built of its statements and the comment beside its opening brace -/
theorem Builds.buildBlock {opener : Option (Key × Comment)} {xs : List Handle} {start stop : Nat} :
    Builds (↑(opener.map Handle.ofComment).toList + ↑xs)
      (Parser.build start stop (.codeBlock (opener.map (·.2)) (xs.map Handle.node)))
      (do
        let span ← Builder.reading (spanning start stop)
        Builder.alloc { span, shape := .codeBlock none (xs.map Handle.key), opener := opener.map (·.1) }) One := by
  refine .reading_bind (.spanning start stop) fun span => ?_
  rw [← bind_pure (Builder.alloc _)]
  refine .step_bind fun others r s hs => ⟨_, _, _, rfl, hs.alloc fun ms howned => ?_, .pure rfl⟩
  rw [Multiset.coe_add] at howned
  exact howned.buildBlock

theorem builds_block (h : SameRules rules rules') (opener : Option (Key × Comment)) :
    Builds ↑(opener.map Handle.ofComment).toList (Grammar.block rules (opener.map (·.2)))
      (block rules' (opener.map (·.1))) One := by
  unfold Grammar.block block
  refine .reading_bind (.expect _ _) fun start => .get_bind fun r s hraw hline _ => ?_
  extract_lets join r' join'
  have hjoin (opener : Option (Key × Comment)) :
      Builds ↑(opener.map Handle.ofComment).toList (join (opener.map (·.2))) (join' (opener.map (·.1))) One :=
    .many_bind (builds_statementList h _ _) fun xs => .reading_bind (.expect _ _) fun close => .buildBlock
  rw [show r'.raw = r.raw from hraw, show r'.onOwnLine = r.onOwnLine from hline, Option.isNone_map, Option.isNone_map]
  refine .ite (fun hc => ?_) fun _ => hjoin opener
  obtain rfl : opener = none := by
    simp only [Bool.and_eq_true] at hc
    exact Option.isNone_iff_eq_none.1 hc.1.1
  simp only [map_eq_pure_bind, bind_assoc, pure_bind]
  exact .takeComment_bind fun c => hjoin (some c)

/-- the comments but the first are parked -/
theorem Builds.parkTail_bind {γ δ : Type} {cs : List (Key × Comment)} {f : Unit → Parser δ} {g : Unit → Builder γ}
    {S : δ → γ → Multiset Handle → Prop} (h : Builds ↑(cs.head?.map Handle.ofComment).toList (f ()) (g ()) S) :
    Builds ↑(cs.map Handle.ofComment) ((cs.map (·.2)).tail.forM park >>= f)
      ((cs.map (·.1)).tail.forM Builder.park >>= g) S := by
  cases cs with
  | nil => exact h
  | cons c cs =>
    have hheld :
        (↑((c :: cs).map Handle.ofComment) : Multiset Handle) = {Handle.ofComment c} + ↑(cs.map Handle.ofComment) := rfl
    exact .parkAll_bind hheld h

theorem builds_functionBody (h : SameRules rules rules') :
    Builds 0 (Grammar.functionBody rules) (functionBody rules') One := by
  unfold Grammar.functionBody functionBody
  refine .reading_bind (.at_ _) fun atBrace => .ite (fun _ => .wanted_bind) fun _ => ?_
  refine .comments_bind .takeParked fun cs => .of_eq (Multiset.zero_add _) (.parkTail_bind ?_)
  rw [List.head?_map, List.head?_map]
  exact builds_block h cs.head?

theorem builds_function (h : SameRules rules rules') (scope : Scope) (head : Grammar.DeclarationHead) :
    Builds {x} (Grammar.function rules scope head x.node) (function rules' scope head x.key) One := by
  unfold Grammar.function function
  refine .reading_bind (.expect _ _) fun _ => .closed_bind (builds_delimited _ _ h.argument) fun params close => ?_
  refine .reading_bind (.eat _) fun semicolon => ?_
  cases semicolon with
  | some _ => exact .build (.function head.modifiers head.typeName head.isArray x params none) rfl (by simp [Shape.parts])
  | none =>
    refine .ite (fun _ => ?_) fun _ => ?_
    · refine .cell_bind (x := x) (by simp) fun c hfits _ => ?_
      rw [Builds.span_eq hfits]
      exact .refuse_bind
    · refine .one_bind (builds_functionBody h) fun body => .stopOf_bind (x := body) (by simp) ?_
      exact .build (.function head.modifiers head.typeName head.isArray x params (some body)) rfl rfl

theorem builds_structDefinition (h : SameRules rules rules') (start : Nat) (name : Token) :
    Builds 0 (Grammar.structDefinition rules start name) (structDefinition rules' start name) One := by
  unfold Grammar.structDefinition structDefinition
  refine .alloc_bind (.identifier name.text) rfl (Multiset.zero_add _).symm fun key => ?_
  refine .reading_bind (.expect _ _) fun _ => .many_bind (builds_statementList h _ _) fun members => ?_
  refine .reading_bind (.expect _ _) fun close => .reading_bind (.eat _) fun _ => ?_
  exact .build (.structDef ⟨key, leaf name (.identifier name.text)⟩ members) rfl rfl

theorem builds_inherit (h : SameRules rules rules') (modifiers : List Lexeme) (start : Nat) :
    Builds 0 (Grammar.inherit rules modifiers start) (inherit rules' modifiers start) One := by
  unfold Grammar.inherit inherit
  refine .reading_bind (.expect _ _) fun _ => .one_bind h.expression fun argument => ?_
  refine .reading_bind (.expect _ _) fun semicolon => ?_
  exact .build (.inherit modifiers argument) rfl rfl

theorem builds_declared (h : SameRules rules rules') (scope : Scope) (start : Nat) (modifiers : List Lexeme)
    (typeName : Option Lexeme) :
    Builds 0 (Grammar.declared rules scope start modifiers typeName) (declared rules' scope start modifiers typeName) One := by
  unfold Grammar.declared declared
  refine .reading_bind .peek fun token => .reading_bind (.eat _) fun star => .reading_bind .eatAmpersand fun ampersand => ?_
  refine .one_then builds_name fun name => .reading_bind (.at_ _) fun calls => .ite (fun _ => ?_) fun _ => ?_
  · exact builds_function h scope _
  · refine .stopOf_bind (x := name) (by simp) (.one_then (builds_declaratorRest h (some name)) fun first => ?_)
    refine .declarators_then (builds_moreDeclarators h true) fun last before => ?_
    refine .reading_bind .statementEnd fun _ => .stopOf_bind (x := last) (by simp) ?_
    rw [← List.map_cons, ← List.map_cons, ← List.map_reverse, ← List.map_reverse, ← Multiset.coe_reverse]
    exact .build (.varDecl modifiers typeName (last :: before).reverse) rfl rfl

theorem builds_declaration (h : SameRules rules rules') (scope : Scope) :
    Builds 0 (Grammar.declaration rules scope) (declaration rules' scope) One := by
  unfold Grammar.declaration declaration
  refine .reading_bind .peek fun token => .reading_bind .modifiers fun modifiers => .reading_bind .peekKind fun kind => ?_
  cases kind with
  | inheritWord => exact builds_inherit h _ _
  | typeWord =>
    refine .reading_bind .take fun first => .reading_bind (.isTypeUsedAsName modifiers first) fun isName => ?_
    refine .ite (fun _ => ?_) fun _ => .ite (fun _ => ?_) fun _ => builds_declared h _ _ _ _
    · refine .alloc_bind (.identifier first.text) rfl (Multiset.zero_add _).symm fun key => ?_
      have hexpression := builds_expressionFrom (x := ⟨key, leaf first (.identifier first.text)⟩) h
      refine .one_then (.of_eq (Multiset.zero_add _) hexpression) fun x => ?_
      exact .reading_bind .statementEnd fun _ => .pure rfl
    · refine .reading_bind (.expect _ _) fun name => .reading_bind (.at_ _) fun atBrace => .ite (fun _ => ?_) fun _ => ?_
      · cases modifiers with
        | nil => exact builds_structDefinition h _ _
        | cons modifier _ => exact .refuse
      · exact .reading_bind (.lexemeBetween first name) fun typeName => builds_declared h _ _ _ _
  | _ => exact .ite (fun _ => .wanted) fun _ => builds_declared h _ _ _ _

end LpcStyle.Arena
