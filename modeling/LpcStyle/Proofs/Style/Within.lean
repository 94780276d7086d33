import Mathlib.Tactic
import LpcStyle.Proofs.Style.Even
import LpcStyle.Proofs.Layout.Layouts
import LpcStyle.Proofs.Tree.Parts

/-!
Every part of a form is laid out inside the form. `d.Holds part` says that each layout of `d`, on one line or on several,
has a layout of `part` in it as it is. There is one lemma for each printing function, and from them every node of a tree
is laid out inside the tree. Main statement: `holds_print`.
-/

namespace LpcStyle

open Text

/-- every layout of `d` has one of `part` in it -/
def Doc.Holds (d part : Doc) : Prop :=
  ∀ flat t, d.Lays flat t → ∃ flat' s, part.Lays flat' s ∧ s <:+: t

namespace Doc.Holds

variable {a b d part : Doc}

theorem refl : d.Holds d := fun flat t h => ⟨flat, t, h, List.infix_refl t⟩

theorem trans (h : d.Holds a) (h' : a.Holds b) : d.Holds b := by
  intro flat t ht
  obtain ⟨flat₁, s, hs, hst⟩ := h flat t ht
  obtain ⟨flat₂, u, hu, hus⟩ := h' flat₁ s hs
  exact ⟨flat₂, u, hu, hus.trans hst⟩

theorem left (h : a.Holds part) : (a ++ b).Holds part := by
  intro flat t ht
  obtain ⟨x, y, rfl, hx, -⟩ := lays_andThen.1 ht
  obtain ⟨flat', s, hs, hsx⟩ := h flat x hx
  exact ⟨flat', s, hs, hsx.trans (List.prefix_append x y).isInfix⟩

theorem right (h : b.Holds part) : (a ++ b).Holds part := by
  intro flat t ht
  obtain ⟨x, y, rfl, -, hy⟩ := lays_andThen.1 ht
  obtain ⟨flat', s, hs, hsy⟩ := h flat y hy
  exact ⟨flat', s, hs, hsy.trans (List.suffix_append x y).isInfix⟩

theorem grouped (h : d.Holds part) : d.grouped.Holds part := by
  intro flat t ht
  obtain ⟨flat', -, ht⟩ := ht.ungroup
  exact h flat' t ht

theorem nested (h : d.Holds part) (amount : Int) : (d.nested amount).Holds part :=
  fun flat t ht => h flat t (lays_nested.1 ht)

theorem ite {c : Prop} [Decidable c] (ha : a.Holds part) (hb : b.Holds part) : (if c then a else b).Holds part := by
  split
  · exact ha
  · exact hb

/-- what one of the joined documents holds is held by all together -/
theorem joined {separator : Doc} {ds : List Doc} (h : a.Holds part ∨ ∃ d ∈ ds, d.Holds part) :
    (ds.foldl (fun done d => done ++ separator ++ d) a).Holds part := by
  induction ds generalizing a with
  | nil => simpa using h
  | cons d ds ih =>
    refine ih ?_
    rcases h with h | ⟨e, he, h⟩
    · exact .inl h.left.left
    · rcases List.mem_cons.1 he with rfl | he
      · exact .inl h.right
      · exact .inr ⟨e, he, h⟩

theorem join {separator : Doc} {ds : List Doc} (hd : d ∈ ds) (h : d.Holds part) : (Doc.join separator ds).Holds part := by
  cases ds with
  | nil => simp at hd
  | cons e ds =>
    refine joined ?_
    rcases List.mem_cons.1 hd with rfl | hd
    · exact .inl h
    · exact .inr ⟨d, hd, h⟩

theorem concat {ds : List Doc} (hd : d ∈ ds) (h : d.Holds part) : (Doc.concat ds).Holds part := by
  have hfold : Doc.concat ds = ds.foldl (fun done d => done ++ Doc.nil ++ d) .nil := by simp [Doc.concat]
  rw [hfold]
  exact joined (.inr ⟨d, hd, h⟩)

end Doc.Holds

namespace Style

variable {env : Env} {part : Doc} {p : Printed} {ps : List Printed}

/-! ## One printed node -/

theorem holds_full (p : Printed) : p.full.Holds p.bare :=
  .left (.ite (.left (.grouped .refl)) .refl)

theorem holds_indent {d : Doc} (h : d.Holds part) : (env.indent d).Holds part := h.nested _

theorem holds_bracketed {front back : String} {body : Doc} (h : body.Holds part) :
    (env.bracketed front body back).Holds part :=
  .grouped (.left (.left (.right (holds_indent (.right h)))))

theorem holds_listItem (comma : Bool) (p : Printed) : (listItem comma p).Holds p.bare :=
  .left (.ite (.left .refl) (.ite (.left .refl) .refl))

/-! ## Lists of printed nodes -/

theorem exists_listItem (hp : p ∈ ps) : ∃ d ∈ listItems ps, d.Holds p.bare := by
  induction ps with
  | nil => simp at hp
  | cons q ps ih =>
    rcases List.mem_cons.1 hp with rfl | hp
    · exact ⟨_, List.mem_cons_self, holds_listItem _ _⟩
    · obtain ⟨d, hd, h⟩ := ih hp
      exact ⟨d, List.mem_cons_of_mem _ hd, h⟩

theorem holds_commaList (separator : Doc) (hp : p ∈ ps) : (commaList separator ps).Holds p.bare := by
  obtain ⟨d, hd, h⟩ := exists_listItem hp
  exact .join hd h

theorem holds_fullList (separator : Doc) (hp : p ∈ ps) : (Doc.join separator (ps.map Printed.full)).Holds p.bare :=
  .join (List.mem_map_of_mem hp) (holds_full p)

theorem holds_statements (hp : p ∈ ps) : (statements ps).Holds p.bare := holds_fullList _ hp

/-- a part that may be missing -/
theorem holds_maybe {o : Option Printed} (hp : p ∈ o) : ((o.map Printed.full).getD .nil).Holds p.bare := by
  obtain rfl := Option.mem_def.1 hp
  exact holds_full p

/-! ## Collections -/

theorem holds_fillRest {done : Doc} (before : Printed) (h : done.Holds part ∨ ∃ p ∈ ps, part = p.bare) :
    (fillRest done before ps).Holds part := by
  induction ps generalizing done before with
  | nil => simpa [fillRest] using h
  | cons q ps ih =>
    refine ih q ?_
    rcases h with h | ⟨p, hp, rfl⟩
    · exact .inl (.ite h.left.left h.left)
    rcases List.mem_cons.1 hp with rfl | hp
    · exact .inl (.ite (holds_listItem _ _).right (.right (.grouped (holds_listItem _ _).right)))
    · exact .inr ⟨p, hp, rfl⟩

theorem holds_fill (hp : p ∈ ps) : (fill ps).Holds p.bare := by
  cases ps with
  | nil => simp at hp
  | cons q ps =>
    refine holds_fillRest q ?_
    rcases List.mem_cons.1 hp with rfl | hp
    · exact .inl (holds_listItem _ _)
    · exact .inr ⟨p, hp, rfl⟩

/-- an even number of elements leaves none without a partner -/
theorem exists_pairLine (hlength : ps.length % 2 = 0) (hp : p ∈ ps) : ∃ d ∈ pairLines env ps, d.Holds p.bare := by
  fun_induction pairLines env ps with
  | case1 key value rest ih =>
    have hrest : rest.length % 2 = 0 := by
      simp only [List.length_cons] at hlength
      omega
    rcases List.mem_cons.1 hp with rfl | hp
    · exact ⟨_, List.mem_cons_self, .left (.grouped (.left (.left (.left (.left .refl)))))⟩
    rcases List.mem_cons.1 hp with rfl | hp
    · exact ⟨_, List.mem_cons_self, .left (.grouped (.left (.right (holds_indent (.right .refl)))))⟩
    · obtain ⟨d, hd, h⟩ := ih hrest hp
      exact ⟨d, List.mem_cons_of_mem _ hd, h⟩
  | case2 ps hne =>
    obtain _ | ⟨a, _ | ⟨b, rest⟩⟩ := ps
    · simp at hp
    · simp at hlength
    · exact absurd rfl (hne a b rest)

theorem holds_array (place : Place) (span : Span) (hp : p ∈ ps) : (array env place span ps).Holds p.bare := by
  cases ps with
  | nil => simp at hp
  | cons first rest =>
    refine holds_bracketed ?_
    split
    · next hpairs =>
      simp only [printsAsPairs, Bool.and_eq_true, beq_iff_eq] at hpairs
      obtain ⟨d, hd, h⟩ := exists_pairLine hpairs.1.1 hp
      exact .right (.join hd h)
    · exact .left (.right (holds_fill hp))

theorem holds_mapping (hp : p ∈ ps) : (mapping env ps).Holds p.bare := by
  rw [mapping, if_neg (by simp [List.ne_nil_of_mem hp])]
  exact holds_bracketed (.left (holds_commaList _ hp))

theorem holds_mappingPair {key : Doc} (h : key.Holds part ∨ ∃ p ∈ ps, part = p.bare) :
    (mappingPair env key ps).Holds part := by
  rcases h with h | ⟨p, hp, rfl⟩
  · exact .ite h (.grouped h.left.left)
  · rw [mappingPair, if_neg (by simp [List.ne_nil_of_mem hp])]
    exact .grouped (.right (.grouped (holds_indent (.right (holds_fullList _ hp)))))

theorem holds_structLiteral (name : List Char) (hp : p ∈ ps) : (structLiteral env name ps).Holds p.bare := by
  rw [structLiteral, if_neg (by simp [List.ne_nil_of_mem hp])]
  exact .grouped (.left (.right (holds_indent (holds_commaList _ hp))))

/-! ## Expressions -/

theorem holds_call {callee : Doc} (h : callee.Holds part ∨ ∃ p ∈ ps, part = p.bare) : (call env callee ps).Holds part := by
  rcases h with h | ⟨p, hp, rfl⟩
  · obtain _ | ⟨a, _ | ⟨b, rest⟩⟩ := ps
    · exact h.left
    · exact .ite h.left.left.left h.left
    · exact h.left
  · obtain _ | ⟨a, _ | ⟨b, rest⟩⟩ := ps
    · simp at hp
    · obtain rfl := List.mem_singleton.1 hp
      exact .ite (.left (.right (holds_full p))) (.right (holds_bracketed (holds_commaList _ hp)))
    · exact .right (holds_bracketed (holds_commaList _ hp))

theorem holds_binaryish (isLogical : Bool) (slot : Slot) {left right : Printed} (op : Doc) (h : p = left ∨ p = right) :
    (binaryish isLogical slot left right op).Holds p.bare := by
  unfold binaryish
  extract_lets sameKind flatInParen isTop rest rest' doc
  have hrest (hp : p = right) : rest'.Holds p.bare :=
    .ite (.grouped (.right (hp ▸ holds_full p))) (.right (hp ▸ holds_full p))
  have hdoc : doc.Holds p.bare := h.elim (fun hp => .left (.grouped (hp ▸ holds_full p))) fun hp => .right (hrest hp)
  exact .ite hdoc.grouped hdoc

theorem holds_value (p : Printed) : (value env p).Holds p.bare :=
  .ite (.right (holds_full p)) (.grouped (holds_indent (.right (holds_full p))))

theorem holds_assignment {left : Doc} (op : Doc) {right : Option Printed}
    (h : left.Holds part ∨ ∃ p ∈ right, part = p.bare) : (assignment env left op right).Holds part := by
  cases right with
  | none => exact .left (by simpa using h)
  | some right =>
    rcases h with h | ⟨p, hp, rfl⟩
    · exact h.left.left.left
    · obtain rfl := Option.some.inj hp
      exact .right (holds_value _)

theorem holds_paren (hp : p ∈ ps) : (paren env ps).Holds p.bare := by
  rw [paren, if_neg (by simp [List.ne_nil_of_mem hp])]
  exact holds_bracketed (holds_commaList _ hp)

theorem holds_inlineClosure (hp : p ∈ ps) : (inlineClosure env ps).Holds p.bare := by
  rw [inlineClosure, if_neg (by simp [List.ne_nil_of_mem hp])]
  exact .grouped (.left (.left (.right (holds_indent (.right (holds_fullList _ hp))))))

/-! ## Statements and declarations -/

theorem holds_codeBlock (slot : Slot) (span : Span) (openComment : Option Comment) (hp : p ∈ ps) :
    (codeBlock env slot span openComment ps).Holds p.bare := by
  unfold codeBlock
  rw [if_neg (by simp [List.ne_nil_of_mem hp])]
  exact .left (.right (.grouped (.left (holds_indent (.right (holds_fullList _ hp))))))

theorem holds_branch (p : Printed) : (branch env p).Holds p.bare :=
  .ite (.right (holds_full p)) (.ite (holds_full p) (.grouped (holds_indent (.right (holds_full p)))))

theorem holds_header (keyword : String) {inner : Doc} (h : inner.Holds part) : (header env keyword inner).Holds part :=
  .right (holds_bracketed h)

theorem holds_ifElse {test : Doc} {consequent : Printed} {alternate : Option Printed}
    (h : test.Holds part ∨ part = consequent.bare ∨ ∃ p ∈ alternate, part = p.bare) :
    (ifElse env test consequent alternate).Holds part := by
  have hfront (h : test.Holds part ∨ part = consequent.bare) :
      (header env "if" test ++ branch env consequent).Holds part := by
    rcases h with h | rfl
    · exact .left (holds_header _ h)
    · exact .right (holds_branch _)
  refine .grouped ?_
  cases alternate with
  | none => exact hfront (by simpa using h)
  | some alternate =>
    rcases or_assoc.2 h with h | ⟨p, hp, rfl⟩
    · exact (hfront h).left.left.left
    · obtain rfl := Option.some.inj hp
      exact .right (.ite (.right (holds_full _)) (holds_branch _))

theorem holds_switch {test : Doc} (h : test.Holds part ∨ ∃ p ∈ ps, part = p.bare) : (switch env test ps).Holds part := by
  rcases h with h | ⟨p, hp, rfl⟩
  · exact .ite (holds_header _ h).left.left.left (holds_header _ h).left.left.left.left
  · rw [switch, if_neg (by simp [List.ne_nil_of_mem hp])]
    exact .left (.left (.right (holds_indent (.right (holds_statements hp)))))

theorem holds_switchCase {test : Option Printed} (hp : p ∈ test ∨ p ∈ ps) : (switchCase env test ps).Holds p.bare := by
  rcases hp with hp | hp
  · obtain rfl := Option.mem_def.1 hp
    exact .ite (.left (.right (holds_full p))) (.left (.left (.right (holds_full p))))
  · unfold switchCase
    rw [if_neg (by simp [List.ne_nil_of_mem hp])]
    exact .right (holds_indent (.right (holds_statements hp)))

theorem holds_forLoop {init test update : Option Printed} {body : Printed}
    (hp : p ∈ init ∨ p ∈ test ∨ p ∈ update ∨ p = body) : (forLoop env init test update body).Holds p.bare := by
  have hslot {d : Doc} {o : Option Printed} (h : d.Holds p.bare ∨ p ∈ o) : (headPart d o).Holds p.bare := by
    cases o with
    | none => exact h.resolve_right (by simp)
    | some q =>
      rcases h with h | h
      · exact h.left.left
      · obtain rfl := Option.some.inj h
        exact .right (holds_full _)
  rw [forLoop_eq]
  rcases hp with hp | hp | hp | rfl
  · exact .left (holds_header _ (hslot (.inl (.left (hslot (.inl (.left (holds_maybe hp))))))))
  · exact .left (holds_header _ (hslot (.inl (.left (hslot (.inr hp))))))
  · exact .left (holds_header _ (hslot (.inr hp)))
  · exact .right (holds_branch _)

theorem holds_foreachLoop {iterable body : Printed} (hp : p ∈ ps ∨ p = iterable ∨ p = body) :
    (foreachLoop env ps iterable body).Holds p.bare := by
  rcases hp with hp | rfl | rfl
  · exact .left (holds_header _ (.left (.left (holds_commaList _ hp))))
  · exact .left (holds_header _ (.right (.grouped (holds_full _))))
  · exact .right (holds_branch _)

theorem holds_doWhile {body : Printed} {test : Doc} (h : part = body.bare ∨ test.Holds part) :
    (doWhile env body test).Holds part := by
  rcases h with rfl | h
  · exact .left (.left (.right (.ite (.left (.right (holds_full _))) (.grouped (.left (holds_branch _))))))
  · exact .left (.right (holds_header _ h))

theorem holds_returnValue {argument : Option Printed} (hp : p ∈ argument) : (returnValue env argument).Holds p.bare := by
  obtain rfl := Option.mem_def.1 hp
  exact .right (.grouped (holds_indent (.left (.right (holds_full p)))))

theorem holds_varDecl (modifiers : List Lexeme) (typeName : Option Lexeme) (hp : p ∈ ps) :
    (varDecl modifiers typeName ps).Holds p.bare := by
  unfold varDecl
  rw [if_neg (by simp [List.ne_nil_of_mem hp])]
  extract_lets separator list
  have hlist : list.Holds p.bare := .grouped (holds_commaList _ hp)
  exact .ite hlist (.right (.ite (hlist.nested _) hlist))

theorem holds_declarator {name init : Option Printed} (isArray byRef isSpread isDefault : Bool)
    (hp : p ∈ name ∨ p ∈ init) : (declarator env name isArray byRef isSpread init isDefault).Holds p.bare := by
  unfold declarator
  extract_lets doc
  have hdoc (hp : p ∈ name) : doc.Holds p.bare := .left (.right (holds_maybe hp))
  cases init with
  | none => exact hdoc (by simpa using hp)
  | some init =>
    rcases hp with hp | hp
    · exact .ite (hdoc hp).left.left (hdoc hp).left.left
    · obtain rfl := Option.some.inj hp
      exact .ite (.right (holds_full _)) (.right (holds_value _))

theorem holds_function (modifiers : List Lexeme) (typeName : Option Lexeme) (isArray : Bool) {name : Doc}
    {body : Option Printed} (h : name.Holds part ∨ (∃ p ∈ ps, part = p.bare) ∨ ∃ p ∈ body, part = p.bare) :
    (function env modifiers typeName isArray name ps body).Holds part := by
  unfold function
  extract_lets head front front' doc
  have hdoc (h : name.Holds part ∨ ∃ p ∈ ps, part = p.bare) : doc.Holds part := by
    rcases h with h | ⟨p, hp, rfl⟩
    · exact .ite h.right.left h.right.left
    · dsimp only [doc]
      rw [if_neg (by simp [List.ne_nil_of_mem hp])]
      exact .right (holds_bracketed (holds_commaList _ hp))
  cases body with
  | none => exact (hdoc (by simpa using h)).left
  | some body =>
    rcases or_assoc.2 h with h | ⟨p, hp, rfl⟩
    · exact (hdoc h).left.left
    · obtain rfl := Option.some.inj hp
      exact .right (holds_full _)

theorem holds_structDef (span : Span) {name : Doc} (h : name.Holds part ∨ ∃ p ∈ ps, part = p.bare) :
    (structDef env span name ps).Holds part := by
  unfold structDef
  rcases h with h | ⟨p, hp, rfl⟩
  · exact .ite h.right.left.left h.right.left.left.left
  · rw [if_neg (by simp [List.ne_nil_of_mem hp])]
    exact .left (.right (.grouped (.left (holds_indent (.right (holds_fullList _ hp))))))

/-! ## Whole trees -/

/-- **A form holds the layout of each of its parts**, printed at some place. -/
theorem holds_layout (env : Env) (place : Place) (span : Span) {shape : Shape Node} {k : Node} (hk : k ∈ shape.parts) :
    ∃ place', (layout env place span shape).Holds (print env place' k).bare := by
  have hmem {ns : List Node} (hns : k ∈ ns) (place : Place) : print env place k ∈ ns.map (print env place) :=
    List.mem_map_of_mem hns
  have hopt {o : Option Node} (ho : k ∈ o.toList) (place : Place) : print env place k ∈ o.map (print env place) := by
    obtain rfl := Option.mem_toList.1 ho
    rfl
  cases shape <;> simp only [Shape.parts, List.mem_append, List.mem_cons, List.cons_append, List.not_mem_nil, or_false] at hk <;>
    simp only [layout, printAll_eq_map, print?_eq_map]
  case spread a =>
    obtain rfl := hk
    exact ⟨_, .left (holds_full _)⟩
  case call callee args =>
    rcases hk with rfl | hk
    · exact ⟨_, holds_call (.inl (holds_full _))⟩
    · exact ⟨_, holds_call (.inr ⟨_, hmem hk _, rfl⟩)⟩
  case member object property dot =>
    rcases hk with rfl | rfl
    · exact ⟨_, .left (.left (holds_full _))⟩
    · exact ⟨_, .right (holds_full _)⟩
  case index object indexor =>
    rcases hk with rfl | rfl
    · exact ⟨_, .left (.left (.left (holds_full _)))⟩
    · exact ⟨_, .left (.right (.grouped (.left (holds_indent (.right (holds_full _))))))⟩
  case indexor parts => exact ⟨_, .concat (List.mem_map_of_mem (hmem hk _)) (holds_full _)⟩
  case parentAccess scope member =>
    rcases hk with hk | rfl
    · exact ⟨_, .left (.left (holds_maybe (hopt hk _)))⟩
    · exact ⟨_, .right (holds_full _)⟩
  case binary left op right implied =>
    rcases hk with rfl | rfl
    · exact ⟨_, holds_binaryish _ _ _ (.inl rfl)⟩
    · exact ⟨_, holds_binaryish _ _ _ (.inr rfl)⟩
  case logical left op right =>
    rcases hk with rfl | rfl
    · exact ⟨_, holds_binaryish _ _ _ (.inl rfl)⟩
    · exact ⟨_, holds_binaryish _ _ _ (.inr rfl)⟩
  case ternary test consequent alternate =>
    rcases hk with rfl | rfl | rfl
    · exact ⟨_, .grouped (.left (.left (holds_full _)))⟩
    · exact ⟨_, .grouped (.right (holds_indent (.left (.left (.left (.right (holds_full _)))))))⟩
    · exact ⟨_, .grouped (.right (holds_indent (.right (holds_full _))))⟩
  case assignment left op right =>
    rcases hk with rfl | hk
    · exact ⟨_, holds_assignment _ (.inl (holds_full _))⟩
    · exact ⟨_, holds_assignment _ (.inr ⟨_, hopt hk _, rfl⟩)⟩
  case unary op a =>
    obtain rfl := hk
    exact ⟨_, .right (holds_full _)⟩
  case typeCast typeName isArray a =>
    obtain rfl := hk
    exact ⟨_, .right (holds_full _)⟩
  case paren items => exact ⟨_, holds_paren (hmem hk _)⟩
  case multiExpression items => exact ⟨_, .grouped (holds_commaList _ (hmem hk _))⟩
  case range first last =>
    rcases hk with rfl | rfl
    · exact ⟨_, .grouped (.left (.left (.left (.left (holds_full _)))))⟩
    · exact ⟨_, .grouped (.right (holds_full _))⟩
  case array elements => exact ⟨_, holds_array _ _ (hmem hk _)⟩
  case mapping pairs => exact ⟨_, holds_mapping (hmem hk _)⟩
  case mappingPair key values =>
    rcases hk with rfl | hk
    · exact ⟨_, holds_mappingPair (.inl (holds_full _))⟩
    · exact ⟨_, holds_mappingPair (.inr ⟨_, hmem hk _, rfl⟩)⟩
  case structLiteral name items => exact ⟨_, holds_structLiteral _ (hmem hk _)⟩
  case inlineClosure items => exact ⟨_, holds_inlineClosure (hmem hk _)⟩
  case lambda args code =>
    rcases hk with rfl | rfl
    · exact ⟨_, holds_bracketed (.left (.left (.left (holds_full _))))⟩
    · exact ⟨_, holds_bracketed (.right (holds_full _))⟩
  case varDecl modifiers typeName declarators => exact ⟨_, holds_varDecl _ _ (hmem hk _)⟩
  case declarator name isArray byRef isSpread init isDefault =>
    rcases hk with hk | hk
    · exact ⟨_, holds_declarator _ _ _ _ (.inl (hopt hk _))⟩
    · exact ⟨_, holds_declarator _ _ _ _ (.inr (hopt hk _))⟩
  case function modifiers typeName isArray name params body =>
    rcases hk with rfl | hk | hk
    · exact ⟨_, holds_function _ _ _ (.inl (holds_full _))⟩
    · exact ⟨_, holds_function _ _ _ (.inr (.inl ⟨_, hmem hk _, rfl⟩))⟩
    · exact ⟨_, holds_function _ _ _ (.inr (.inr ⟨_, hopt hk _, rfl⟩))⟩
  case structDef name members =>
    rcases hk with rfl | hk
    · exact ⟨_, holds_structDef _ (.inl (holds_full _))⟩
    · exact ⟨_, holds_structDef _ (.inr ⟨_, hmem hk _, rfl⟩)⟩
  case inherit modifiers a =>
    obtain rfl := hk
    exact ⟨_, .left (.right (.grouped (holds_full _)))⟩
  case codeBlock openComment items => exact ⟨_, holds_codeBlock _ _ _ (hmem hk _)⟩
  case ifElse test consequent alternate =>
    rcases hk with rfl | rfl | hk
    · exact ⟨_, holds_ifElse (.inl (holds_full _))⟩
    · exact ⟨_, holds_ifElse (.inr (.inl rfl))⟩
    · exact ⟨_, holds_ifElse (.inr (.inr ⟨_, hopt hk _, rfl⟩))⟩
  case switch test cases =>
    rcases hk with rfl | hk
    · exact ⟨_, holds_switch (.inl (holds_full _))⟩
    · exact ⟨_, holds_switch (.inr ⟨_, hmem hk _, rfl⟩)⟩
  case switchCase test body =>
    rcases hk with hk | hk
    · exact ⟨_, holds_switchCase (.inl (hopt hk _))⟩
    · exact ⟨_, holds_switchCase (.inr (hmem hk _))⟩
  case forLoop init test update body =>
    rcases hk with ((hk | hk) | hk) | rfl
    · exact ⟨_, holds_forLoop (.inl (hopt hk _))⟩
    · exact ⟨_, holds_forLoop (.inr (.inl (hopt hk _)))⟩
    · exact ⟨_, holds_forLoop (.inr (.inr (.inl (hopt hk _))))⟩
    · exact ⟨_, holds_forLoop (.inr (.inr (.inr rfl)))⟩
  case foreachLoop vars iterable body =>
    rcases hk with hk | rfl | rfl
    · exact ⟨_, holds_foreachLoop (.inl (hmem hk _))⟩
    · exact ⟨_, holds_foreachLoop (.inr (.inl rfl))⟩
    · exact ⟨_, holds_foreachLoop (.inr (.inr rfl))⟩
  case whileLoop test body =>
    rcases hk with rfl | rfl
    · exact ⟨_, .left (holds_header _ (holds_full _))⟩
    · exact ⟨_, .right (holds_branch _)⟩
  case doWhile body test =>
    rcases hk with rfl | rfl
    · exact ⟨_, holds_doWhile (.inl rfl)⟩
    · exact ⟨_, holds_doWhile (.inr (holds_full _))⟩
  case returnValue a => exact ⟨_, holds_returnValue (hopt hk _)⟩

/-- **A tree holds the layout of every node in it**, printed at some place. -/
theorem holds_print (env : Env) {k n : Node} (h : k.Inside n) (place : Place) :
    ∃ place', (print env place n).bare.Holds (print env place' k).bare := by
  induction h generalizing place with
  | self => exact ⟨place, .refl⟩
  | @part span shape suffix m hm _ ih =>
    obtain ⟨place₁, h₁⟩ := holds_layout env place span hm
    obtain ⟨place₂, h₂⟩ := ih place₁
    exact ⟨place₂, h₁.trans h₂⟩

/-- so does the layout of a document -/
theorem holds_sourceFile (env : Env) {roots : List Node} {k n : Node} (hn : n ∈ roots) (h : k.Inside n) :
    ∃ place, (sourceFile env roots).Holds (print env place k).bare := by
  obtain ⟨place, hk⟩ := holds_print env h .listed
  refine ⟨place, ?_⟩
  rw [sourceFile, if_neg (by simp [List.ne_nil_of_mem hn]), printAll_eq_map]
  exact .left (.trans (holds_statements (List.mem_map_of_mem hn)) hk)

end Style

end LpcStyle
