import Mathlib.Tactic
import LpcStyle.Style.Printer
import LpcStyle.Proofs.Layout.Ink
import LpcStyle.Proofs.Tree.Parts

/-!
The printer builds even documents: what a node prints does not depend on where its lines are broken. The one exception
is a preprocessor line, whose broken form ends its lines with backslashes. Main statement: `even_print`.
-/

namespace LpcStyle.Style

open Text

variable {v : Sieve}

/-! ## Comments and preprocessor lines -/

theorem even_laterCommentLines (lines : List (List Char)) : ∀ d ∈ laterCommentLines lines, d.Even v := by
  induction lines with
  | nil => simp [laterCommentLines]
  | cons line lines ih =>
    cases lines with
    | nil =>
      simp only [laterCommentLines]
      split <;> simp
    | cons next lines => simpa [laterCommentLines] using ih

theorem even_blockComment (text : List Char) : (blockComment text).Even v := by
  simp only [blockComment]
  split
  · simp
  · simp only [Doc.even_concat, List.forall_mem_append, List.forall_mem_cons, Doc.even_lit, true_and]
    refine ⟨⟨?_, even_laterCommentLines _⟩, by simp⟩
    split
    · split <;> simp
    · simp

@[simp] theorem even_comment (kind : CommentKind) (text : List Char) : (comment kind text).Even v := by
  cases kind with
  | line => simp [comment, lineComment]
  | block => exact even_blockComment (trim text)

theorem even_directive (hv : v.passes '\\' = false) (indentation : Int) (name : Lexeme) (key : Option Lexeme)
    (args : List Lexeme) : (directive indentation name key args).Even v := by
  -- the backslash that ends a broken line does not count
  have hback : v.sift [' ', '\\'] = [] := v.sift_eq_nil (by simp [hv, v.not_blank (c := ' ') (by decide)])
  have hseparator : (Doc.flatAlt (Doc.lit " \\" ++ Doc.hardline) (Doc.lit " ")).Even v :=
    ⟨by simp, by simp, by simp [Doc.ink_lit, hback]⟩
  cases key with
  | none =>
    simp only [directive]
    split <;> simp [hseparator]
  | some key =>
    simp only [directive]
    split <;> simp [hseparator]

/-! ## Printed nodes and lists of them -/

@[simp] theorem even_suffix (p : Printed) : p.suffix.Even v := by
  simp only [Printed.suffix]
  split <;> simp

@[simp] theorem even_full (p : Printed) : p.full.Even v ↔ p.bare.Even v := by
  simp only [Printed.full]
  split <;> simp

@[simp] theorem even_listItem (comma : Bool) (p : Printed) : (listItem comma p).Even v ↔ p.bare.Even v := by
  simp only [listItem]
  split
  · simp
  · split <;> simp

theorem even_listItems {items : List Printed} (h : ∀ p ∈ items, p.bare.Even v) : ∀ d ∈ listItems items, d.Even v := by
  induction items with
  | nil => simp [listItems]
  | cons p ps ih =>
    obtain ⟨hp, hps⟩ := List.forall_mem_cons.1 h
    simpa [listItems, hp] using ih hps

theorem even_commaList {separator : Doc} (hs : separator.Even v) {items : List Printed}
    (h : ∀ p ∈ items, p.bare.Even v) : (commaList separator items).Even v :=
  Doc.even_join v hs (even_listItems h)

theorem even_fulls {items : List Printed} (h : ∀ p ∈ items, p.bare.Even v) :
    ∀ d ∈ items.map Printed.full, d.Even v := by
  simpa using h

theorem even_statements {items : List Printed} (h : ∀ p ∈ items, p.bare.Even v) : (statements items).Even v :=
  Doc.even_join v (Doc.even_hardline v) (even_fulls h)

@[simp] theorem even_indent (env : Env) (d : Doc) : (env.indent d).Even v ↔ d.Even v := by simp [Env.indent]

@[simp] theorem even_bracketed (env : Env) (front : String) (body : Doc) (back : String) :
    (env.bracketed front body back).Even v ↔ body.Even v := by
  simp [Env.bracketed]

/-! ## Collections -/

theorem even_fillRest {done : Doc} (hdone : done.Even v) (before : Printed) {items : List Printed}
    (h : ∀ p ∈ items, p.bare.Even v) : (fillRest done before items).Even v := by
  induction items generalizing done before with
  | nil => exact hdone
  | cons p ps ih =>
    obtain ⟨hp, hps⟩ := List.forall_mem_cons.1 h
    simp only [fillRest]
    refine ih ?_ p hps
    split <;> simp [hdone, hp]

theorem even_fill {items : List Printed} (h : ∀ p ∈ items, p.bare.Even v) : (fill items).Even v := by
  cases items with
  | nil => trivial
  | cons p ps =>
    obtain ⟨hp, hps⟩ := List.forall_mem_cons.1 h
    exact even_fillRest (by simpa using hp) p hps

theorem even_pairLines (env : Env) {items : List Printed} (h : ∀ p ∈ items, p.bare.Even v) :
    ∀ d ∈ pairLines env items, d.Even v := by
  fun_induction pairLines env items with
  | case1 key value rest ih =>
    obtain ⟨hk, hrest⟩ := List.forall_mem_cons.1 h
    obtain ⟨hv, hrest⟩ := List.forall_mem_cons.1 hrest
    simpa [hk, hv] using ih hrest
  | case2 => simp

@[simp] theorem even_trailingComma (env : Env) (items : List Printed) : (trailingComma env items).Even v := by
  simp only [trailingComma]
  split
  · exact ⟨by simp, trivial, by simp [Doc.ink_lit]⟩
  · trivial

theorem even_array (env : Env) (place : Place) (span : Span) {elements : List Printed}
    (h : ∀ p ∈ elements, p.bare.Even v) : (array env place span elements).Even v := by
  cases elements with
  | nil => simp [array]
  | cons first rest =>
    have hstay : (if env.hasNewline (span.start + 2) first.node.start then Doc.breakParent else Doc.nil).Even v := by
      split <;> simp
    simp only [array, even_bracketed]
    split
    · simp [hstay, Doc.even_join v (Doc.even_hardline v) (even_pairLines env h)]
    · simp [hstay, even_fill h]

theorem even_mapping (env : Env) {pairs : List Printed} (h : ∀ p ∈ pairs, p.bare.Even v) :
    (mapping env pairs).Even v := by
  simp only [mapping]
  split
  · simp
  · simp [even_commaList (Doc.even_line v) h]

theorem even_mappingPair (env : Env) {key : Doc} (hk : key.Even v) {values : List Printed}
    (h : ∀ p ∈ values, p.bare.Even v) : (mappingPair env key values).Even v := by
  simp only [mappingPair]
  split
  · exact hk
  · simp [hk, Doc.even_join v (by simp : (Doc.lit ";" ++ Doc.line).Even v) (even_fulls h)]

theorem even_structLiteral (env : Env) (name : List Char) {items : List Printed}
    (h : ∀ p ∈ items, p.bare.Even v) : (structLiteral env name items).Even v := by
  simp only [structLiteral]
  split
  · simp
  · simp [even_commaList (Doc.even_line v) h]

/-! ## Expressions -/

theorem even_call (env : Env) {callee : Doc} (hc : callee.Even v) {args : List Printed}
    (h : ∀ p ∈ args, p.bare.Even v) : (call env callee args).Even v := by
  fun_cases call env callee args with
  | case1 => simp [hc]
  | case2 arg => simp [hc, h arg]
  | case3 arg => simp [hc, even_commaList (Doc.even_line v) h]
  | case4 => simp [hc, even_commaList (Doc.even_line v) h]

theorem even_binaryish (isLogical : Bool) (slot : Slot) {left right : Printed} (hl : left.bare.Even v)
    (hr : right.bare.Even v) {op : Doc} (ho : op.Even v) : (binaryish isLogical slot left right op).Even v := by
  have hrest (c : Bool) : (if c then (op ++ Doc.line ++ right.full).grouped else op ++ Doc.line ++ right.full).Even v := by
    cases c <;> simp [ho, hr]
  have hdoc (c : Bool) (d : Doc) (hd : d.Even v) : (if c then d.grouped else d).Even v := by
    cases c <;> simp [hd]
  simp only [binaryish]
  exact hdoc _ _ (by simp only [Doc.even_andThen, Doc.even_grouped, even_full]; exact ⟨hl, hrest _⟩)

theorem even_value (env : Env) {p : Printed} (h : p.bare.Even v) : (value env p).Even v := by
  simp only [value]
  split <;> simp [h]

theorem even_assignment (env : Env) {left op : Doc} (hl : left.Even v) (ho : op.Even v) {right : Option Printed}
    (hr : ∀ p ∈ right, p.bare.Even v) : (assignment env left op right).Even v := by
  cases right with
  | none => simp [assignment, hl, ho]
  | some p => simp [assignment, hl, ho, even_value env (hr p rfl)]

theorem even_unary (env : Env) (op : List Char) {argument : Printed} (h : argument.bare.Even v) :
    (unary env op argument).Even v := by
  simp only [unary]
  split <;> simp [h]

theorem even_typeCast (typeName : List Char) (isArray : Bool) {argument : Doc} (h : argument.Even v) :
    (typeCast typeName isArray argument).Even v := by
  cases isArray <;> simp [typeCast, h]

theorem even_paren (env : Env) {items : List Printed} (h : ∀ p ∈ items, p.bare.Even v) : (paren env items).Even v := by
  simp only [paren]
  split
  · simp
  · simp [even_commaList (Doc.even_line v) h]

theorem even_inlineClosure (env : Env) {items : List Printed} (h : ∀ p ∈ items, p.bare.Even v) :
    (inlineClosure env items).Even v := by
  simp only [inlineClosure]
  split
  · simp
  · simp [Doc.even_join v (Doc.even_line v) (even_fulls h)]

/-! ## Statements and declarations -/

theorem even_codeBlock (env : Env) (slot : Slot) (span : Span) (openComment : Option Comment) {items : List Printed}
    (h : ∀ p ∈ items, p.bare.Even v) : (codeBlock env slot span openComment items).Even v := by
  have hseparator : (if condenses env slot span items then Doc.line else Doc.hardline).Even v := by
    split <;> simp
  have hbody := Doc.even_join v hseparator (even_fulls h)
  cases openComment with
  | none =>
    simp only [codeBlock]
    split <;> simp [hseparator, hbody]
  | some c =>
    simp only [codeBlock]
    split <;> simp [hseparator, hbody]

theorem even_branch (env : Env) {body : Printed} (h : body.bare.Even v) : (branch env body).Even v := by
  simp only [branch]
  split
  · simp [h]
  · split <;> simp [h]

@[simp] theorem even_header (env : Env) (keyword : String) (inner : Doc) :
    (header env keyword inner).Even v ↔ inner.Even v := by
  simp [header]

theorem even_ifElse (env : Env) {test : Doc} (ht : test.Even v) {consequent : Printed} (hc : consequent.bare.Even v)
    {alternate : Option Printed} (ha : ∀ p ∈ alternate, p.bare.Even v) :
    (ifElse env test consequent alternate).Even v := by
  cases alternate with
  | none => simp [ifElse, ht, even_branch env hc]
  | some p =>
    have hp := ha p rfl
    have htail : (if p.shape.isIfElse then Doc.lit " " ++ p.full else branch env p).Even v := by
      split
      · simp [hp]
      · exact even_branch env hp
    have hgap : (if (consequent.shape.isCodeBlock && !consequent.hasSuffix) = true then Doc.lit " "
        else Doc.hardline).Even v := by
      split <;> simp
    simp only [ifElse, Doc.even_grouped, Doc.even_andThen, even_header, Doc.even_lit]
    exact ⟨⟨⟨⟨ht, even_branch env hc⟩, hgap⟩, trivial⟩, htail⟩

theorem even_switch (env : Env) {test : Doc} (ht : test.Even v) {cases : List Printed}
    (h : ∀ p ∈ cases, p.bare.Even v) : (switch env test cases).Even v := by
  simp only [switch]
  split
  · simp [ht]
  · simp [ht, even_statements h]

theorem even_switchCase (env : Env) {test : Option Printed} (ht : ∀ p ∈ test, p.bare.Even v) {body : List Printed}
    (h : ∀ p ∈ body, p.bare.Even v) : (switchCase env test body).Even v := by
  cases test with
  | none =>
    simp only [switchCase]
    split <;> simp [even_statements h]
  | some p =>
    simp only [switchCase]
    split <;> simp [ht p rfl, even_statements h]

/-- a part in the head of a loop on the line after what stands before it, if it is there -/
def headPart (front : Doc) (part : Option Printed) : Doc := part.elim front fun p => front ++ Doc.line ++ p.full

theorem forLoop_eq (env : Env) (init test update : Option Printed) (body : Printed) :
    forLoop env init test update body = header env "for"
      (headPart (headPart ((init.map Printed.full).getD .nil ++ Doc.lit ";") test ++ Doc.lit ";") update) ++
        branch env body := by
  cases test <;> cases update <;> rfl

theorem even_forLoop (env : Env) {init test update : Option Printed} (hi : ∀ p ∈ init, p.bare.Even v)
    (ht : ∀ p ∈ test, p.bare.Even v) (hu : ∀ p ∈ update, p.bare.Even v) {body : Printed} (hb : body.bare.Even v) :
    (forLoop env init test update body).Even v := by
  cases init <;> cases test <;> cases update <;> simp_all [forLoop, even_branch env hb]

theorem even_foreachLoop (env : Env) {vars : List Printed} (hv : ∀ p ∈ vars, p.bare.Even v)
    {iterable body : Printed} (hi : iterable.bare.Even v) (hb : body.bare.Even v) :
    (foreachLoop env vars iterable body).Even v := by
  simp only [foreachLoop]
  split <;> simp [even_commaList (Doc.even_line v) hv, hi, even_branch env hb]

theorem even_doWhile (env : Env) {body : Printed} (hb : body.bare.Even v) {test : Doc} (ht : test.Even v) :
    (doWhile env body test).Even v := by
  simp only [doWhile]
  split <;> simp [hb, ht, even_branch env hb]

theorem even_returnValue (env : Env) {argument : Option Printed} (h : ∀ p ∈ argument, p.bare.Even v) :
    (returnValue env argument).Even v := by
  cases argument with
  | none => simp [returnValue]
  | some p => simp [returnValue, h p rfl]

theorem even_varDecl (modifiers : List Lexeme) (typeName : Option Lexeme) {declarators : List Printed}
    (h : ∀ p ∈ declarators, p.bare.Even v) : (varDecl modifiers typeName declarators).Even v := by
  have hseparator : (if declarators.any Printed.hasSuffix then Doc.hardline else Doc.line).Even v := by
    split <;> simp
  have hlist := even_commaList hseparator h
  simp only [varDecl]
  split
  · simp
  · split
    · simpa only [Doc.even_grouped] using hlist
    · split <;>
        simpa only [Doc.even_andThen, Doc.even_nested, Doc.even_grouped, Doc.even_word, Doc.even_lit, true_and]
          using hlist

theorem even_declarator (env : Env) {name init : Option Printed} (hn : ∀ p ∈ name, p.bare.Even v)
    (hi : ∀ p ∈ init, p.bare.Even v) (isArray byRef isSpread isDefault : Bool) :
    (declarator env name isArray byRef isSpread init isDefault).Even v := by
  have hdoc : ((if isArray then Doc.lit "*" else Doc.nil) ++ (if byRef then Doc.lit "&" else Doc.nil) ++
      (name.map Printed.full).getD .nil ++ if isSpread then Doc.lit "..." else Doc.nil).Even v := by
    cases name with
    | none => cases isArray <;> cases byRef <;> cases isSpread <;> simp
    | some p => cases isArray <;> cases byRef <;> cases isSpread <;> simp [hn p rfl]
  cases init with
  | none => exact hdoc
  | some p =>
    have hp := hi p rfl
    simp only [declarator]
    split
    · exact (Doc.even_andThen ..).2 ⟨(Doc.even_andThen ..).2 ⟨hdoc, by simp⟩, by simpa using hp⟩
    · exact (Doc.even_andThen ..).2 ⟨(Doc.even_andThen ..).2 ⟨hdoc, by simp⟩, even_value env hp⟩

theorem even_function (env : Env) (modifiers : List Lexeme) (typeName : Option Lexeme) (isArray : Bool) {name : Doc}
    (hn : name.Even v) {params : List Printed} (hp : ∀ p ∈ params, p.bare.Even v) {body : Option Printed}
    (hb : ∀ p ∈ body, p.bare.Even v) : (function env modifiers typeName isArray name params body).Even v := by
  have hdoc (head : List Char) : (if head.isEmpty then Doc.nil else Doc.word head ++ Doc.lit " ").Even v := by
    split <;> simp
  have hname (d : Doc) (hd : d.Even v) : ((if isArray then d ++ Doc.lit "*" else d) ++ name).Even v := by
    cases isArray <;> simp [hd, hn]
  have hhead := hname _ (hdoc (heading modifiers typeName))
  have hparams (d : Doc) (hd : d.Even v) : (if params.isEmpty then d ++ Doc.lit "()"
      else d ++ env.bracketed "(" (commaList Doc.line params) ")").Even v := by
    split <;> simp [hd, even_commaList (Doc.even_line v) hp]
  cases body with
  | none => exact (Doc.even_andThen ..).2 ⟨hparams _ hhead, by simp⟩
  | some p =>
    exact (Doc.even_andThen ..).2 ⟨(Doc.even_andThen ..).2 ⟨hparams _ hhead, by simp⟩, by simpa using hb p rfl⟩

theorem even_structDef (env : Env) (span : Span) {name : Doc} (hn : name.Even v) {members : List Printed}
    (h : ∀ p ∈ members, p.bare.Even v) : (structDef env span name members).Even v := by
  simp only [structDef]
  split
  · simp [hn]
  · simp [hn, Doc.even_join v (Doc.even_line v) (even_fulls h)]

theorem even_inherit (modifiers : List Lexeme) {argument : Doc} (h : argument.Even v) :
    (inherit modifiers argument).Even v := by
  simp only [inherit]
  split <;> simp [h]

/-! ## Whole trees -/

/-- **What a node prints does not depend on its layout**, if a backslash does not count or the node holds no
preprocessor line. -/
theorem even_print (env : Env) (n : Node) (h : v.passes '\\' = false ∨ n.DirectiveFree) (place : Place) :
    (print env place n).bare.Even v := by
  induction n using Node.partsInduction generalizing place with
  | mk span shape suffix ih =>
    replace ih : ∀ k ∈ shape.parts, ∀ place, (print env place k).bare.Even v :=
      fun k hk => ih k hk (h.imp_right fun free => free.parts k hk)
    have hall {ns : List Node} (hns : ∀ k ∈ ns, ∀ place, (print env place k).bare.Even v) (place : Place) :
        ∀ p ∈ ns.map (print env place), p.bare.Even v := by
      simpa using fun k hk => hns k hk place
    have hopt {o : Option Node} (ho : ∀ k ∈ o.toList, ∀ place, (print env place k).bare.Even v) (place : Place) :
        ∀ p ∈ o.map (print env place), p.bare.Even v := by
      simpa using fun k hk => ho k hk place
    simp only [print]
    cases shape <;> simp only [Shape.parts, List.forall_mem_append, List.forall_mem_cons, List.cons_append] at ih <;>
      simp only [layout, printAll_eq_map, print?_eq_map]
    case directive name key args =>
      refine h.elim (fun hv => even_directive hv _ _ _ _) fun free => ?_
      exact absurd free.own (by simp [Shape.isDirective])
    case spread a => simpa using ih.1 _
    case call callee args => exact even_call env (by simpa using ih.1 _) (hall ih.2 _)
    case member object property dot => simpa using ⟨ih.1 _, ih.2.1 _⟩
    case index object indexor => simpa [index] using ⟨ih.1 _, ih.2.1 _⟩
    case indexor parts => simpa using fun k hk => ih k hk _
    case indexMark mark => cases mark <;> simp [indexMark]
    case parentAccess scope member =>
      cases scope with
      | none => simpa using ih.2.1 _
      | some s => simpa using ⟨ih.1 s (by simp) _, ih.2.1 _⟩
    case binary left op right implied =>
      exact even_binaryish false _ (ih.1 _) (ih.2.1 _) (by split <;> simp)
    case logical left op right => exact even_binaryish true _ (ih.1 _) (ih.2.1 _) (by simp)
    case ternary test consequent alternate => simpa [ternary] using ⟨ih.1 _, ih.2.1 _, ih.2.2.1 _⟩
    case assignment left op right => exact even_assignment env (by simpa using ih.1 _) (by simp) (hopt ih.2 _)
    case unary op a => exact even_unary env _ (ih.1 _)
    case typeCast typeName isArray a => exact even_typeCast _ _ (by simpa using ih.1 _)
    case paren items => exact even_paren env (hall ih _)
    case multiExpression items => simpa using even_commaList (Doc.even_line v) (hall ih _)
    case range first last => simpa [range] using ⟨ih.1 _, ih.2.1 _⟩
    case array elements => exact even_array env _ _ (hall ih _)
    case mapping pairs => exact even_mapping env (hall ih _)
    case mappingPair key values => exact even_mappingPair env (by simpa using ih.1 _) (hall ih.2 _)
    case structLiteral name items => exact even_structLiteral env _ (hall ih _)
    case inlineClosure items => exact even_inlineClosure env (hall ih _)
    case lambda args code => simpa [lambda] using ⟨ih.1 _, ih.2.1 _⟩
    case varDecl modifiers typeName declarators => exact even_varDecl _ _ (hall ih _)
    case declarator name isArray byRef isSpread init isDefault =>
      exact even_declarator env (hopt ih.1 _) (hopt ih.2 _) _ _ _ _
    case function modifiers typeName isArray name params body =>
      exact even_function env _ _ _ (by simpa using ih.1 _) (hall ih.2.1 _) (hopt ih.2.2 _)
    case structDef name members => exact even_structDef env _ (by simpa using ih.1 _) (hall ih.2 _)
    case inherit modifiers a => exact even_inherit _ (by simpa using ih.1 _)
    case codeBlock openComment items => exact even_codeBlock env _ _ _ (hall ih _)
    case ifElse test consequent alternate =>
      exact even_ifElse env (by simpa using ih.1 _) (ih.2.1 _) (hopt ih.2.2 _)
    case switch test cases => exact even_switch env (by simpa using ih.1 _) (hall ih.2 _)
    case switchCase test body => exact even_switchCase env (hopt ih.1 _) (hall ih.2 _)
    case forLoop init test update body =>
      exact even_forLoop env (hopt ih.1.1.1 _) (hopt ih.1.1.2 _) (hopt ih.1.2 _) (ih.2.1 _)
    case foreachLoop vars iterable body => exact even_foreachLoop env (hall ih.1 _) (ih.2.1 _) (ih.2.2.1 _)
    case whileLoop test body => simpa [whileLoop, even_branch env (ih.2.1 _)] using ih.1 _
    case doWhile body test => exact even_doWhile env (ih.1 _) (by simpa using ih.2.1 _)
    case returnValue a => exact even_returnValue env (hopt ih _)
    case jump kind => cases kind <;> simp [jump]
    all_goals simp

end LpcStyle.Style
