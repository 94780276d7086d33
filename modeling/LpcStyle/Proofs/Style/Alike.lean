import Mathlib.Tactic
import LpcStyle.Proofs.Style.Even

/-!
The same tree under two settings. A printed node is alike under both if it prints the same characters that count; blanks
and commas never do, and neither does the backslash that ends a broken preprocessor line. Every printing function makes
alike documents of alike parts, whatever the settings say about widths, pairs, trailing commas and one-line blocks. Main
statement: `alike_print`.
-/

namespace LpcStyle.Style

open Text

variable {v : Sieve}

/-- two printed forms of a node at one place that print the same characters that count -/
structure Alike (v : Sieve) (p q : Printed) : Prop where
  node : p.node = q.node
  slot : p.slot = q.slot
  bare : p.bare.ink v = q.bare.ink v

/-- printed forms of the same nodes, alike one by one -/
def AllAlike (v : Sieve) (ps qs : List Printed) : Prop := List.Forall₂ (Alike v) ps qs

/-- printed forms of the same part, or no part at all -/
def MaybeAlike (v : Sieve) (p q : Option Printed) : Prop := Option.Rel (Alike v) p q

/-! ## One printed node -/

namespace Alike

variable {p q : Printed} (h : Alike v p q)

include h

theorem shape : p.shape = q.shape := by rw [Printed.shape, Printed.shape, h.node]

theorem hasSuffix : p.hasSuffix = q.hasSuffix := by rw [Printed.hasSuffix, Printed.hasSuffix, h.node]

theorem suffix : p.suffix = q.suffix := by rw [Printed.suffix, Printed.suffix, h.node]

theorem full : p.full.ink v = q.full.ink v := by
  simp only [Printed.full, h.shape, h.slot, h.suffix]
  split <;> simp [h.bare]

end Alike

/-- the ink of an element of a list: its comma does not count -/
def itemInk (v : Sieve) (p : Printed) : List Char := p.bare.ink v ++ p.suffix.ink v

theorem Alike.item {p q : Printed} (h : Alike v p q) : itemInk v p = itemInk v q := by
  rw [itemInk, itemInk, h.bare, h.suffix]

theorem ink_comma : (Doc.lit ",").ink v = [] := by simp [Doc.ink_lit]

theorem ink_listItem (comma : Bool) (p : Printed) : (listItem comma p).ink v = itemInk v p := by
  simp only [listItem, itemInk]
  split
  · simp
  · split <;> simp [ink_comma]

@[simp] theorem ink_indent (env : Env) (d : Doc) : (env.indent d).ink v = d.ink v := by simp [Env.indent]

@[simp] theorem ink_bracketed (env : Env) (front : String) (body : Doc) (back : String) :
    (env.bracketed front body back).ink v = (Doc.lit front).ink v ++ body.ink v ++ (Doc.lit back).ink v := by
  simp [Env.bracketed]

/-! ## Lists of printed nodes -/

namespace AllAlike

variable {ps qs : List Printed}

theorem flatMap (h : AllAlike v ps qs) {f : Printed → List Char} (hf : ∀ p q, Alike v p q → f p = f q) :
    ps.flatMap f = qs.flatMap f := by
  induction h with
  | nil => rfl
  | cons hp _ ih => simp [hf _ _ hp, ih]

theorem any (h : AllAlike v ps qs) {f : Printed → Bool} (hf : ∀ p q, Alike v p q → f p = f q) :
    ps.any f = qs.any f := by
  induction h with
  | nil => rfl
  | cons hp _ ih => simp [hf _ _ hp, ih]

theorem isEmpty (h : AllAlike v ps qs) : ps.isEmpty = qs.isEmpty := by cases h <;> rfl

theorem items (h : AllAlike v ps qs) : ps.flatMap (itemInk v) = qs.flatMap (itemInk v) :=
  h.flatMap fun _ _ => Alike.item

end AllAlike

/-- the last variable of a loop ends at the same place -/
theorem AllAlike.lastStop {ps qs : List Printed} (h : AllAlike v ps qs) :
    (ps.getLast?.map fun p => p.node.stop) = qs.getLast?.map fun p => p.node.stop := by
  have hnodes : ps.map Printed.node = qs.map Printed.node := by
    induction h with
    | nil => rfl
    | cons hp _ ih => simp [hp.node, ih]
  have hlast := congrArg (fun ns : List Node => ns.getLast?.map Node.stop) hnodes
  simpa [List.getLast?_map, Function.comp_def] using hlast

theorem ink_commaList {separator : Doc} (hs : separator.ink v = []) (ps : List Printed) :
    (commaList separator ps).ink v = ps.flatMap (itemInk v) := by
  rw [commaList, Doc.ink_join v hs]
  induction ps with
  | nil => rfl
  | cons p ps ih => simp only [listItems, List.flatMap_cons, ink_listItem, ih]

theorem alike_commaList {ps qs : List Printed} (h : AllAlike v ps qs) {separator separator' : Doc}
    (hs : separator.ink v = []) (hs' : separator'.ink v = []) :
    (commaList separator ps).ink v = (commaList separator' qs).ink v := by
  rw [ink_commaList hs, ink_commaList hs', h.items]

theorem alike_lineList {ps qs : List Printed} (h : AllAlike v ps qs) :
    (commaList Doc.line ps).ink v = (commaList Doc.line qs).ink v :=
  alike_commaList h (Doc.ink_line v) (Doc.ink_line v)

/-- whole nodes joined by line ends or blanks -/
theorem alike_join {ps qs : List Printed} (h : AllAlike v ps qs) {separator separator' : Doc}
    (hs : separator.ink v = []) (hs' : separator'.ink v = []) :
    (Doc.join separator (ps.map Printed.full)).ink v = (Doc.join separator' (qs.map Printed.full)).ink v := by
  rw [Doc.ink_join v hs, Doc.ink_join v hs', List.flatMap_map, List.flatMap_map]
  exact h.flatMap fun _ _ => Alike.full

theorem alike_statements {ps qs : List Printed} (h : AllAlike v ps qs) :
    (statements ps).ink v = (statements qs).ink v := alike_join h (Doc.ink_hardline v) (Doc.ink_hardline v)

/-! ## Collections -/

variable (env env' : Env)

theorem ink_fill (ps : List Printed) : (fill ps).ink v = ps.flatMap (itemInk v) := by
  have hrest (done : Doc) (before : Printed) (ps : List Printed) :
      (fillRest done before ps).ink v = done.ink v ++ ps.flatMap (itemInk v) := by
    induction ps generalizing done before with
    | nil => simp [fillRest]
    | cons p ps ih =>
      simp only [fillRest, ih, List.flatMap_cons]
      split <;> simp [ink_listItem]
  cases ps with
  | nil => rfl
  | cons p ps => simp only [fill, hrest, ink_listItem, List.flatMap_cons]

/-- an even number of elements leaves none without a partner -/
theorem ink_pairLines (ps : List Printed) (h : ps.length % 2 = 0) :
    (pairLines env ps).flatMap (Doc.ink v) = ps.flatMap (itemInk v) := by
  fun_induction pairLines env ps with
  | case1 key value rest ih =>
    have hrest : rest.length % 2 = 0 := by
      simp only [List.length_cons] at h
      omega
    simp [ih hrest, itemInk, ink_comma]
  | case2 ps hne =>
    obtain _ | ⟨a, _ | ⟨b, rest⟩⟩ := ps
    · rfl
    · simp at h
    · exact absurd rfl (hne a b rest)

theorem ink_trailingComma (ps : List Printed) : (trailingComma env ps).ink v = [] := by
  simp only [trailingComma]
  split
  · exact ink_comma
  · rfl

/-- pairs on lines of their own and filled lines print the same -/
theorem ink_array (place : Place) (span : Span) (ps : List Printed) :
    (array env place span ps).ink v = (Doc.lit "(\x7b").ink v ++ ps.flatMap (itemInk v) ++ (Doc.lit "\x7d)").ink v := by
  cases ps with
  | nil =>
    have hsplit : "(\x7b\x7d)".toList = "(\x7b".toList ++ "\x7d)".toList := by decide
    simp only [array, Doc.ink_lit, hsplit, v.sift_append, List.flatMap_nil, List.append_nil]
  | cons first rest =>
    have hstay : (if env.hasNewline (span.start + 2) first.node.start then Doc.breakParent else Doc.nil).ink v = [] := by
      split <;> rfl
    simp only [array, ink_bracketed]
    split
    · next hpairs =>
      have hlength : (first :: rest).length % 2 = 0 := by
        simp only [printsAsPairs, Bool.and_eq_true, beq_iff_eq] at hpairs
        exact hpairs.1.1
      rw [Doc.ink_andThen, hstay, Doc.ink_join v rfl, ink_pairLines env _ hlength, List.nil_append]
    · rw [Doc.ink_andThen, Doc.ink_andThen, hstay, ink_fill, ink_trailingComma, List.nil_append, List.append_nil]

theorem alike_array {ps qs : List Printed} (h : AllAlike v ps qs) (place : Place) (span : Span) :
    (array env place span ps).ink v = (array env' place span qs).ink v := by
  rw [ink_array, ink_array, h.items]

theorem alike_mapping {ps qs : List Printed} (h : AllAlike v ps qs) :
    (mapping env ps).ink v = (mapping env' qs).ink v := by
  simp only [mapping, h.isEmpty]
  split
  · rfl
  · simp only [ink_bracketed, Doc.ink_andThen, alike_lineList h, ink_trailingComma]

theorem alike_mappingPair {key key' : Doc} (hk : key.ink v = key'.ink v) {ps qs : List Printed} (h : AllAlike v ps qs) :
    (mappingPair env key ps).ink v = (mappingPair env' key' qs).ink v := by
  have hjoin : (Doc.join (Doc.lit ";" ++ Doc.line) (ps.map Printed.full)).ink v =
      (Doc.join (Doc.lit ";" ++ Doc.line) (qs.map Printed.full)).ink v := by
    cases h with
    | nil => rfl
    | cons hp hrest =>
      simp only [Doc.join, List.map_cons, Doc.ink_joined, List.flatMap_map, hp.full]
      rw [AllAlike.flatMap hrest fun _ _ hpq => by rw [hpq.full]]
  simp only [mappingPair, h.isEmpty]
  split
  · exact hk
  · simp only [Doc.ink_grouped, Doc.ink_andThen, ink_indent, hk, hjoin]

theorem alike_structLiteral (name : List Char) {ps qs : List Printed} (h : AllAlike v ps qs) :
    (structLiteral env name ps).ink v = (structLiteral env' name qs).ink v := by
  simp only [structLiteral, h.isEmpty]
  split
  · rfl
  · simp only [Doc.ink_grouped, Doc.ink_andThen, ink_indent, alike_lineList h]

/-! ## Expressions -/

theorem alike_call {callee callee' : Doc} (hc : callee.ink v = callee'.ink v) {ps qs : List Printed}
    (h : AllAlike v ps qs) : (call env callee ps).ink v = (call env' callee' qs).ink v := by
  cases h with
  | nil => simp [call, hc]
  | cons hp hrest =>
    cases hrest with
    | nil =>
      simp only [call, hp.shape]
      split
      · simp [hc, hp.full]
      · simp [hc, alike_lineList (.cons hp .nil)]
    | cons hp' hrest =>
      simp only [call, Doc.ink_andThen, ink_bracketed, hc, alike_lineList (.cons hp (.cons hp' hrest))]

theorem ink_binaryish (isLogical : Bool) (slot : Slot) (left right : Printed) (op : Doc) :
    (binaryish isLogical slot left right op).ink v = left.full.ink v ++ op.ink v ++ right.full.ink v := by
  have hgroup (c : Bool) (d : Doc) : (if c then d.grouped else d).ink v = d.ink v := by
    cases c <;> simp
  simp only [binaryish, hgroup, Doc.ink_andThen, Doc.ink_grouped, Doc.ink_line, List.append_nil, List.append_assoc]

theorem alike_value {p q : Printed} (h : Alike v p q) : (value env p).ink v = (value env' q).ink v := by
  simp only [value, h.shape]
  split <;> simp [h.full]

theorem alike_assignment {left left' : Doc} (hl : left.ink v = left'.ink v) (op : Doc) {right right' : Option Printed}
    (h : MaybeAlike v right right') : (assignment env left op right).ink v = (assignment env' left' op right').ink v := by
  cases h with
  | none => simp [assignment, hl]
  | some hp => simp [assignment, hl, alike_value env env' hp]

theorem alike_unary (hsource : env.source = env'.source) (op : List Char) {p q : Printed} (h : Alike v p q) :
    (unary env op p).ink v = (unary env' op q).ink v := by
  simp only [unary, hsource, h.node, Doc.ink_andThen, h.full]

theorem alike_paren {ps qs : List Printed} (h : AllAlike v ps qs) : (paren env ps).ink v = (paren env' qs).ink v := by
  simp only [paren, h.isEmpty]
  split
  · rfl
  · simp only [ink_bracketed, alike_lineList h]

theorem alike_inlineClosure {ps qs : List Printed} (h : AllAlike v ps qs) :
    (inlineClosure env ps).ink v = (inlineClosure env' qs).ink v := by
  simp only [inlineClosure, h.isEmpty]
  split
  · rfl
  · simp only [Doc.ink_grouped, Doc.ink_andThen, ink_indent, alike_join h (Doc.ink_line v) (Doc.ink_line v)]

/-! ## Statements and declarations -/

/-- a block on one line and one on several lines print the same -/
theorem alike_codeBlock (slot : Slot) (span : Span) (openComment : Option Comment) {ps qs : List Printed}
    (h : AllAlike v ps qs) : (codeBlock env slot span openComment ps).ink v = (codeBlock env' slot span openComment qs).ink v := by
  have hseparator (env : Env) (ps : List Printed) :
      (if condenses env slot span ps then Doc.line else Doc.hardline).ink v = [] := by
    split <;> rfl
  simp only [codeBlock, h.isEmpty]
  split
  · rfl
  · simp only [Doc.ink_andThen, Doc.ink_grouped, ink_indent, hseparator, alike_join h (hseparator env ps) (hseparator env' qs)]

theorem alike_branch {p q : Printed} (h : Alike v p q) : (branch env p).ink v = (branch env' q).ink v := by
  simp only [branch, h.shape]
  split
  · simp [h.full]
  · split <;> simp [h.full]

theorem alike_header (keyword : String) {inner inner' : Doc} (h : inner.ink v = inner'.ink v) :
    (header env keyword inner).ink v = (header env' keyword inner').ink v := by
  simp [header, h]

theorem alike_ifElse {test test' : Doc} (ht : test.ink v = test'.ink v) {p q : Printed} (h : Alike v p q)
    {alternate alternate' : Option Printed} (ha : MaybeAlike v alternate alternate') :
    (ifElse env test p alternate).ink v = (ifElse env' test' q alternate').ink v := by
  cases ha with
  | none => simp only [ifElse, Doc.ink_grouped, Doc.ink_andThen, alike_header env env' "if" ht, alike_branch env env' h]
  | @some a a' halternate =>
    have htail : (if a.shape.isIfElse then Doc.lit " " ++ a.full else branch env a).ink v =
        (if a'.shape.isIfElse then Doc.lit " " ++ a'.full else branch env' a').ink v := by
      rw [halternate.shape]
      split
      · simp [halternate.full]
      · exact alike_branch env env' halternate
    simp only [ifElse, Doc.ink_grouped, Doc.ink_andThen, alike_header env env' "if" ht, alike_branch env env' h, htail,
      h.shape, h.hasSuffix]

theorem alike_switch {test test' : Doc} (ht : test.ink v = test'.ink v) {ps qs : List Printed} (h : AllAlike v ps qs) :
    (switch env test ps).ink v = (switch env' test' qs).ink v := by
  simp only [switch, h.isEmpty]
  split
  · simp only [Doc.ink_andThen, alike_header env env' "switch" ht]
  · simp only [Doc.ink_andThen, ink_indent, alike_header env env' "switch" ht, alike_statements h]

theorem alike_switchCase {test test' : Option Printed} (ht : MaybeAlike v test test') {ps qs : List Printed}
    (h : AllAlike v ps qs) : (switchCase env test ps).ink v = (switchCase env' test' qs).ink v := by
  cases ht with
  | none =>
    simp only [switchCase, h.isEmpty]
    split
    · rfl
    · simp only [Doc.ink_andThen, ink_indent, alike_statements h]
  | some htest =>
    simp only [switchCase, h.isEmpty]
    split
    · simp only [Doc.ink_andThen, htest.full]
    · simp only [Doc.ink_andThen, ink_indent, htest.full, alike_statements h]

theorem alike_forLoop {init init' test test' update update' : Option Printed} (hi : MaybeAlike v init init')
    (ht : MaybeAlike v test test') (hu : MaybeAlike v update update') {p q : Printed} (h : Alike v p q) :
    (forLoop env init test update p).ink v = (forLoop env' init' test' update' q).ink v := by
  have hinit : ((init.map Printed.full).getD .nil).ink v = ((init'.map Printed.full).getD .nil).ink v := by
    cases hi with
    | none => rfl
    | some hp => exact hp.full
  have hslot {o o' : Option Printed} (ho : MaybeAlike v o o') {d d' : Doc} (hd : d.ink v = d'.ink v) :
      (headPart d o).ink v = (headPart d' o').ink v := by
    cases ho with
    | none => exact hd
    | some hp => simp only [headPart, Option.elim_some, Doc.ink_andThen, hd, hp.full]
  rw [forLoop_eq, forLoop_eq, Doc.ink_andThen, Doc.ink_andThen, alike_branch env env' h]
  refine congrArg (· ++ _) (alike_header env env' "for" (hslot hu ?_))
  rw [Doc.ink_andThen, Doc.ink_andThen]
  refine congrArg (· ++ _) (hslot ht ?_)
  rw [Doc.ink_andThen, Doc.ink_andThen, hinit]

theorem alike_foreachLoop (hsource : env.source = env'.source) {ps qs : List Printed} (h : AllAlike v ps qs)
    {iterable iterable' body body' : Printed} (hi : Alike v iterable iterable') (hb : Alike v body body') :
    (foreachLoop env ps iterable body).ink v = (foreachLoop env' qs iterable' body').ink v := by
  unfold foreachLoop
  rw [hsource, hi.node, h.lastStop, Doc.ink_andThen, Doc.ink_andThen, alike_branch env env' hb]
  refine congrArg (· ++ _) (alike_header env env' "foreach" ?_)
  simp only [Doc.ink_andThen, Doc.ink_grouped, alike_lineList h, hi.full]

theorem alike_doWhile {p q : Printed} (h : Alike v p q) {test test' : Doc} (ht : test.ink v = test'.ink v) :
    (doWhile env p test).ink v = (doWhile env' q test').ink v := by
  simp only [doWhile, h.shape, Doc.ink_andThen, alike_header env env' "while" ht]
  split
  · simp [h.full]
  · simp [alike_branch env env' h]

theorem alike_returnValue {argument argument' : Option Printed} (h : MaybeAlike v argument argument') :
    (returnValue env argument).ink v = (returnValue env' argument').ink v := by
  cases h with
  | none => rfl
  | some hp => simp [returnValue, hp.full]

theorem alike_varDecl (modifiers : List Lexeme) (typeName : Option Lexeme) {ps qs : List Printed}
    (h : AllAlike v ps qs) : (varDecl modifiers typeName ps).ink v = (varDecl modifiers typeName qs).ink v := by
  have hlength : ps.length = qs.length := List.Forall₂.length_eq h
  have hseparator (ps : List Printed) : (if ps.any Printed.hasSuffix then Doc.hardline else Doc.line).ink v = [] := by
    split <;> rfl
  have hlist := alike_commaList h (hseparator ps) (hseparator qs)
  simp only [varDecl, h.isEmpty, hlength]
  split
  · rfl
  · split
    · simp only [Doc.ink_grouped, hlist]
    · split <;> simp only [Doc.ink_andThen, Doc.ink_nested, Doc.ink_grouped, hlist]

theorem alike_declarator {name name' init init' : Option Printed} (hn : MaybeAlike v name name')
    (hi : MaybeAlike v init init') (isArray byRef isSpread isDefault : Bool) :
    (declarator env name isArray byRef isSpread init isDefault).ink v =
      (declarator env' name' isArray byRef isSpread init' isDefault).ink v := by
  have hname : ((name.map Printed.full).getD .nil).ink v = ((name'.map Printed.full).getD .nil).ink v := by
    cases hn with
    | none => rfl
    | some hp => exact hp.full
  cases hi with
  | none => simp only [declarator, Doc.ink_andThen, hname]
  | some hp =>
    simp only [declarator]
    split
    · simp only [Doc.ink_andThen, hname, hp.full]
    · simp only [Doc.ink_andThen, hname, alike_value env env' hp]

theorem alike_function (modifiers : List Lexeme) (typeName : Option Lexeme) (isArray : Bool) {name name' : Doc}
    (hn : name.ink v = name'.ink v) {ps qs : List Printed} (h : AllAlike v ps qs) {body body' : Option Printed}
    (hb : MaybeAlike v body body') : (function env modifiers typeName isArray name ps body).ink v =
      (function env' modifiers typeName isArray name' qs body').ink v := by
  have hparams (d d' : Doc) (hd : d.ink v = d'.ink v) :
      (if ps.isEmpty then d ++ Doc.lit "()" else d ++ env.bracketed "(" (commaList Doc.line ps) ")").ink v =
      (if qs.isEmpty then d' ++ Doc.lit "()" else d' ++ env'.bracketed "(" (commaList Doc.line qs) ")").ink v := by
    rw [h.isEmpty]
    split
    · simp only [Doc.ink_andThen, hd]
    · simp only [Doc.ink_andThen, ink_bracketed, hd, alike_lineList h]
  have hhead (d : Doc) : (d ++ name).ink v = (d ++ name').ink v := by simp only [Doc.ink_andThen, hn]
  cases hb with
  | none => simp only [function, Doc.ink_andThen, hparams _ _ (hhead _)]
  | some hp => simp only [function, Doc.ink_andThen, hparams _ _ (hhead _), hp.full]

theorem alike_structDef (hsource : env.source = env'.source) (span : Span) {name name' : Doc}
    (hn : name.ink v = name'.ink v) {ps qs : List Printed} (h : AllAlike v ps qs) :
    (structDef env span name ps).ink v = (structDef env' span name' qs).ink v := by
  simp only [structDef, hsource, h.isEmpty]
  split
  · simp only [Doc.ink_andThen, hn]
  · simp only [Doc.ink_andThen, Doc.ink_grouped, ink_indent, hn, alike_join h (Doc.ink_line v) (Doc.ink_line v)]

theorem alike_directive (indentation indentation' : Int) (name : Lexeme) (key : Option Lexeme) (args : List Lexeme) :
    (directive indentation name key args).ink v = (directive indentation' name key args).ink v := by
  simp only [directive]
  split
  · rfl
  · simp only [Doc.ink_grouped, Doc.ink_andThen, Doc.ink_nested]

/-! ## Whole trees -/

/-- **A node prints the same under all settings**, what does not count aside: every part is printed under the ones if and
only if it is under the others, and in the same order. -/
theorem alike_print (hsource : env.source = env'.source) (n : Node) (place : Place) :
    Alike v (print env place n) (print env' place n) := by
  induction n using Node.partsInduction generalizing place with
  | mk span shape suffix ih =>
    have hall {ns : List Node} (hns : ∀ k ∈ ns, ∀ place, Alike v (print env place k) (print env' place k))
        (place : Place) : AllAlike v (ns.map (print env place)) (ns.map (print env' place)) := by
      rw [AllAlike, List.forall₂_map_left_iff, List.forall₂_map_right_iff, List.forall₂_same]
      exact fun k hk => hns k hk place
    have hopt {o : Option Node} (ho : ∀ k ∈ o.toList, ∀ place, Alike v (print env place k) (print env' place k))
        (place : Place) : MaybeAlike v (o.map (print env place)) (o.map (print env' place)) := by
      cases o with
      | none => exact .none
      | some k => exact .some (ho k (by simp) place)
    refine ⟨rfl, rfl, ?_⟩
    simp only [print]
    cases shape <;> simp only [Shape.parts, List.forall_mem_append, List.forall_mem_cons, List.cons_append] at ih <;>
      simp only [layout, printAll_eq_map, print?_eq_map]
    case directive name key args => exact alike_directive _ _ _ _ _
    case spread a => simp [(ih.1 _).full]
    case call callee args => exact alike_call env env' (ih.1 _).full (hall ih.2 _)
    case member object property dot => simp [(ih.1 _).full, (ih.2.1 _).full]
    case index object indexor => simp [index, (ih.1 _).full, (ih.2.1 _).full]
    case indexor parts =>
      simp only [Doc.ink_concat, List.flatMap_map]
      exact List.flatMap_congr fun k hk => (ih k hk _).full
    case parentAccess scope member =>
      cases scope with
      | none => simp [(ih.2.1 _).full]
      | some s => simp [(ih.1 s (by simp) _).full, (ih.2.1 _).full]
    case binary left op right implied => rw [ink_binaryish, ink_binaryish, (ih.1 _).full, (ih.2.1 _).full]
    case logical left op right => rw [ink_binaryish, ink_binaryish, (ih.1 _).full, (ih.2.1 _).full]
    case ternary test consequent alternate =>
      simp [ternary, (ih.1 _).full, (ih.2.1 _).full, (ih.2.2.1 _).full]
    case assignment left op right => exact alike_assignment env env' (ih.1 _).full _ (hopt ih.2 _)
    case unary op a => exact alike_unary env env' hsource _ (ih.1 _)
    case typeCast typeName isArray a => simp [typeCast, (ih.1 _).full]
    case paren items => exact alike_paren env env' (hall ih _)
    case multiExpression items => simp only [Doc.ink_grouped, alike_lineList (hall ih _)]
    case range first last => simp [range, (ih.1 _).full, (ih.2.1 _).full]
    case array elements => exact alike_array env env' (hall ih _) _ _
    case mapping pairs => exact alike_mapping env env' (hall ih _)
    case mappingPair key values => exact alike_mappingPair env env' (ih.1 _).full (hall ih.2 _)
    case structLiteral name items => exact alike_structLiteral env env' _ (hall ih _)
    case inlineClosure items => exact alike_inlineClosure env env' (hall ih _)
    case lambda args code => simp [lambda, (ih.1 _).full, (ih.2.1 _).full]
    case varDecl modifiers typeName declarators => exact alike_varDecl _ _ (hall ih _)
    case declarator name isArray byRef isSpread init isDefault =>
      exact alike_declarator env env' (hopt ih.1 _) (hopt ih.2 _) _ _ _ _
    case function modifiers typeName isArray name params body =>
      exact alike_function env env' _ _ _ (ih.1 _).full (hall ih.2.1 _) (hopt ih.2.2 _)
    case structDef name members => exact alike_structDef env env' hsource _ (ih.1 _).full (hall ih.2 _)
    case inherit modifiers a => simp [inherit, (ih.1 _).full]
    case codeBlock openComment items => exact alike_codeBlock env env' _ _ _ (hall ih _)
    case ifElse test consequent alternate =>
      exact alike_ifElse env env' (ih.1 _).full (ih.2.1 _) (hopt ih.2.2 _)
    case switch test cases => exact alike_switch env env' (ih.1 _).full (hall ih.2 _)
    case switchCase test body => exact alike_switchCase env env' (hopt ih.1 _) (hall ih.2 _)
    case forLoop init test update body =>
      exact alike_forLoop env env' (hopt ih.1.1.1 _) (hopt ih.1.1.2 _) (hopt ih.1.2 _) (ih.2.1 _)
    case foreachLoop vars iterable body =>
      exact alike_foreachLoop env env' hsource (hall ih.1 _) (ih.2.1 _) (ih.2.2.1 _)
    case whileLoop test body =>
      simp only [whileLoop, Doc.ink_andThen, alike_header env env' "while" (ih.1 _).full, alike_branch env env' (ih.2.1 _)]
    case doWhile body test => exact alike_doWhile env env' (ih.1 _) (ih.2.1 _).full
    case returnValue a => exact alike_returnValue env env' (hopt ih _)

end LpcStyle.Style
