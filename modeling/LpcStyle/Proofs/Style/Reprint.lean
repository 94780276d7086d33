import Mathlib.Tactic
import LpcStyle.Proofs.Style.Ink
import LpcStyle.Proofs.Tree.Legible
import LpcStyle.Style.Printer

/-!
The layout of a tree that checks every access. `reprint` lays out a node as `print` does, but reads each piece of text
again from the source, by its span, and has no result where a span is no range of the source or a pair has one element.
Main statements:
- `reprint_eq`: a node that can be read again is laid out by `reprint` as it is by `print`;
- `Document.reprint_eq`: so is a document whose nodes can be read again.
-/

namespace LpcStyle

open Text

/-! ## Reading again -/

/-- the piece as the source has it -/
def Lexeme.reread (source : List Char) (l : Lexeme) : Option Lexeme := (slice? source l.span).map (Lexeme.mk l.span)

/-- the comment as the source has it -/
def Comment.reread (source : List Char) (c : Comment) : Option Comment :=
  (slice? source c.span).map (Comment.mk c.kind c.span)

namespace Style

/-- the text of a node that is a name, as the source has it -/
def renameOf? (source : List Char) : Node → Option (Option (List Char))
  | .mk span (.identifier _) _ => do return some (← slice? source span)
  | _ => some none

/-- a line end stands between two offsets of the source -/
def Env.hasNewline? (env : Env) (start stop : Nat) : Option Bool :=
  if start < stop then do return (← slice? env.source ⟨start, stop⟩).contains '\n' else some false

def unary? (env : Env) (op : List Char) (argument : Printed) : Option Doc := do
  let space ←
    if op == ['-'] || op == ['+'] then do pure (startsWith op (← slice? env.source argument.node.span)) else pure false
  return Doc.word op ++ (if space then Doc.lit " " else .nil) ++ argument.full

/-- two elements on each line; the second of a pair must be there -/
def pairLines? (env : Env) : List Printed → Option (List Doc)
  | [] => some []
  | [_] => none
  | key :: value :: rest => do
    let lines ← pairLines? env rest
    return ((key.bare ++ Doc.lit "," ++ key.suffix ++ env.indent (Doc.line ++ value.bare) ++ Doc.lit ",").grouped ++
      value.suffix) :: lines

def followsPairMarker? (env : Env) (start : Nat) : Option Bool :=
  match nodeBefore? env.forest start with
  | some ⟨span, .comment _ _⟩ => do return contains pairMarker.toList (← slice? env.source span)
  | _ => some false

def printsAsPairs? (env : Env) (place : Place) (span : Span) (elements : List Printed) : Option Bool :=
  if elements.length % 2 == 0 && elements.all (!·.shape.standsAlone) then
    if place.target.any env.options.isPairVariable then some true
    else followsPairMarker? env (place.anchor.getD span.start)
  else some false

def array? (env : Env) (place : Place) (span : Span) : List Printed → Option Doc
  | [] => some (Doc.lit "(\x7b\x7d)")
  | first :: rest => do
    let elements := first :: rest
    let pairs ← printsAsPairs? env place span elements
    let stays ← env.hasNewline? (span.start + 2) first.node.start
    let stay := if stays then Doc.breakParent else .nil
    let body ←
      if pairs then do pure (stay ++ Doc.join Doc.hardline (← pairLines? env elements))
      else pure (stay ++ fill elements ++ trailingComma env elements)
    return env.bracketed "(\x7b" body "\x7d)"

def condenses? (env : Env) (slot : Slot) (span : Span) (items : List Printed) : Option Bool :=
  match items with
  | [item] =>
    if env.options.condenseSingleStatementBlocks && slot != .ifBranch then do
      return !(← env.hasNewline? span.start item.node.stop)
    else some false
  | _ => some false

def codeBlock? (env : Env) (slot : Slot) (span : Span) (openComment : Option Comment) (items : List Printed) :
    Option Doc := do
  let front := match openComment with
    | some c => Doc.lit "\x7b" ++ Doc.lit " " ++ comment c.kind c.text
    | none => Doc.lit "\x7b"
  if items.isEmpty then
    return front ++ (if openComment.isSome then Doc.hardline else Doc.lit "  ") ++ Doc.lit "\x7d"
  else
    let separator := if ← condenses? env slot span items then Doc.line else Doc.hardline
    let body := Doc.join separator (items.map Printed.full)
    return front ++ (env.indent (separator ++ body) ++ separator).grouped ++ Doc.lit "\x7d"

def foreachLoop? (env : Env) (vars : List Printed) (iterable body : Printed) : Option Doc := do
  let varsStop := (vars.getLast?.map (·.node.stop)).getD iterable.node.start
  let written := trim (← slice? env.source ⟨varsStop, iterable.node.start⟩)
  let separator := if written == "in".toList then Doc.lit " in " else Doc.lit " : "
  let inner := commaList Doc.line vars ++ separator ++ iterable.full.grouped
  return header env "foreach" inner ++ branch env body

def structDef? (env : Env) (span : Span) (name : Doc) (members : List Printed) : Option Doc := do
  let keyword := ((words (← slice? env.source span)).head?).getD "struct".toList
  let head := Doc.word keyword ++ Doc.lit " " ++ name ++ Doc.lit " \x7b"
  if members.isEmpty then return head ++ Doc.lit "  \x7d;"
  else
    let members := Doc.join Doc.line (members.map Printed.full)
    return head ++ (env.indent (Doc.line ++ members) ++ Doc.line).grouped ++ Doc.lit "\x7d;"

mutual

/-- lays out a node at a place, with all its text read again -/
def reprint (env : Env) (place : Place) : Node → Option Printed
  | .mk span shape suffix => do
    let suffix ← suffix.mapM (Comment.reread env.source)
    return ⟨.mk span shape suffix, place.slot, ← relayout env place span shape⟩

/-- lays out a form at a place, with all its text read again -/
def relayout (env : Env) (place : Place) (span : Span) : Shape Node → Option Doc
  | .literal _ _ | .textBlock _ | .identifier _
  | .closureSymbol _ | .closureIndex _ => do return Doc.word (trim (← slice? env.source span))
  | .blankLine => some .nil
  | .comment kind _ => do return comment kind (← slice? env.source span)
  | .directive name key args => do
    return directive env.options.indentation (← name.reread env.source) (← key.mapM (Lexeme.reread env.source))
      (← args.mapM (Lexeme.reread env.source))
  | .spread a => do return (← reprint env (place.under span .inner) a).full ++ Doc.lit "..."
  | .call callee args => do
    return call env (← reprint env (place.under span .inner) callee).full
      (← reprintAll env (place.under span .inner) args)
  | .member object property dot => do
    return (← reprint env (place.under span .inner) object).full ++ Doc.lit (if dot then "." else "->") ++
      (← reprint env (place.under span .inner) property).full
  | .index object indexor => do
    return index env (← reprint env (place.under span .inner) object).full
      (← reprint env (place.under span .inner) indexor).full
  | .indexor parts => do
    return Doc.concat ((← reprintAll env (place.under span .inner) parts).map Printed.full)
  | .indexMark mark => some (indexMark mark)
  | .parentAccess scope member => do
    return ((← reprint? env (place.under span .inner) scope).map Printed.full).getD .nil ++ Doc.lit "::" ++
      (← reprint env (place.under span .inner) member).full
  | .binary left op right implied => do
    let left ← reprint env (place.under span .binaryOperand) left
    let right ← reprint env (place.under span .binaryOperand) right
    let op ← if implied then pure .nil else do pure (Doc.lit " " ++ Doc.word (← op.reread env.source).text)
    return binaryish false place.slot left right op
  | .logical left op right => do
    return binaryish true place.slot (← reprint env (place.under span .logicalOperand) left)
      (← reprint env (place.under span .logicalOperand) right) (Doc.lit " " ++ Doc.word (← op.reread env.source).text)
  | .ternary test consequent alternate => do
    return ternary env (← reprint env (place.under span .inner) test).full
      (← reprint env (place.under span .inner) consequent).full
      (← reprint env (place.under span .inner) alternate).full
  | .assignment left op right => do
    let target ← renameOf? env.source left
    return assignment env (← reprint env (place.under span .inner) left).full
      (Doc.word (← op.reread env.source).text)
      (← reprint? env { place.under span .inner with target } right)
  | .unary op a => do
    unary? env (← op.reread env.source).text (← reprint env (place.under span .inner) a)
  | .typeCast typeName isArray a => do
    return typeCast (← typeName.reread env.source).text isArray (← reprint env (place.under span .inner) a).full
  | .paren items => do return paren env (← reprintAll env (place.under span .parenItem) items)
  | .multiExpression items => do
    return (commaList Doc.line (← reprintAll env (place.under span .inner) items)).grouped
  | .range first last => do
    return range (← reprint env (place.under span .inner) first).full
      (← reprint env (place.under span .inner) last).full
  | .array elements => do array? env place span (← reprintAll env (place.under span .inner) elements)
  | .mapping pairs => do return mapping env (← reprintAll env (place.under span .inner) pairs)
  | .mappingPair key values => do
    return mappingPair env (← reprint env (place.under span .inner) key).full
      (← reprintAll env (place.under span .inner) values)
  | .structLiteral name items => do
    return structLiteral env (← name.reread env.source).text (← reprintAll env (place.under span .inner) items)
  | .inlineClosure items => do
    return inlineClosure env
      (← reprintAll env (place.under span (if 1 < items.length then .statement else .inner)) items)
  | .lambda args code => do
    return lambda env (← reprint env (place.under span .inner) args).full
      (← reprint env (place.under span .inner) code).full
  | .varDecl modifiers typeName declarators => do
    return varDecl (← modifiers.mapM (Lexeme.reread env.source)) (← typeName.mapM (Lexeme.reread env.source))
      (← reprintAll env (place.under span .inner) declarators)
  | .declarator name isArray byRef isSpread init isDefault => do
    let target ← match name with
      | some name => renameOf? env.source name
      | none => pure none
    return declarator env (← reprint? env (place.under span .inner) name) isArray byRef isSpread
      (← reprint? env { place.under span .inner with target } init) isDefault
  | .function modifiers typeName isArray name params body => do
    return function env (← modifiers.mapM (Lexeme.reread env.source)) (← typeName.mapM (Lexeme.reread env.source))
      isArray (← reprint env (place.under span .inner) name).full
      (← reprintAll env (place.under span .inner) params) (← reprint? env (place.under span .inner) body)
  | .structDef name members => do
    structDef? env span (← reprint env (place.under span .inner) name).full
      (← reprintAll env (place.under span .statement) members)
  | .inherit modifiers a => do
    return inherit (← modifiers.mapM (Lexeme.reread env.source)) (← reprint env (place.under span .inner) a).full
  | .codeBlock openComment items => do
    codeBlock? env place.slot span (← openComment.mapM (Comment.reread env.source)) (← reprintAll env .listed items)
  | .ifElse test consequent alternate => do
    return ifElse env (← reprint env (place.under span .inner) test).full
      (← reprint env (place.under span .ifBranch) consequent) (← reprint? env (place.under span .ifBranch) alternate)
  | .switch test cases => do
    return switch env (← reprint env (place.under span .inner) test).full
      (← reprintAll env (place.under span .inner) cases)
  | .switchCase test body => do
    return switchCase env (← reprint? env { slot := .inner } test) (← reprintAll env .listed body)
  | .forLoop init test update body => do
    return forLoop env (← reprint? env (place.under span .inner) init) (← reprint? env (place.under span .inner) test)
      (← reprint? env (place.under span .inner) update) (← reprint env (place.under span .statement) body)
  | .foreachLoop vars iterable body => do
    foreachLoop? env (← reprintAll env (place.under span .inner) vars)
      (← reprint env (place.under span .inner) iterable) (← reprint env (place.under span .statement) body)
  | .whileLoop test body => do
    return whileLoop env (← reprint env (place.under span .inner) test).full
      (← reprint env (place.under span .statement) body)
  | .doWhile body test => do
    return doWhile env (← reprint env (place.under span .statement) body)
      (← reprint env (place.under span .inner) test).full
  | .returnValue a => do return returnValue env (← reprint? env (place.under span .inner) a)
  | .jump kind => some (jump kind)

def reprintAll (env : Env) (place : Place) : List Node → Option (List Printed)
  | [] => some []
  | n :: ns => do return (← reprint env place n) :: (← reprintAll env place ns)

def reprint? (env : Env) (place : Place) : Option Node → Option (Option Printed)
  | none => some none
  | some n => do return some (← reprint env place n)

end

/-- the layout of a document, with all its text read again -/
def sourceFile? (env : Env) (roots : List Node) : Option Doc :=
  if roots.isEmpty then some .nil else do return statements (← reprintAll env .listed roots) ++ Doc.hardline

end Style

/-- the document in the layout that the options ask for, with all its text read again -/
def Document.reprint (d : Document) (options : Options) : Option (List Char) := do
  let doc ← Style.sourceFile? ⟨options, d.text, d.forest⟩ d.roots
  return Layout.finish options.useTabs options.tabWidth (doc.render options.printWidth)

/-! ## Pieces of text -/

variable {text : List Char} {span : Span} {shape : Shape Node} {suffix : Option Comment}

theorem Lexeme.Copied.reread {l : Lexeme} (h : l.Copied text) : l.reread text = some l := by
  rw [Lexeme.reread, show slice? text l.span = some l.text from h, Option.map_some]

theorem Comment.Copied.reread {c : Comment} (h : c.Copied text) : c.reread text = some c := by
  rw [Comment.reread, show slice? text c.span = some c.text from h, Option.map_some]

theorem mapM_reread {ls : List Lexeme} (h : ∀ l ∈ ls, l.Copied text) : ls.mapM (Lexeme.reread text) = some ls := by
  induction ls with
  | nil => rfl
  | cons l ls ih =>
    obtain ⟨hl, hls⟩ := List.forall_mem_cons.1 h
    rw [List.mapM_cons, hl.reread, ih hls]
    rfl

theorem mapM_option_self {α : Type} {f : α → Option α} {o : Option α} (h : ∀ x ∈ o, f x = some x) :
    o.mapM f = some o := by
  cases o with
  | none => rfl
  | some x => simp [h x rfl]

namespace Style

variable {env : Env} {place : Place} {i j : Nat}

/-- every comment that stands before an offset of the forest can be read again -/
def Env.Marked (env : Env) : Prop :=
  ∀ start span kind text, nodeBefore? env.forest start = some ⟨span, .comment kind text⟩ →
    slice? env.source span = some text

theorem renameOf?_eq {n : Node} (h : n.Legible env.source) : renameOf? env.source n = some (nameOf? n) := by
  obtain ⟨span, shape, suffix⟩ := n
  cases shape with
  | identifier text => simp [renameOf?, nameOf?, show slice? env.source span = some text from h.own]
  | _ => rfl

theorem hasNewline?_eq (hi : Boundary env.source i) (hj : Boundary env.source j) :
    env.hasNewline? i j = some (env.hasNewline i j) := by
  by_cases h : i < j
  · simp [Env.hasNewline?, Env.hasNewline, h, hi.slice? hj h.le]
  · simp [Env.hasNewline?, Env.hasNewline, h]

theorem unary?_eq {p : Printed} (h : p.node.Legible env.source) (op : List Char) :
    unary? env op p = some (unary env op p) := by
  by_cases hop : op = ['-'] ∨ op = ['+']
  · simp [unary?, unary, hop, h.range.slice?]
  · simp [unary?, unary, hop]

/-- **An even number of elements leaves none without a partner.** -/
theorem pairLines?_eq (env : Env) {ps : List Printed} (h : ps.length % 2 = 0) :
    pairLines? env ps = some (pairLines env ps) := by
  fun_induction pairLines? env ps with
  | case1 => rfl
  | case2 => simp at h
  | case3 key value rest ih =>
    have hrest : rest.length % 2 = 0 := by
      simp only [List.length_cons] at h
      omega
    simp [ih hrest, pairLines]

theorem followsPairMarker?_eq (h : env.Marked) (start : Nat) :
    followsPairMarker? env start = some (followsPairMarker env start) := by
  cases hbefore : nodeBefore? env.forest start with
  | none => simp [followsPairMarker?, followsPairMarker, hbefore]
  | some label =>
    obtain ⟨span, shape⟩ := label
    cases shape with
    | comment kind text => simp [followsPairMarker?, followsPairMarker, hbefore, h start span kind text hbefore]
    | _ => simp [followsPairMarker?, followsPairMarker, hbefore]

theorem printsAsPairs?_eq (h : env.Marked) (place : Place) (span : Span) (ps : List Printed) :
    printsAsPairs? env place span ps = some (printsAsPairs env place span ps) := by
  unfold printsAsPairs? printsAsPairs
  split
  · next heven =>
    rw [heven, Bool.true_and]
    split
    · next hnamed => rw [hnamed, Bool.true_or]
    · next hnamed => rw [followsPairMarker?_eq h, Bool.eq_false_iff.2 hnamed, Bool.false_or]
  · next hodd => rw [Bool.eq_false_iff.2 hodd, Bool.false_and]

theorem array?_eq (h : env.Marked) (hstart : Boundary env.source (span.start + 2)) {ps : List Printed}
    (hps : ∀ p ∈ ps, p.node.Legible env.source) : array? env place span ps = some (array env place span ps) := by
  cases ps with
  | nil => rfl
  | cons first rest =>
    have hfirst : Boundary env.source first.node.start := (hps first List.mem_cons_self).start
    simp only [array?, array, printsAsPairs?_eq h, hasNewline?_eq hstart hfirst, Option.pure_def, Option.bind_eq_bind,
      Option.bind_some]
    split
    · next hpairs =>
      -- pairs are laid out only where the number of elements is even
      have heven : (first :: rest).length % 2 = 0 := by
        simp only [printsAsPairs, Bool.and_eq_true, beq_iff_eq] at hpairs
        exact hpairs.1.1
      rw [pairLines?_eq env heven]
      rfl
    · rfl

theorem condenses?_eq (hstart : Boundary env.source span.start) {ps : List Printed}
    (hps : ∀ p ∈ ps, p.node.Legible env.source) (slot : Slot) :
    condenses? env slot span ps = some (condenses env slot span ps) := by
  match ps with
  | [] => rfl
  | [p] =>
    have hstop : Boundary env.source p.node.stop := (hps p List.mem_cons_self).stop
    simp only [condenses?, condenses, hasNewline?_eq hstart hstop]
    split
    · next hcan => simp [hcan]
    · next hcan => simp only [Bool.eq_false_iff.2 hcan, Bool.false_and]
  | _ :: _ :: _ => rfl

theorem codeBlock?_eq (hstart : Boundary env.source span.start) {ps : List Printed}
    (hps : ∀ p ∈ ps, p.node.Legible env.source) (slot : Slot) (openComment : Option Comment) :
    codeBlock? env slot span openComment ps = some (codeBlock env slot span openComment ps) := by
  simp only [codeBlock?, codeBlock, condenses?_eq hstart hps]
  split <;> rfl

theorem foreachLoop?_eq {vars : List Printed} {iterable body : Printed}
    (hvars : ∀ p ∈ vars, p.node.Legible env.source) (hiterable : iterable.node.Legible env.source)
    (hgap : ∀ p ∈ vars.getLast?, p.node.stop ≤ iterable.node.start) :
    foreachLoop? env vars iterable body = some (foreachLoop env vars iterable body) := by
  have hstop : ((vars.getLast?.map (·.node.stop)).getD iterable.node.start) ≤ iterable.node.start ∧
      Boundary env.source ((vars.getLast?.map (·.node.stop)).getD iterable.node.start) := by
    cases hlast : vars.getLast? with
    | none => exact ⟨le_rfl, hiterable.start⟩
    | some p => exact ⟨hgap p hlast, (hvars p (List.mem_of_getLast? hlast)).stop⟩
  simp only [foreachLoop?, foreachLoop, hstop.2.slice? hiterable.start hstop.1, Option.pure_def, Option.bind_eq_bind,
    Option.bind_some]

theorem structDef?_eq (h : span.Selects env.source) (name : Doc) (ps : List Printed) :
    structDef? env span name ps = some (structDef env span name ps) := by
  simp only [structDef?, structDef, h.slice?, Option.pure_def, Option.bind_eq_bind, Option.bind_some]
  split <;> rfl

/-! ## The tree -/

theorem reprintAll_eq {ns : List Node} (h : ∀ n ∈ ns, reprint env place n = some (print env place n)) :
    reprintAll env place ns = some (ns.map (print env place)) := by
  induction ns with
  | nil => rfl
  | cons n ns ih =>
    obtain ⟨hn, hns⟩ := List.forall_mem_cons.1 h
    simp [reprintAll, hn, ih hns]

theorem reprint?_eq {o : Option Node} (h : ∀ n ∈ o.toList, reprint env place n = some (print env place n)) :
    reprint? env place o = some (o.map (print env place)) := by
  cases o with
  | none => rfl
  | some n => simp [reprint?, h n (by simp)]

/-- printed forms of readable parts are readable -/
theorem legible_map_print {ns : List Node} (h : ∀ n ∈ ns, n.Legible env.source) :
    ∀ p ∈ ns.map (print env place), p.node.Legible env.source := by
  intro p hp
  obtain ⟨n, hn, rfl⟩ := List.mem_map.1 hp
  rw [node_print]
  exact h n hn

/-- **A form is laid out the same with its text read again**, if its parts are. -/
theorem relayout_eq (hmarked : env.Marked) (h : (Node.mk span shape suffix).Legible env.source)
    (hparts : ∀ k ∈ shape.parts, ∀ place, reprint env place k = some (print env place k)) (place : Place) :
    relayout env place span shape = some (layout env place span shape) := by
  have hall {ns : List Node} (hns : ∀ k ∈ ns, ∀ place, reprint env place k = some (print env place k)) (place : Place) :
      reprintAll env place ns = some (ns.map (print env place)) := reprintAll_eq fun k hk => hns k hk place
  have hopt {o : Option Node} (ho : ∀ k ∈ o.toList, ∀ place, reprint env place k = some (print env place k))
      (place : Place) : reprint? env place o = some (o.map (print env place)) := reprint?_eq fun k hk => ho k hk place
  have hword {own : List Char} (hsame : slice? env.source span = some own) :
      ((slice? env.source span).bind fun written => some (Doc.word (trim written))) = some (Doc.word (trim own)) := by
    rw [hsame, Option.bind_some]
  have hrange : span.Selects env.source := h.range
  have hown := h.own
  have hlegible := h.parts
  -- each case reads again what the form holds (`hown`) and has its parts laid out (`hparts`)
  cases shape <;>
    simp only [Shape.parts, List.forall_mem_append, List.forall_mem_cons, List.cons_append] at hparts hlegible <;>
    simp only [relayout, layout, printAll_eq_map, print?_eq_map, Option.pure_def, Option.bind_eq_bind]
  case literal kind own => exact hword hown.1
  case textBlock own => exact hword hown.1
  case identifier own => exact hword hown
  case closureSymbol own => exact hword hown
  case closureIndex own => exact hword hown
  case comment kind own => rw [show slice? env.source span = some own from hown, Option.bind_some]
  case directive name key args =>
    obtain ⟨hname, hrest⟩ := List.forall_mem_cons.1 hown
    obtain ⟨hkey, hargs⟩ := List.forall_mem_append.1 hrest
    simp [hname.reread, mapM_option_self fun l hl => (hkey l (by simpa using hl)).reread, mapM_reread hargs]
  case call callee args => simp [hparts.1, hall hparts.2]
  case member object property dot => simp [hparts.1, hparts.2.1]
  case spread a => simp [hparts.1]
  case index object indexor => simp [hparts.1, hparts.2.1]
  case indexor parts => simp [hall hparts]
  case parentAccess scope member => simp [hopt hparts.1, hparts.2.1]
  case binary left op right implied =>
    cases implied with
    | false => simp [hparts.1, hparts.2.1, Lexeme.Copied.reread (hown rfl)]
    | true => simp [hparts.1, hparts.2.1]
  case logical left op right => simp [hparts.1, hparts.2.1, Lexeme.Copied.reread hown]
  case ternary test consequent alternate => simp [hparts.1, hparts.2.1, hparts.2.2.1]
  case assignment left op right =>
    simp [renameOf?_eq hlegible.1, hparts.1, hopt hparts.2, Lexeme.Copied.reread hown]
  case unary op a =>
    have hargument : (print env (place.under span .inner) a).node.Legible env.source := by
      rw [node_print]
      exact hlegible.1
    simp [hparts.1, Lexeme.Copied.reread hown, unary?_eq hargument]
  case typeCast typeName isArray a => simp [hparts.1, Lexeme.Copied.reread hown]
  case paren items => simp [hall hparts]
  case multiExpression items => simp [hall hparts]
  case range first last => simp [hparts.1, hparts.2.1]
  case array elements => simp [hall hparts, array?_eq hmarked hown (legible_map_print hlegible)]
  case mapping pairs => simp [hall hparts]
  case mappingPair key values => simp [hparts.1, hall hparts.2]
  case structLiteral name items => simp [hall hparts, Lexeme.Copied.reread hown]
  case inlineClosure items => simp [hall hparts]
  case lambda args code => simp [hparts.1, hparts.2.1]
  case varDecl modifiers typeName declarators =>
    obtain ⟨hmodifiers, htype⟩ := List.forall_mem_append.1 hown
    simp [hall hparts, mapM_reread hmodifiers, mapM_option_self fun l hl => (htype l (by simpa using hl)).reread]
  case declarator name isArray byRef isSpread init isDefault =>
    cases name with
    | none => simp [hopt hparts.1, hopt hparts.2]
    | some name => simp [hopt hparts.1, hopt hparts.2, renameOf?_eq (hlegible.1 name (by simp))]
  case function modifiers typeName isArray name params body =>
    obtain ⟨hmodifiers, htype⟩ := List.forall_mem_append.1 hown
    simp [hparts.1, hall hparts.2.1, hopt hparts.2.2, mapM_reread hmodifiers,
      mapM_option_self fun l hl => (htype l (by simpa using hl)).reread]
  case structDef name members => simp [hparts.1, hall hparts.2, structDef?_eq hrange]
  case inherit modifiers a => simp [hparts.1, mapM_reread hown]
  case codeBlock openComment items =>
    simp [hall hparts, mapM_option_self fun c hc => (hown c hc).reread,
      codeBlock?_eq hrange.start (legible_map_print hlegible)]
  case ifElse test consequent alternate => simp [hparts.1, hparts.2.1, hopt hparts.2.2]
  case switch test cases => simp [hparts.1, hall hparts.2]
  case switchCase test body => simp [hopt hparts.1, hall hparts.2]
  case forLoop init test update body =>
    simp [hopt hparts.1.1.1, hopt hparts.1.1.2, hopt hparts.1.2, hparts.2.1]
  case foreachLoop vars iterable body =>
    have hgap : ∀ p ∈ (vars.map (print env (place.under span .inner))).getLast?, p.node.stop ≤ iterable.start := by
      intro p hp
      rw [List.getLast?_map] at hp
      obtain ⟨v, hv, rfl⟩ := Option.mem_map.1 hp
      rw [node_print]
      exact hown v hv
    have hiterable : (print env (place.under span .inner) iterable).node.Legible env.source := by
      rw [node_print]
      exact hlegible.2.1
    -- `in` or `:` is read from the gap behind the last variable
    simp only [hall hparts.1, hparts.2.1, hparts.2.2.1, Option.bind_some]
    exact foreachLoop?_eq (legible_map_print hlegible.1) hiterable (by simpa using hgap)
  case whileLoop test body => simp [hparts.1, hparts.2.1]
  case doWhile body test => simp [hparts.1, hparts.2.1]
  case returnValue a => simp [hopt hparts]

/-- **A node that can be read again is laid out the same with all its text read again.** -/
theorem reprint_eq (hmarked : env.Marked) {n : Node} (h : n.Legible env.source) (place : Place) :
    reprint env place n = some (print env place n) := by
  induction n using Node.partsInduction generalizing place with
  | mk span shape suffix ih =>
    have hparts : ∀ k ∈ shape.parts, ∀ place, reprint env place k = some (print env place k) :=
      fun k hk place => ih k hk (h.parts k hk) place
    rw [reprint, mapM_option_self fun c hc => (h.trail c hc).reread, relayout_eq hmarked h hparts]
    rfl

end Style

/-- a document is laid out the same if its nodes, and the comments before offsets of it, can be read again -/
theorem Document.reprint_eq {d : Document} {options : Options} (hmarked : Style.Env.Marked ⟨options, d.text, d.forest⟩)
    (hroots : AllLegible d.text d.roots) : d.reprint options = some (d.print options) := by
  have hall : Style.reprintAll ⟨options, d.text, d.forest⟩ .listed d.roots =
      some (d.roots.map (Style.print ⟨options, d.text, d.forest⟩ .listed)) :=
    Style.reprintAll_eq fun n hn => Style.reprint_eq hmarked (hroots n hn) .listed
  rw [reprint, Style.sourceFile?, print, Style.sourceFile, hall, Style.printAll_eq_map]
  split <;> rfl

end LpcStyle
