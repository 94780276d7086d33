import LpcStyle.Style.Collection
import LpcStyle.Style.Statement
import LpcStyle.Layout.Render
import LpcStyle.Layout.Lines

/-!
The layout of a whole tree: every form gets its parts laid out, each at its place, and puts them together.
-/

namespace LpcStyle.Style

open Text

/-- the text of a node that is a name -/
def nameOf? : Node → Option (List Char)
  | .mk _ (.identifier text) _ => some text
  | _ => none

mutual

/-- lays out a node at a place -/
def print (env : Env) (place : Place) : Node → Printed
  | .mk span shape suffix => ⟨.mk span shape suffix, place.slot, layout env place span shape⟩

/-- lays out a form at a place -/
def layout (env : Env) (place : Place) (span : Span) : Shape Node → Doc
  | .literal _ text | .textBlock text | .identifier text
  | .closureSymbol text | .closureIndex text => Doc.word (trim text)
  | .blankLine => .nil
  | .comment kind text => comment kind text
  | .directive name key args => directive env.options.indentation name key args
  | .spread a => (print env (place.under span .inner) a).full ++ Doc.lit "..."
  | .call callee args =>
    call env (print env (place.under span .inner) callee).full (printAll env (place.under span .inner) args)
  | .member object property dot =>
    (print env (place.under span .inner) object).full ++ Doc.lit (if dot then "." else "->") ++
      (print env (place.under span .inner) property).full
  | .index object indexor =>
    index env (print env (place.under span .inner) object).full (print env (place.under span .inner) indexor).full
  | .indexor parts =>
    Doc.concat ((printAll env (place.under span .inner) parts).map Printed.full)
  | .indexMark mark => indexMark mark
  | .parentAccess scope member =>
    ((print? env (place.under span .inner) scope).map Printed.full).getD .nil ++ Doc.lit "::" ++
      (print env (place.under span .inner) member).full
  | .binary left op right implied =>
    binaryish false place.slot (print env (place.under span .binaryOperand) left)
      (print env (place.under span .binaryOperand) right)
      (if implied then .nil else Doc.lit " " ++ Doc.word op.text)
  | .logical left op right =>
    binaryish true place.slot (print env (place.under span .logicalOperand) left)
      (print env (place.under span .logicalOperand) right) (Doc.lit " " ++ Doc.word op.text)
  | .ternary test consequent alternate =>
    ternary env (print env (place.under span .inner) test).full (print env (place.under span .inner) consequent).full
      (print env (place.under span .inner) alternate).full
  | .assignment left op right =>
    assignment env (print env (place.under span .inner) left).full (Doc.word op.text)
      (print? env { place.under span .inner with target := nameOf? left } right)
  | .unary op a => unary env op.text (print env (place.under span .inner) a)
  | .typeCast typeName isArray a =>
    typeCast typeName.text isArray (print env (place.under span .inner) a).full
  | .paren items => paren env (printAll env (place.under span .parenItem) items)
  | .multiExpression items =>
    (commaList Doc.line (printAll env (place.under span .inner) items)).grouped
  | .range first last =>
    range (print env (place.under span .inner) first).full (print env (place.under span .inner) last).full
  | .array elements => array env place span (printAll env (place.under span .inner) elements)
  | .mapping pairs => mapping env (printAll env (place.under span .inner) pairs)
  | .mappingPair key values =>
    mappingPair env (print env (place.under span .inner) key).full (printAll env (place.under span .inner) values)
  | .structLiteral name items =>
    structLiteral env name.text (printAll env (place.under span .inner) items)
  | .inlineClosure items =>
    inlineClosure env
      (printAll env (place.under span (if 1 < items.length then .statement else .inner)) items)
  | .lambda args code =>
    lambda env (print env (place.under span .inner) args).full (print env (place.under span .inner) code).full
  | .varDecl modifiers typeName declarators =>
    varDecl modifiers typeName (printAll env (place.under span .inner) declarators)
  | .declarator name isArray byRef isSpread init isDefault =>
    declarator env (print? env (place.under span .inner) name) isArray byRef isSpread
      (print? env { place.under span .inner with target := name.bind nameOf? } init) isDefault
  | .function modifiers typeName isArray name params body =>
    function env modifiers typeName isArray (print env (place.under span .inner) name).full
      (printAll env (place.under span .inner) params) (print? env (place.under span .inner) body)
  | .structDef name members =>
    structDef env span (print env (place.under span .inner) name).full
      (printAll env (place.under span .statement) members)
  | .inherit modifiers a => inherit modifiers (print env (place.under span .inner) a).full
  | .codeBlock openComment items =>
    codeBlock env place.slot span openComment (printAll env .listed items)
  | .ifElse test consequent alternate =>
    ifElse env (print env (place.under span .inner) test).full (print env (place.under span .ifBranch) consequent)
      (print? env (place.under span .ifBranch) alternate)
  | .switch test cases =>
    switch env (print env (place.under span .inner) test).full (printAll env (place.under span .inner) cases)
  | .switchCase test body =>
    switchCase env (print? env { slot := .inner } test) (printAll env .listed body)
  | .forLoop init test update body =>
    forLoop env (print? env (place.under span .inner) init) (print? env (place.under span .inner) test)
      (print? env (place.under span .inner) update) (print env (place.under span .statement) body)
  | .foreachLoop vars iterable body =>
    foreachLoop env (printAll env (place.under span .inner) vars) (print env (place.under span .inner) iterable)
      (print env (place.under span .statement) body)
  | .whileLoop test body =>
    whileLoop env (print env (place.under span .inner) test).full (print env (place.under span .statement) body)
  | .doWhile body test =>
    doWhile env (print env (place.under span .statement) body) (print env (place.under span .inner) test).full
  | .returnValue a => returnValue env (print? env (place.under span .inner) a)
  | .jump kind => jump kind

def printAll (env : Env) (place : Place) : List Node → List Printed
  | [] => []
  | n :: ns => print env place n :: printAll env place ns

def print? (env : Env) (place : Place) : Option Node → Option Printed
  | none => none
  | some n => some (print env place n)

end

@[simp] theorem printAll_eq_map (env : Env) (place : Place) (ns : List Node) :
    printAll env place ns = ns.map (print env place) := by
  induction ns with
  | nil => rfl
  | cons n ns ih => simp [printAll, ih]

@[simp] theorem print?_eq_map (env : Env) (place : Place) (n : Option Node) :
    print? env place n = n.map (print env place) := by
  cases n <;> rfl

/-- the layout of a document: its statements and a line end -/
def sourceFile (env : Env) (roots : List Node) : Doc :=
  if roots.isEmpty then .nil else statements (printAll env .listed roots) ++ Doc.hardline

end LpcStyle.Style

namespace LpcStyle

/-- the document in the layout that the options ask for -/
def Document.print (d : Document) (options : Options) : List Char :=
  let doc := Style.sourceFile ⟨options, d.text, d.forest⟩ d.roots
  Layout.finish options.useTabs options.tabWidth (doc.render options.printWidth)

end LpcStyle
