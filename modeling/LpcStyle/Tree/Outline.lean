import LpcStyle.Text.Blank
import LpcStyle.Text.Quoted
import LpcStyle.Tree.Listing

/-!
The outline of a tree: one line for each node, indented by its depth, with what the form holds besides its parts.
-/

namespace LpcStyle

open Text

namespace LiteralKind

def name : LiteralKind → String
  | .string => "String"
  | .char => "Char"
  | .number => "Number"
  | .symbol => "Symbol"
  | .placeholder => "Placeholder"

end LiteralKind

def CommentKind.name : CommentKind → String
  | .line => "Line"
  | .block => "Block"

def IndexMark.name : IndexMark → String
  | .fromEnd => "FromEnd"
  | .range => "Range"
  | .comma => "Comma"

def Jump.name : Jump → String
  | .breakOff => "Break"
  | .goOn => "Continue"

namespace Shape

variable {α : Type}

/-- modifiers and type with one space between them, quoted -/
def heading (modifiers : List Lexeme) (typeName : Option Lexeme) (tail : List Char) : List Char :=
  let words := join [' '] (modifiers.map (·.text))
  let words := match typeName with
    | none => words
    | some ty => if words.isEmpty then ty.text else words ++ ' ' :: ty.text
  ' ' :: quoted (words ++ tail)

/-- what a form holds besides its parts -/
def details : Shape α → List Char
  | .literal kind text => ' ' :: kind.name.toList ++ ' ' :: quoted text
  | .textBlock text | .identifier text | .closureSymbol text | .closureIndex text => ' ' :: quoted text
  | .comment kind text => ' ' :: kind.name.toList ++ ' ' :: quoted text
  | .indexMark mark => ' ' :: mark.name.toList
  | .jump kind => ' ' :: kind.name.toList
  | .binary _ op _ implied => (if implied then " implied ".toList else [' ']) ++ quoted op.text
  | .logical _ op _ | .assignment _ op _ | .unary op _ => ' ' :: quoted op.text
  | .typeCast ty isArray _ => ' ' :: quoted ty.text ++ if isArray then " array".toList else []
  | .varDecl modifiers ty _ => heading modifiers ty []
  | .declarator _ isArray byRef isSpread _ isDefault =>
    (if isArray then " array".toList else []) ++ (if byRef then " ref".toList else []) ++
      (if isSpread then " spread".toList else []) ++ if isDefault then " default".toList else []
  | .function modifiers ty isArray _ _ body =>
    heading modifiers ty (if isArray then ['*'] else []) ++ if body.isSome then [] else " prototype".toList
  | .inherit modifiers _ => if modifiers.isEmpty then [] else heading modifiers none []
  | .structLiteral name _ => ' ' :: quoted name.text
  | .directive name key args =>
    ' ' :: quoted name.text ++ (match key with
      | some key => " key=".toList ++ quoted key.text
      | none => []) ++ args.flatMap fun arg => ' ' :: quoted arg.text
  | .switchCase none _ => " default".toList
  | _ => []

end Shape

/-- one line of the outline -/
def Label.line (depth : Nat) (role : List Char) (l : Label) : List Char :=
  List.replicate (2 * depth) ' ' ++ role ++ l.title ++ l.shape.details

mutual

def Branch.outline (depth : Nat) : Branch → List (List Char)
  | .mk label kids suffix =>
    label.line depth [] :: Branch.outlines (depth + 1) kids ++
      suffix.toList.map fun c => (Branch.ofComment c).label.line (depth + 1) "suffix ".toList

def Branch.outlines (depth : Nat) : List Branch → List (List Char)
  | [] => []
  | b :: bs => b.outline depth ++ Branch.outlines depth bs

end

theorem Branch.outlines_eq_flatMap (depth : Nat) (bs : List Branch) :
    Branch.outlines depth bs = bs.flatMap (Branch.outline depth) := by
  induction bs with
  | nil => rfl
  | cons b bs ih => simp [Branch.outlines, ih]

/-- the outline of a document, line by line -/
def Document.outline (d : Document) : List (List Char) := Branch.outlines 0 d.forest

end LpcStyle
