import LpcStyle.Grammar.Directive
import LpcStyle.Grammar.Rules

/-!
Statement lists and comma-separated lists. A comment becomes the suffix of the element before it if it goes on on its
line, and an element of its own otherwise.
-/

namespace LpcStyle.Grammar

open Text LpcStyle.Parser

/-- adds a comment to a list whose newest element comes first -/
def placeComment (ownLine : Bool) (comment : Comment) : List Node → List Node
  | [] => [.ofComment comment]
  | last :: before =>
    if ownLine || last.hasSuffix || last.shape.isBlankLine then .ofComment comment :: last :: before
    else last.withSuffix comment :: before

/-- takes the comment under the cursor into a list whose newest element comes first -/
def listComment (items : List Node) : Parser (List Node) := do
  let ownLine := (← get).onOwnLine
  return placeComment ownLine (← takeComment) items

/-- adds an element and the comments parked in it -/
def addItem (items : List Node) (item : Node) : Parser (List Node) := do
  let (item, rest) ← adoptPending item
  return (rest.map Node.ofComment).reverse ++ item :: items

/-- adds a blank line, but not at the front and not after another -/
def addBlank (token : Token) : List Node → List Node
  | [] => []
  | last :: before =>
    if last.shape.isBlankLine then last :: before else leaf token .blankLine :: last :: before

/-- statements up to one of the closers or the end of the file, which is not taken -/
def statementList (rules : Rules) (scope : Scope) (closers : List Kind) : Parser (List Node) := do
  let items ← loop [] fun items => do
    let token ← raw
    match token.kind with
    | .lineComment | .blockComment => return .inl (← listComment items)
    | .blankLines =>
      let _ ← takeRaw
      return .inl (addBlank token items)
    | .semicolon =>
      let _ ← take
      return .inl items
    | .endOfFile => return .inr items
    | kind =>
      if closers.contains kind then return .inr items
      else return .inl (← addItem items (← rules.statement scope))
  return (items.dropWhile (·.shape.isBlankLine)).reverse

/-- elements with commas between them up to the closing token, which is taken; the opening one is taken already.
Preprocessor lines are elements without a comma -/
def delimited (close : Kind) (closeText : String) (item : Parser Node) : Parser (List Node × Token) := do
  let items ← loop ([] : List Node) fun items => do
    match (← raw).kind with
    | .lineComment | .blockComment => return .inl (← listComment items)
    | .blankLines =>
      let _ ← takeRaw
      return .inl items
    | kind =>
      if kind = close then return .inr items
      else if kind = .comma then unexpected
      else if kind = .directive then return .inl ((← directive) :: items)
      else
        let node ← item
        let separator ← peekKind
        let items ← addItem items node
        if separator = .comma then
          let _ ← take
          return .inl items
        else if separator = close then return .inr items
        else if separator = .directive then return .inl items
        else wanted (.separator closeText)
  let token ← expect close (.mark closeText)
  return (items.reverse, token)

end LpcStyle.Grammar
