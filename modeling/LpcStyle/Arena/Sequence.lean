import LpcStyle.Arena.Builder
import LpcStyle.Grammar.Directive

/-!
Statement lists and comma-separated lists in the store.
-/

namespace LpcStyle.Arena

open Text LpcStyle.Parser Builder
open Store (Key)

/-- adds a comment to a list whose newest element comes first -/
def placeComment (ownLine : Bool) (comment : Key) : List Key → Builder (List Key)
  | [] => return [comment]
  | last :: before => do
    let c ← cell last
    if ownLine || c.suffix.isSome || c.shape.isBlankLine then return comment :: last :: before
    else
      setSuffix last comment
      return last :: before

/-- takes the comment under the cursor into a list whose newest element comes first -/
def listComment (items : List Key) : Builder (List Key) := do
  let ownLine := (← get).reading.onOwnLine
  placeComment ownLine (← takeComment) items

/-- adds an element and the comments parked in it -/
def addItem (items : List Key) (item : Key) : Builder (List Key) := do
  let rest ← adoptParked item
  return rest.reverse ++ item :: items

/-- adds a blank line, but not at the front and not after another -/
def addBlank (token : Token) : List Key → Builder (List Key)
  | [] => return []
  | last :: before => do
    if (← cell last).shape.isBlankLine then return last :: before
    else return (← leaf token .blankLine) :: last :: before

/-- leaves the blank lines at the front of a list. Their cells stay in the store -/
def dropBlanks : List Key → Builder (List Key)
  | [] => return []
  | last :: before => do
    if (← cell last).shape.isBlankLine then dropBlanks before else return last :: before

def statementRound (rules : Rules) (scope : Scope) (closers : List Kind) (items : List Key) :
    Builder (List Key ⊕ List Key) := do
  let token ← reading raw
  match token.kind with
  | .lineComment | .blockComment => return .inl (← listComment items)
  | .blankLines =>
    let _ ← reading takeRaw
    return .inl (← addBlank token items)
  | .semicolon =>
    let _ ← reading take
    return .inl items
  | .endOfFile => return .inr items
  | kind =>
    if closers.contains kind then return .inr items
    else return .inl (← addItem items (← rules.statement scope))

/-- statements up to one of the closers or the end of the file, which is not taken -/
def statementList (rules : Rules) (scope : Scope) (closers : List Kind) : Builder (List Key) := do
  let items ← loop [] (statementRound rules scope closers)
  return (← dropBlanks items).reverse

/-- a preprocessor line, from its `#` on -/
def directive : Builder Key := do
  let hash ← reading take
  let word := trimStart (hash.text.dropWhile (· == '#'))
  let name : Lexeme := ⟨⟨hash.span.stop - byteLength word, hash.span.stop⟩, word⟩
  let key ← if (← reading raw).kind = .directiveKey then some <$> reading takeRaw else pure none
  let lines ← reading (Grammar.directiveLines ⟨[], none, (key.map (·.span.stop)).getD hash.span.stop⟩)
  let args ← reading (lines.done.reverse.mapM lexeme)
  build hash.span.start lines.stop (.directive name (key.map Lexeme.ofToken) args)

def delimitedRound (close : Kind) (closeText : String) (item : Builder Key) (items : List Key) :
    Builder (List Key ⊕ List Key) := do
  match (← reading raw).kind with
  | .lineComment | .blockComment => return .inl (← listComment items)
  | .blankLines =>
    let _ ← reading takeRaw
    return .inl items
  | kind =>
    if kind = close then return .inr items
    else if kind = .comma then reading unexpected
    else if kind = .directive then return .inl ((← directive) :: items)
    else
      let node ← item
      let separator ← reading peekKind
      let items ← addItem items node
      if separator = .comma then
        let _ ← reading take
        return .inl items
      else if separator = close then return .inr items
      else if separator = .directive then return .inl items
      else reading (wanted (.separator closeText))

/-- elements with commas between them up to the closing token, which is taken; the opening one is taken already.
Preprocessor lines are elements without a comma -/
def delimited (close : Kind) (closeText : String) (item : Builder Key) : Builder (List Key × Token) := do
  let items ← loop [] (delimitedRound close closeText item)
  let token ← reading (expect close (.mark closeText))
  return (items.reverse, token)

end LpcStyle.Arena
