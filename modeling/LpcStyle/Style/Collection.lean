import LpcStyle.Style.Place

/-!
Layout of arrays, mappings and struct literals, from their laid-out elements.
-/

namespace LpcStyle.Style

open Text

/-- a comment with this text asks for an array in pairs -/
def pairMarker : String := "@prettier-pair"

/-- the next element starts a line of its own -/
def breaksAfter (p : Printed) : Bool := p.shape.isComment || p.hasSuffix || p.shape.isDirective

/-- further elements after a first one: each moves to a new line by itself if it does not fit after the one before -/
def fillRest (done : Doc) (before : Printed) : List Printed → Doc
  | [] => done
  | p :: ps =>
    let item := listItem (ps.any (!·.shape.standsAlone)) p
    let done :=
      if breaksAfter before || p.shape.isDirective then done ++ Doc.hardline ++ item
      else done ++ (Doc.line ++ item).grouped
    fillRest done p ps

/-- as many elements on a line as fit -/
def fill : List Printed → Doc
  | [] => .nil
  | p :: ps => fillRest (listItem (ps.any (!·.shape.standsAlone)) p) p ps

/-- two elements on each line, every one with a comma -/
def pairLines (env : Env) : List Printed → List Doc
  | key :: value :: rest =>
    ((key.bare ++ Doc.lit "," ++ key.suffix ++ env.indent (Doc.line ++ value.bare) ++ Doc.lit ",").grouped ++
      value.suffix) :: pairLines env rest
  | _ => []

def trailingComma (env : Env) (items : List Printed) : Doc :=
  if env.options.trailingComma && items.getLast?.any (!·.shape.standsAlone) then
    Doc.flatAlt (Doc.lit ",") .nil
  else .nil

/-- the statement that starts at the offset follows a comment that asks for pairs -/
def followsPairMarker (env : Env) (start : Nat) : Bool :=
  match nodeBefore? env.forest start with
  | some ⟨_, .comment _ text⟩ => contains pairMarker.toList text
  | _ => false

/-- an array of even length is laid out in pairs if its variable or a comment before its statement asks for it -/
def printsAsPairs (env : Env) (place : Place) (span : Span) (elements : List Printed) : Bool :=
  elements.length % 2 == 0 && elements.all (!·.shape.standsAlone) &&
    (place.target.any env.options.isPairVariable || followsPairMarker env (place.anchor.getD span.start))

/-- a line end after the opening bracket in the source keeps the array on several lines -/
def array (env : Env) (place : Place) (span : Span) : List Printed → Doc
  | [] => Doc.lit "(\x7b\x7d)"
  | first :: rest =>
    let elements := first :: rest
    let stay := if env.hasNewline (span.start + 2) first.node.start then Doc.breakParent else .nil
    let body :=
      if printsAsPairs env place span elements then stay ++ Doc.join Doc.hardline (pairLines env elements)
      else stay ++ fill elements ++ trailingComma env elements
    env.bracketed "(\x7b" body "\x7d)"

def mapping (env : Env) (pairs : List Printed) : Doc :=
  if pairs.isEmpty then Doc.lit "([])"
  else env.bracketed "([" (commaList Doc.line pairs ++ trailingComma env pairs) "])"

/-- `key: value; value`, or a key alone -/
def mappingPair (env : Env) (key : Doc) (values : List Printed) : Doc :=
  if values.isEmpty then key
  else
    let values := Doc.join (Doc.lit ";" ++ Doc.line) (values.map Printed.full)
    (key ++ Doc.lit ":" ++ (env.indent (Doc.line ++ values)).grouped).grouped

def structLiteral (env : Env) (name : List Char) (items : List Printed) : Doc :=
  let front := Doc.lit "(" ++ Doc.word name
  if items.isEmpty then front ++ Doc.lit ")"
  else (front ++ Doc.lit " " ++ env.indent (commaList Doc.line items) ++ Doc.lit ")").grouped

end LpcStyle.Style
