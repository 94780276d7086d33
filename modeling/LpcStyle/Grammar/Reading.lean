import LpcStyle.Grammar.Failure
import LpcStyle.Token.Stream
import LpcStyle.Tree.Node

/-!
The state of reading and its basic steps. Looking at the next significant token parks the comments before it; they
are attached to the statement or list element around them once it is complete.
-/

namespace LpcStyle

open Text

structure Reading where
  source : List Char
  ahead : List Token
  eof : Token
  /-- blank lines that were passed over in search of an `else` and are to be seen again -/
  held : Option Token := none
  /-- parked comments, oldest first -/
  pending : List Comment := []

/-- where reading of a text starts -/
def Reading.ofText (text : List Char) : Reading :=
  { source := text, ahead := (Stream.ofText text).ahead, eof := (Stream.ofText text).eof }

/-- a step of reading: a result and the state after it, or the reason why there is none -/
abbrev Parser := StateT Reading (Except Failure)

def Comment.ofToken (t : Token) : Comment := ⟨if t.kind = .lineComment then .line else .block, t.span, t.text⟩

def Lexeme.ofToken (t : Token) : Lexeme := ⟨t.span, t.text⟩

/-- takes the first comment as suffix if there is none yet; the other comments are left over -/
def Node.adopt (n : Node) : List Comment → Node × List Comment
  | [] => (n, [])
  | c :: cs => if n.hasSuffix then (n, c :: cs) else (n.withSuffix c, cs)

namespace Reading

/-- the next token that is not held back -/
def front (r : Reading) : Token := r.ahead.headD r.eof

/-- the next token, comments and blank lines included -/
def raw (r : Reading) : Token := r.held.getD r.front

def dropRaw (r : Reading) : Reading :=
  match r.held with
  | some _ => { r with held := none }
  | none => { r with ahead := r.ahead.tail }

/-- tokens that are still to be read -/
def remaining (r : Reading) : Nat := r.ahead.length + r.held.toList.length

/-- parks comments and drops blank lines up to the next significant token -/
def settle (r : Reading) : Reading :=
  let trivia := r.ahead.takeWhile (·.kind.isTrivia)
  { r with
    held := none
    ahead := r.ahead.dropWhile (·.kind.isTrivia)
    pending := r.pending ++ (trivia.filter (·.kind.isComment)).map Comment.ofToken }

/-- the next token starts its line -/
def onOwnLine (r : Reading) : Bool := r.held.isSome || r.front.ownLine

end Reading

namespace Parser

def refuse {α : Type} (cause : Cause) (span : Span) : Parser α := throw (.refused ⟨cause, span⟩)

/-- the next token, comments and blank lines included; it is not taken -/
def raw : Parser Token := return (← get).raw

/-- takes the next token, comments and blank lines included -/
def takeRaw : Parser Token := modifyGet fun r => (r.raw, r.dropRaw)

/-- the next significant token; it is not taken -/
def peek : Parser Token := modifyGet fun r => (r.settle.raw, r.settle)

def peekKind : Parser Kind := return (← peek).kind

def at? (kind : Kind) : Parser Bool := return (← peek).kind = kind

def atText? (kind : Kind) (text : String) : Parser Bool := do
  let token ← peek
  return token.kind = kind && token.text == text.toList

/-- takes the next significant token, which must not be faulty -/
def take : Parser Token := do
  let token ← peek
  match token.fault with
  | some fault => refuse (.lexical fault) token.span
  | none => takeRaw

/-- takes the next significant token if it is of the kind -/
def eat? (kind : Kind) : Parser (Option Token) := do
  if ← at? kind then return some (← take) else return none

/-- refuses the next significant token -/
def unexpected {α : Type} : Parser α := do
  let token ← peek
  match token.fault with
  | some fault => refuse (.lexical fault) token.span
  | none =>
    if token.kind = .endOfFile then refuse .endOfFile token.span else refuse (.unexpected token.text) token.span

/-- refuses the next significant token, where something else was wanted -/
def wanted {α : Type} (wanted : Wanted) : Parser α := do
  let token ← peek
  match token.fault with
  | some fault => refuse (.lexical fault) token.span
  | none =>
    refuse (.expected wanted (if token.kind = .endOfFile then none else some token.text)) token.span

/-- takes the next significant token, which must be of the kind -/
def expect (kind : Kind) (what : Wanted) : Parser Token := do
  if ← at? kind then take else wanted what

/-- the span between two offsets -/
def spanning (start stop : Nat) : Parser Span :=
  if start ≤ stop then return ⟨start, stop⟩ else throw (.inverted start stop)

/-- a node between two offsets -/
def build (start stop : Nat) (shape : Shape Node) : Parser Node :=
  return .mk (← spanning start stop) shape none

/-- a node that is one token -/
def leaf (token : Token) (shape : Shape Node) : Node := .mk token.span shape none

/-- the source text of a span -/
def lexeme (span : Span) : Parser Lexeme := return ⟨span, slice (← get).source span⟩

def takeComment : Parser Comment := return .ofToken (← takeRaw)

def park (comment : Comment) : Parser Unit := modify fun r => { r with pending := r.pending ++ [comment] }

def takePending : Parser (List Comment) := modifyGet fun r => (r.pending, { r with pending := [] })

/-- attaches the parked comments: the first as suffix, if there is none, and the others are left over -/
def adoptPending (owner : Node) : Parser (Node × List Comment) := return owner.adopt (← takePending)

/-- takes a comment that goes on on the owner's last line as its suffix -/
def trailingComment (owner : Node) : Parser Node := do
  let r ← get
  if r.raw.kind.isComment && !r.onOwnLine && !owner.hasSuffix then return owner.withSuffix (← takeComment)
  else return owner

/-- holds back a blank line, so that it is seen again by the next raw look -/
def holdBlank : Parser Unit := modify fun r =>
  if r.held.isNone && r.front.kind = .blankLines then { r with held := some r.front, ahead := r.ahead.tail } else r

def dropHeld : Parser Unit := modify fun r => { r with held := none }

/-- at most `fuel` rounds of `step`, up to the one that gives a result -/
def iterate {σ α : Type} (step : σ → Parser (σ ⊕ α)) : Nat → σ → Parser α
  | 0, _ => throw .exhausted
  | fuel + 1, s => do
    match ← step s with
    | .inl s => iterate step fuel s
    | .inr result => return result

/-- rounds of `step` up to the one that gives a result. Every other round takes a token, so their number is bounded -/
def loop {σ α : Type} (init : σ) (step : σ → Parser (σ ⊕ α)) : Parser α := do
  iterate step ((← get).remaining + 1) init

end Parser

end LpcStyle
