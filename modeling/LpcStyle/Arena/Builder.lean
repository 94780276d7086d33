import LpcStyle.Arena.Cell
import LpcStyle.Grammar.Rules

/-!
The state of reading into a store and its basic steps. A step that takes tokens only is one of reading; the comments
that it parks get cells at once, in the order of the text.
-/

namespace LpcStyle.Arena

open Text LpcStyle.Parser
open Store (Key)

structure State where
  /-- what is still to be read. Its comments are parked below -/
  reading : Reading
  cells : Store Cell := {}
  /-- parked comments, oldest first -/
  parked : List Key := []

/-- where reading of a text starts -/
def State.ofText (text : List Char) : State := { reading := .ofText text }

def State.alloc (s : State) (cell : Cell) : Key × State :=
  let (key, cells) := s.cells.alloc cell
  (key, { s with cells })

/-- a new cell for a comment, which is parked -/
def State.parkNew (s : State) (comment : Comment) : State :=
  let (key, s) := s.alloc (.ofComment comment)
  { s with parked := s.parked ++ [key] }

/-- how reading into a store can end without a result -/
inductive Halt where
  | reading (failure : Failure)
  /-- a key is followed that the store did not give -/
  | dangling

/-- a step of reading into the store: a result and the state after it, or the reason why there is none -/
abbrev Builder := StateT State (Except Halt)

namespace Builder

/-- a step that takes tokens only. The comments that it parks get cells -/
def reading {α : Type} (p : Parser α) : Builder α := fun s =>
  match p.run s.reading with
  | .ok (x, r) => .ok (x, r.pending.foldl .parkNew { s with reading := { r with pending := [] } })
  | .error failure => .error (.reading failure)

/-- the cell of a key -/
def cell (key : Key) : Builder Cell := do
  match (← get).cells.get? key with
  | some cell => return cell
  | none => throw .dangling

def startOf (key : Key) : Builder Nat := return (← cell key).span.start

def stopOf (key : Key) : Builder Nat := return (← cell key).span.stop

def alloc (cell : Cell) : Builder Key := modifyGet (·.alloc cell)

/-- a cell between two offsets -/
def build (start stop : Nat) (shape : Shape Key) : Builder Key := do
  let span ← reading (spanning start stop)
  alloc { span, shape }

/-- a cell that is one token -/
def leaf (token : Token) (shape : Shape Key) : Builder Key := alloc { span := token.span, shape }

/-- changes the cell of a key -/
def update (key : Key) (change : Cell → Cell) : Builder Unit := do
  let s ← get
  match s.cells.update? key change with
  | some cells => set { s with cells }
  | none => throw .dangling

/-- puts another form into a cell, which keeps its suffix -/
def replace (key : Key) (shape : Shape Key) (span : Span) : Builder Unit := update key fun c => { c with shape, span }

def setSuffix (owner comment : Key) : Builder Unit := update owner fun c => { c with suffix := some comment }

/-- takes a comment into a cell of its own -/
def takeComment : Builder Key := do
  let comment ← reading Parser.takeComment
  alloc (.ofComment comment)

def park (comment : Key) : Builder Unit := modify fun s => { s with parked := s.parked ++ [comment] }

def takeParked : Builder (List Key) := modifyGet fun s => (s.parked, { s with parked := [] })

/-- takes the first comment as suffix if there is none yet; the other comments are left over -/
def adopt (owner : Key) : List Key → Builder (List Key)
  | [] => return []
  | comment :: rest => do
    if (← cell owner).suffix.isSome then return comment :: rest
    else
      setSuffix owner comment
      return rest

/-- attaches the parked comments: the first as suffix, if there is none, and the others are left over -/
def adoptParked (owner : Key) : Builder (List Key) := do adopt owner (← takeParked)

/-- takes a comment that goes on on the owner's last line as its suffix -/
def trailingComment (owner : Key) : Builder Unit := do
  let r := (← get).reading
  let c ← cell owner
  if r.raw.kind.isComment && !r.onOwnLine && !c.suffix.isSome then setSuffix owner (← takeComment)

/-- at most `fuel` rounds of `step`, up to the one that gives a result -/
def iterate {σ α : Type} (step : σ → Builder (σ ⊕ α)) : Nat → σ → Builder α
  | 0, _ => throw (.reading .exhausted)
  | fuel + 1, s => do
    match ← step s with
    | .inl s => iterate step fuel s
    | .inr result => return result

/-- rounds of `step` up to the one that gives a result. Every other round takes a token, so their number is bounded -/
def loop {σ α : Type} (init : σ) (step : σ → Builder (σ ⊕ α)) : Builder α := do
  iterate step ((← get).reading.remaining + 1) init

end Builder

/-- the rules of the grammar that refer back to themselves -/
structure Rules where
  expression : Builder Key
  operand : Builder Key
  climb : Key → Nat → Builder Key
  argument : Builder Key
  statement : Scope → Builder Key

/-- the rules that refuse to be called -/
def Rules.exhausted : Rules where
  expression := throw (.reading .exhausted)
  operand := throw (.reading .exhausted)
  climb _ _ := throw (.reading .exhausted)
  argument := throw (.reading .exhausted)
  statement _ := throw (.reading .exhausted)

end LpcStyle.Arena
