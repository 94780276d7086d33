import LpcStyle.Token.Lexer

/-!
The tokens of a text, in order. After the last one the end-of-file token comes again and again. Where a call of the
lexer breaks off there is no end of the file: a mark stands in its place, and whoever comes to it breaks off too.
-/

namespace LpcStyle

/-- the tokens that are still to be read, and the token that marks the end -/
structure Stream where
  ahead : List Token
  eof : Token
deriving DecidableEq, Repr

namespace Stream

/-- reads at most `fuel` tokens -/
def read : Nat → Lexer → Stream
  | 0, s => ⟨[], s.issue.1⟩
  | fuel + 1, s =>
    let (token, next) := s.issue
    if token.kind = .endOfFile then ⟨[], token⟩
    else
      let later := read fuel next
      { later with ahead := token :: later.ahead }

/-- the tokens of a text. Every token takes a character or leaves a mode for good, so twice as many as there are
characters suffice -/
@[irreducible] def ofText (text : List Char) : Stream := read (2 * text.length + 1) { rest := text }

/-- a call of the lexer breaks off behind the tokens that are ahead -/
def Stalled (s : Stream) : Prop := s.eof.fault = some .stalled

instance (s : Stream) : Decidable s.Stalled := inferInstanceAs (Decidable (_ = _))

/-- the next token; it is not taken -/
def peek (s : Stream) : Token := s.ahead.headD s.eof

/-- takes the next token. The lexer is called for the one behind it at once, so nothing is taken where that breaks off -/
def next? (s : Stream) : Option (Token × Stream) :=
  if s.ahead.tail = [] ∧ s.Stalled then none else some (s.peek, { s with ahead := s.ahead.tail })

/-- all tokens, and what stands behind them: the end of the file, or the mark of a call that breaks off -/
def closed (s : Stream) : List Token := s.ahead ++ [s.eof]

/-- all tokens up to and with the end of file, or up to where a call breaks off -/
def toList (s : Stream) : List Token := if s.Stalled then s.ahead else s.closed

theorem toList_of_not_stalled {s : Stream} (h : ¬s.Stalled) : s.toList = s.closed := if_neg h

theorem toList_subset_closed (s : Stream) : s.toList ⊆ s.closed := by
  unfold toList
  split
  · exact List.subset_append_left _ _
  · exact List.Subset.refl _

theorem forall_mem_closed {s : Stream} {P : Token → Prop} (hlist : ∀ t ∈ s.toList, P t) (heof : P s.eof) :
    ∀ t ∈ s.closed, P t := by
  unfold toList at hlist
  split at hlist
  · exact List.forall_mem_append.2 ⟨hlist, List.forall_mem_singleton.2 heof⟩
  · exact hlist

theorem ahead_subset_toList (s : Stream) : s.ahead ⊆ s.toList := by
  unfold toList
  split
  · exact List.Subset.refl _
  · exact List.subset_append_left _ _

end Stream

end LpcStyle
