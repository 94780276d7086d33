import LpcStyle.Token.Kind

/-!
Sets of kinds as bits of two machine words: the kind with index `i` is bit `i % 64` of word `i / 64`.
-/

namespace LpcStyle

/-- a set of kinds -/
structure KindSet where
  low : UInt64
  high : UInt64
deriving DecidableEq, Repr

namespace KindSet

def empty : KindSet := ⟨0, 0⟩

/-- the bit of a kind inside its word -/
def bit (k : Kind) : UInt64 := 1 <<< UInt64.ofNat (k.ctorIdx % 64)

/-- the set that holds one kind -/
def single (k : Kind) : KindSet := if k.ctorIdx / 64 = 0 then ⟨bit k, 0⟩ else ⟨0, bit k⟩

def union (a b : KindSet) : KindSet := ⟨a.low ||| b.low, a.high ||| b.high⟩

/-- the set of the kinds of a list -/
def ofList (kinds : List Kind) : KindSet := kinds.foldl (fun s k => s.union (single k)) empty

def contains (s : KindSet) (k : Kind) : Bool :=
  (if k.ctorIdx / 64 = 0 then s.low else s.high) &&& bit k != 0

end KindSet

end LpcStyle
