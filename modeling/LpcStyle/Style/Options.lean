/-!
Settings of the layout.
-/

namespace LpcStyle

structure Options where
  printWidth : Nat := 80
  tabWidth : Nat := 2
  useTabs : Bool := false
  /-- a comma after the last element of an array or mapping that goes over lines -/
  trailingComma : Bool := false
  /-- further names of arrays that are laid out in pairs -/
  pairVariables : List (List Char) := []
  condenseSingleStatementBlocks : Bool := true
deriving DecidableEq, Repr

namespace Options

/-- arrays of these names are laid out in pairs in any case -/
def builtinPairVariables : List String := ["dest_dir", "items"]

def isPairVariable (o : Options) (name : List Char) : Bool :=
  builtinPairVariables.any (·.toList == name) || o.pairVariables.contains name

/-- one step of indentation, as a signed 64-bit number -/
def indentation (o : Options) : Int := Int.bmod o.tabWidth UInt64.size

end Options

end LpcStyle
