import LpcStyle.Style.Options

/-!
Configuration values and the settings they stand for. Keys that are missing leave the setting as it is, unknown keys
are ignored, and a value of the wrong type makes the whole configuration invalid.
-/

namespace LpcStyle.Config

inductive Value where
  | bool (value : Bool)
  | int (value : Int)
  | string (value : List Char)
  | array (items : List Value)
  | table (entries : List (List Char × Value))
  /-- a value that no setting takes: null, a float, a date -/
  | other
deriving Inhabited

namespace Value

/-- an unsigned 64-bit number -/
def toSize? : Value → Option Nat
  | .int n => if 0 ≤ n && n.toNat < UInt64.size then some n.toNat else none
  | _ => none

def toBool? : Value → Option Bool
  | .bool b => some b
  | _ => none

def toString? : Value → Option (List Char)
  | .string s => some s
  | _ => none

def toStrings? : Value → Option (List (List Char))
  | .array items => items.mapM toString?
  | _ => none

end Value

/-- the settings, in the order in which a plain list of values gives them -/
inductive Setting where
  | printWidth | tabWidth | useTabs | trailingComma | pairVariables | condenseSingleStatementBlocks
deriving DecidableEq, Repr

namespace Setting

def all : List Setting :=
  [.printWidth, .tabWidth, .useTabs, .trailingComma, .pairVariables, .condenseSingleStatementBlocks]

def key : Setting → String
  | .printWidth => "printWidth"
  | .tabWidth => "tabWidth"
  | .useTabs => "useTabs"
  | .trailingComma => "trailingComma"
  | .pairVariables => "pairVariables"
  | .condenseSingleStatementBlocks => "condenseSingleStatementBlocks"

def ofKey? (key : List Char) : Option Setting := all.find? (·.key.toList == key)

/-- the options with a setting changed -/
def apply (o : Options) (setting : Setting) (v : Value) : Option Options :=
  match setting with
  | .printWidth => v.toSize?.map fun n => { o with printWidth := n }
  | .tabWidth => v.toSize?.map fun n => { o with tabWidth := n }
  | .useTabs => v.toBool?.map fun b => { o with useTabs := b }
  | .trailingComma => v.toBool?.map fun b => { o with trailingComma := b }
  | .pairVariables => v.toStrings?.map fun names => { o with pairVariables := names }
  | .condenseSingleStatementBlocks =>
    v.toBool?.map fun b => { o with condenseSingleStatementBlocks := b }

end Setting

/-- the options with the entry of a configuration applied -/
def applyEntry (o : Options) (entry : List Char × Value) : Option Options :=
  match Setting.ofKey? entry.1 with
  | some setting => setting.apply o entry.2
  | none => some o

/-- the options of a configuration: a table of settings, or a list of their values in order -/
def options? : Value → Option Options
  | .table entries => entries.foldlM applyEntry {}
  | .array items =>
    if items.length ≤ Setting.all.length then
      (Setting.all.zip items).foldlM (fun o (setting, v) => setting.apply o v) {}
    else none
  | _ => none

end LpcStyle.Config
