import LpcStyle.Config.Toml
import LpcStyle.Text.Blank

/-!
Settings on the command line, and the options that they and the configuration file give together. Flags win over the
file.
-/

namespace LpcStyle.Config

open Text

/-- flags of the command line -/
inductive Flag where
  | config | printWidth | tabWidth | useTabs | write
deriving DecidableEq, Repr

namespace Flag

def all : List Flag := [.config, .printWidth, .tabWidth, .useTabs, .write]

def spelling : Flag → String
  | .config => "--config"
  | .printWidth => "--print-width"
  | .tabWidth => "--tab-width"
  | .useTabs => "--use-tabs"
  | .write => "--write"

def takesValue : Flag → Bool
  | .useTabs | .write => false
  | _ => true

def ofSpelling? (text : List Char) : Option Flag := all.find? (·.spelling.toList == text)

end Flag

/-- what the command line gives: flags with their values, and the other arguments -/
structure Arguments where
  flags : List (Flag × List Char) := []
  paths : List (List Char) := []
deriving DecidableEq, Repr

namespace Arguments

def value? (a : Arguments) (flag : Flag) : Option (List Char) := (a.flags.find? (·.1 == flag)).map (·.2)

def has (a : Arguments) (flag : Flag) : Bool := (a.value? flag).isSome

/-- adds a flag, which must not be there yet -/
def addFlag? (a : Arguments) (flag : Flag) (value : List Char) : Option Arguments :=
  if a.has flag then none else some { a with flags := a.flags ++ [(flag, value)] }

def addPaths (a : Arguments) (paths : List (List Char)) : Arguments := { a with paths := a.paths ++ paths }

/-- an argument that starts with a hyphen and is not one alone -/
def isDashed (arg : List Char) : Bool := startsWith ['-'] arg && arg != ['-']

/-- the flag and the value of `--flag=value` -/
def splitFlag (arg : List Char) : List Char × Option (List Char) :=
  let name := arg.takeWhile (· != '=')
  (name, if name.length < arg.length then some (arg.drop (name.length + 1)) else none)

/-- reads arguments. A value stands after its flag or after an equals sign; after `--` all are paths. There is no result
for an unknown or repeated flag, a missing value or a value too many. `waiting` is the flag whose value comes next -/
def read? (allowed : List Flag) (waiting : Option Flag) (a : Arguments) : List (List Char) → Option Arguments
  | [] => if waiting.isSome then none else some a
  | arg :: rest =>
    match waiting with
    | some flag => if isDashed arg then none else (a.addFlag? flag arg).bind (read? allowed none · rest)
    | none =>
      if arg == "--".toList then some (a.addPaths rest)
      else if !isDashed arg then read? allowed none (a.addPaths [arg]) rest
      else
        match Flag.ofSpelling? (splitFlag arg).1, (splitFlag arg).2 with
        | none, _ => none
        | some flag, attached =>
          if !allowed.contains flag then none
          else
            match flag.takesValue, attached with
            | true, some value => (a.addFlag? flag value).bind (read? allowed none · rest)
            | true, none => read? allowed (some flag) a rest
            | false, some _ => none
            | false, none => (a.addFlag? flag []).bind (read? allowed none · rest)

end Arguments

/-- an unsigned 64-bit number: digits, with a plus sign if wanted -/
def size? (text : List Char) : Option Nat :=
  let digits := (dropFront? ['+'] text).getD text
  let n := Toml.numeral 10 digits
  if !digits.isEmpty && digits.all Char.isDigit && n < UInt64.size then some n else none

/-- settings of the command line -/
structure Overrides where
  config : Option (List Char) := none
  printWidth : Option Nat := none
  tabWidth : Option Nat := none
  useTabs : Bool := false
deriving DecidableEq, Repr

namespace Overrides

/-- the flags that change settings -/
def flags : List Flag := [.config, .printWidth, .tabWidth, .useTabs]

/-- reads the values of the flags -/
def ofArguments? (a : Arguments) : Option Overrides := do
  let number? (flag : Flag) : Option (Option Nat) :=
    match a.value? flag with
    | none => some none
    | some text => (size? text).map some
  return { config := a.value? .config
           printWidth := ← number? .printWidth
           tabWidth := ← number? .tabWidth
           useTabs := a.has .useTabs }

/-- settings given alone, without a path -/
def parse? (args : List (List Char)) : Option Overrides := do
  let arguments ← Arguments.read? flags none {} args
  guard arguments.paths.isEmpty
  ofArguments? arguments

/-- the options with the settings of the command line -/
def apply (f : Overrides) (o : Options) : Options :=
  { o with
    printWidth := f.printWidth.getD o.printWidth
    tabWidth := f.tabWidth.getD o.tabWidth
    useTabs := f.useTabs || o.useTabs }

end Overrides

/-- the configuration file that is read if the command line names none -/
def defaultFile : String := "lpcfmt.toml"

/-- why the options cannot be told -/
inductive LoadError where
  | unreadable (path : List Char)
  | malformed (path : List Char)
deriving DecidableEq, Repr

def LoadError.message : LoadError → List Char
  | .unreadable path => "failed to read `".toList ++ path ++ ['\x60']
  | .malformed path => "failed to parse `".toList ++ path ++ ['\x60']

/-- the options of a configuration file -/
def ofFile (path : List Char) : Option (List Char) → Except LoadError Options
  | none => .error (.unreadable path)
  | some text =>
    match (Toml.parse? text).bind options? with
    | some o => .ok o
    | none => .error (.malformed path)

/-- the options of the configuration file and the command line. `isFile` tells whether a path leads to a file, and `read?`
gives its text. The default file may be missing -/
def Overrides.load (f : Overrides) (isFile : List Char → Bool) (read? : List Char → Option (List Char)) :
    Except LoadError Options := do
  let base ← match f.config with
    | some path => ofFile path (read? path)
    | none =>
      if isFile defaultFile.toList then ofFile defaultFile.toList (read? defaultFile.toList) else .ok {}
  return f.apply base

end LpcStyle.Config
