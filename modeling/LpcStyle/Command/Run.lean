import LpcStyle.Command.Files
import LpcStyle.Config.Flags
import LpcStyle.Format
import LpcStyle.Report

/-!
The command line: printing files in their layout, changing them in place, and checking that they are in it. A file that
cannot be parsed is reported and the next one is taken; a file that cannot be read ends the run, and so does a text over
which the lexer or the parser breaks off.
-/

namespace LpcStyle.Command

open Text Config

inductive Action where
  /-- prints the files, or changes them in place if `write` -/
  | format (write : Bool)
  | check
deriving DecidableEq, Repr

structure Request where
  action : Action
  paths : List (List Char)
  overrides : Overrides
deriving DecidableEq, Repr

/-- the request that arguments make; none for a wrong usage -/
def Request.parse? (args : List (List Char)) : Option Request :=
  let read (flags : List Flag) (action : Arguments → Action) (args : List (List Char)) : Option Request := do
    let arguments ← Arguments.read? (flags ++ Overrides.flags) none {} args
    guard !arguments.paths.isEmpty
    return ⟨action arguments, arguments.paths, ← Overrides.ofArguments? arguments⟩
  match args with
  | [] => none
  | command :: rest =>
    if command == "format".toList then read [.write] (fun a => .format (a.has .write)) rest
    else if command == "check".toList then read [] (fun _ => .check) rest
    else none

/-- what is done about one file -/
structure Effect where
  stdout : List Char := []
  stderr : List Char := []
  /-- the new text of the file -/
  write : Option (List Char) := none
  ok : Bool := true
deriving DecidableEq, Repr

def line (text : List Char) : List Char := text ++ ['\n']

/-- the report on a text that is refused -/
def report (path text : List Char) (error : ParseError) : List Char :=
  line (Report.headline path text error) ++
    (Report.snippet path text error.cause.message error.span).flatMap line

/-- what an action does about a file, given its text and what formatting that comes to; none if the program breaks off
over it -/
def Action.effect (action : Action) (path text : List Char) : Except Failure (List Char) → Option Effect
  | .error (.refused error) => some { stderr := report path text error, ok := false }
  | .error _ => none
  | .ok out => some <|
    match action with
    | .format false => { stdout := out }
    | .format true => { write := if out == text then none else some out }
    | .check =>
      if out == text then {} else { stderr := line (path ++ ": not formatted".toList), ok := false }

/-- what an action does about a file with the given text -/
def Action.apply (action : Action) (o : Options) (path text : List Char) : Option Effect :=
  action.effect path text (LpcStyle.format o text)

/-- exit codes: all is well, something failed, the usage is wrong, the program broke off -/
def exitOk : Nat := 0

def exitFailed : Nat := 1

def exitUsage : Nat := 2

def exitBroken : Nat := 101

/-- what is said when the program breaks off -/
def brokenMessage : List Char := line "this text cannot be dealt with".toList

/-- what a run printed and left behind -/
structure Outcome where
  exit : Nat := exitOk
  stdout : List Char := []
  stderr : List Char := []
  files : Files

namespace Outcome

/-- ends a run with an error -/
def abort (r : Outcome) (message : List Char) : Outcome :=
  { r with exit := exitFailed, stderr := r.stderr ++ line ("Error: ".toList ++ message) }

/-- ends a run over a text that cannot be dealt with -/
def breakOff (r : Outcome) : Outcome := { r with exit := exitBroken, stderr := r.stderr ++ brokenMessage }

/-- goes on after one file -/
def add (r : Outcome) (path : List Char) (e : Effect) : Outcome :=
  { exit := if e.ok then r.exit else exitFailed
    stdout := r.stdout ++ e.stdout
    stderr := r.stderr ++ e.stderr
    files := match e.write with
      | some text => r.files.write path text
      | none => r.files }

end Outcome

/-- takes the files one after the other, up to the first that cannot be read or dealt with -/
def runPaths (action : Action) (o : Options) : Outcome → List (List Char) → Outcome
  | r, [] => r
  | r, path :: paths =>
    match r.files.read? path with
    | none => r.abort (LoadError.unreadable path).message
    | some text =>
      match action.apply o path text with
      | none => r.breakOff
      | some effect => runPaths action o (r.add path effect) paths

/-- runs a request on files -/
def Request.run (request : Request) (files : Files) : Outcome :=
  match request.overrides.load files.isFile files.read? with
  | .error error => Outcome.abort { files } error.message
  | .ok o => runPaths request.action o { files } request.paths

/-- runs a command line on files. With a wrong usage nothing is read or printed -/
def run (args : List (List Char)) (files : Files) : Outcome :=
  match Request.parse? args with
  | none => { exit := exitUsage, files }
  | some request => request.run files

end LpcStyle.Command
