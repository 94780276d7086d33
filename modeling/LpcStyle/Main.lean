import LpcStyle.Command.Run

/-!
The program: runs its command line on the files that its paths lead to.
-/

namespace LpcStyle.Command

/-- what stands behind a path -/
inductive Found where
  | file (text : List Char)
  | unreadable
  | missing

def Found.text? : Found → Option (List Char)
  | .file text => some text
  | _ => none

def Found.isFile : Found → Bool
  | .missing => false
  | _ => true

/-- goes to what stands behind a path. A directory is no file -/
def find (path : List Char) : IO Found := do
  try
    return .file (← IO.FS.readFile (String.ofList path)).toList
  catch
    | .noFileOrDirectory .. => return .missing
    | .inappropriateType .. => return .missing
    | _ => return .unreadable

/-- takes the files one after the other; gives the exit code -/
def perform (action : Action) (o : Options) : Nat → List (List Char) → IO Nat
  | exit, [] => return exit
  | exit, path :: paths => do
    match (← find path).text? with
    | none =>
      IO.eprint (String.ofList (line ("Error: ".toList ++ (Config.LoadError.unreadable path).message)))
      return exitFailed
    | some text =>
      match action.apply o path text with
      | none =>
        IO.eprint (String.ofList brokenMessage)
        return exitBroken
      | some effect =>
        IO.print (String.ofList effect.stdout)
        IO.eprint (String.ofList effect.stderr)
        if let some new := effect.write then IO.FS.writeFile (String.ofList path) (String.ofList new)
        perform action o (if effect.ok then exit else exitFailed) paths

end LpcStyle.Command

open LpcStyle.Command in
def main (args : List String) : IO UInt32 := do
  match Request.parse? (args.map String.toList) with
  | none =>
    IO.eprintln "usage: format [--write] PATH... or check PATH..."
    IO.eprintln "settings: --config PATH, --print-width N, --tab-width N, --use-tabs"
    return UInt32.ofNat exitUsage
  | some request =>
    let file := request.overrides.config.getD LpcStyle.Config.defaultFile.toList
    let found ← find file
    match request.overrides.load (fun _ => found.isFile) (fun _ => found.text?) with
    | .error error =>
      IO.eprint (String.ofList (line ("Error: ".toList ++ error.message)))
      return UInt32.ofNat exitFailed
    | .ok options =>
      return UInt32.ofNat (← perform request.action options exitOk request.paths)
