import LpcStyle.Text.Blank

/-!
Files and the paths to them. What file a path leads to is up to the system that holds the files: a path may be absolute or
leave the working directory, go through links, or through directories that are not there. Several paths may lead to one
file, and what is written to it is then read on all of them.
-/

namespace LpcStyle.Command

/-- the file that each path leads to, and what can be read of each file: nothing if it may not be read or is no text -/
structure Files where
  file? : List Char → Option Nat
  text? : Nat → Option (List Char)

namespace Files

/-- the path leads to a file -/
def isFile (files : Files) (path : List Char) : Bool := (files.file? path).isSome

def read? (files : Files) (path : List Char) : Option (List Char) := (files.file? path).bind files.text?

/-- the files with the text of one replaced -/
def write (files : Files) (path text : List Char) : Files :=
  { files with text? := fun n => if files.file? path = some n then some text else files.text? n }

end Files

end LpcStyle.Command
