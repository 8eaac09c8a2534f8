import Highlight.Failure
import Highlight.Log

/-!
# Jobs

Work on a file tree that tells what it does. A job may end in a failure; what it wrote and told up
to then stays.
-/

namespace Highlight

/-- What a job works on: the files, and the log so far. -/
structure Workplace where
  tree : FileTree
  messages : List Message
  deriving Repr

/-- Work that reads and writes files and tells what it does. -/
abbrev Job (α : Type) := ExceptT Failure (StateM Workplace) α

namespace Job

/-- Adds a message to the log. -/
def tell (level : Level) (text : Text) : Job Unit :=
  modify fun place => { place with messages := place.messages ++ [⟨level, text⟩] }

/-- Reads from the files. -/
def reading {α : Type} (read : FileTree → Except FileError α) : Job α := do
  match read (← get).tree with
  | .ok a => pure a
  | .error e => throw (.file e)

/-- Changes the files. -/
def changing (change : FileTree → Except FileError FileTree) : Job Unit := do
  let tree ← reading change
  modify fun place => { place with tree }

/-- Makes a directory and those above it. -/
def makeDirectory (path : Text) : Job Unit := changing (·.makeDirectory path)

/-- Writes a file. -/
def write (path text : Text) : Job Unit := changing (·.write path text)

end Job

end Highlight
