import Highlight.Command.Run

/-!
# The command line

Takes up the files that a run may read, runs the command on them, writes what has changed, and
prints the transcript.
-/

open Highlight

namespace Highlight.Main

/-- The path of a key on disk. -/
def diskPath (key : List Text) : String := (FileTree.pathOf key).toString

/-- Takes up what stands at a key. Gives the tree and whether a directory stands there. -/
def takeItem (tree : FileTree) (key : List Text) : IO (FileTree × Bool) := do
  let place := (← IO.currentDir) / diskPath key
  if ← place.isDir then
    pure (⟨Table.set tree.items key .directory⟩, true)
  else if ← place.pathExists then
    let text := (String.fromUTF8? (← IO.FS.readBinFile place)).getD ""
    pure (⟨Table.set tree.items key (.file text)⟩, false)
  else pure (tree, false)

/-- Takes up everything below a directory. -/
partial def takeBelow (tree : FileTree) (key : List Text) : IO FileTree := do
  let entries ← ((← IO.currentDir) / diskPath key).readDir
  entries.foldlM
    (fun tree entry => do
      let below := key ++ [Text.ofString entry.fileName]
      let (tree, isDirectory) ← takeItem tree below
      if isDirectory then takeBelow tree below else pure tree)
    tree

/-- Takes up the directories above a path, what stands there, and everything below. -/
def takeUp (tree : FileTree) (path : Text) : IO FileTree := do
  let key := FileTree.keyOf path
  let (tree, isDirectory) ← (List.range key.length).foldlM
    (fun (tree, _) n => takeItem tree (key.take (n + 1))) (tree, true)
  if isDirectory then takeBelow tree key else pure tree

/-- Writes what has changed. -/
def store (earlier later : FileTree) : IO Unit := do
  for (key, item) in FileTree.changes earlier later do
    match item with
    | .directory => IO.FS.createDirAll (diskPath key)
    | .file text => IO.FS.writeFile (diskPath key) text.toString

/-- Prints a line on its stream. -/
def printLine (line : Highlight.Stream × Text) : IO Unit :=
  match line.1 with
  | .output => IO.println line.2.toString
  | .errors => IO.eprintln line.2.toString

end Highlight.Main

/-- Runs the command on the files of the disk. -/
def main (arguments : List String) : IO UInt32 := do
  let directory := (← IO.currentDir).toString
  let env : Environment := ⟨directory, ← (← IO.getStdout).isTty⟩
  let arguments := arguments.map Text.ofString
  let tree ← (Command.configFile? env arguments).toList.foldlM Main.takeUp .empty
  let tree ← (Command.directories env arguments tree).foldlM Main.takeUp tree
  let outcome := Command.run env arguments tree
  Main.store tree outcome.tree
  outcome.transcript.forM Main.printLine
  pure outcome.code.toUInt32
