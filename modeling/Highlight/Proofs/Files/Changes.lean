import Highlight.Proofs.Batch.Files

/-!
# Rows of changes

A run changes the files by directories that it makes and files that it writes. `FileTree.applyAll`
is a row of such changes. What stands at a key afterwards is the last text that was written there,
or what stood there before, or a directory that was made on the way.
-/

namespace Highlight.FileTree

/-- A change of the files. -/
inductive Change where
  | directory (path : Text)
  | file (path text : Text)
  deriving DecidableEq, Repr

/-- The tree after a change. -/
def Change.apply (tree : FileTree) : Change → Except FileError FileTree
  | directory path => tree.makeDirectory path
  | file path text => tree.write path text

/-- The change that writes a text to a path. -/
def Change.ofWrite (file : Text × Text) : Change := .file file.1 file.2

/-- The tree after a row of changes. -/
def applyAll (tree : FileTree) (changes : List Change) : Except FileError FileTree :=
  changes.foldlM Change.apply tree

variable {tree tree' : FileTree} {changes : List Change}

theorem applyAll_singleton (tree : FileTree) (change : Change) :
    tree.applyAll [change] = change.apply tree := by
  rw [applyAll, List.foldlM_cons]
  cases change.apply tree <;> rfl

theorem applyAll_cons (tree : FileTree) (change : Change) (changes : List Change) :
    tree.applyAll (change :: changes) = (change.apply tree).bind (·.applyAll changes) :=
  List.foldlM_cons

theorem applyAll_append (tree : FileTree) (first second : List Change) :
    tree.applyAll (first ++ second) = (tree.applyAll first).bind (·.applyAll second) :=
  List.foldlM_append

/-- Writing several texts is a row of changes. -/
theorem applyAll_writes (tree : FileTree) (writes : List (Text × Text)) :
    tree.applyAll (writes.map Change.ofWrite) = tree.writeAll writes := by
  rw [applyAll, List.foldlM_map]
  rfl

end Highlight.FileTree
