import Highlight.Catalogue.Registry
import Highlight.FileTree
import Highlight.Style.Sheet

/-!
# Loading a catalogue

The languages and styles in the files below a directory. A file that cannot be loaded is reported
and left out; the others are loaded all the same.
-/

namespace Highlight

namespace Registry

/-- The files that hold languages. -/
def files : FilePattern := ⟨true, ".lexer.json"⟩

/-- What the files of a catalogue hold. -/
structure Loaded where
  registry : Registry
  /-- The files that are left out, and why. -/
  failures : List (Text × LoadError)
  deriving Repr

/-- The registry with the language of one more file. -/
def withFile (registry : Registry) (tree : FileTree) (file : Text) :
    Except LoadError Registry := do
  let text ← (tree.read file).mapError LoadError.file
  let language ← Language.ofText file text
  (registry.add language).mapError LoadError.catalogue

/-- Loads one more file. -/
def Loaded.load (tree : FileTree) (loaded : Loaded) (file : Text) : Loaded :=
  match loaded.registry.withFile tree file with
  | .ok registry => { loaded with registry }
  | .error e => { loaded with failures := loaded.failures ++ [(file, e)] }

/-- The languages of the files below a directory, in the order of their paths. -/
def load (tree : FileTree) (directory : Text) (pattern : FilePattern) : Except FileError Loaded :=
  (tree.discover directory pattern).map fun found => found.foldl (Loaded.load tree) ⟨empty, []⟩

end Registry

namespace Style

/-- The files that hold styles. -/
def files : FilePattern := ⟨true, ".style.json"⟩

/-- What the files of a catalogue hold. -/
structure Loaded where
  styles : List Style
  /-- The names of the files that are left out, and why. -/
  failures : List (Text × LoadError)
  deriving Repr

/-- The style of a file. -/
def ofFile (tree : FileTree) (file : Text) : Except LoadError Style := do
  let text ← (tree.read file).mapError LoadError.file
  (Style.ofText file text).mapError LoadError.catalogue

/-- Loads one more file. -/
def Loaded.load (tree : FileTree) (loaded : Loaded) (file : Text) : Loaded :=
  match Style.ofFile tree file with
  | .ok style => { loaded with styles := loaded.styles ++ [style] }
  | .error e => { loaded with failures := loaded.failures ++ [(Path.base file, e)] }

/-- The styles of the files below a directory, in the order of their paths. -/
def load (tree : FileTree) (directory : Text) : Except FileError Loaded :=
  (tree.discover directory files).map fun found => found.foldl (Loaded.load tree) ⟨[], []⟩

end Style

end Highlight
