import Highlight.Path
import Highlight.Table
import Highlight.Text.Blank
import Highlight.Text.Quoted

/-!
# File trees

The files that a run reads and writes, as a value. A tree holds directories and text files under
their absolute paths; the top directory is always there. An operation that the tree does not allow
gives the error that says why, and leaves no trace.
-/

namespace Highlight

/-- What stands at a path. -/
inductive FileItem where
  | directory
  | file (text : Text)
  deriving DecidableEq, Repr

/-- Directories and files by the parts of their paths. Every path in it runs through directories
of the tree. -/
structure FileTree where
  items : Table (List Text) FileItem
  deriving Repr

/-- Why a file operation is not done. -/
inductive FileFault where
  | notFound
  | notDirectory
  | isDirectory
  | alreadyThere
  | nameTooLong
  /-- The path holds a zero unit. -/
  | zeroUnit
  deriving DecidableEq, Repr

namespace FileFault

/-- The short name of a cause. -/
def code : FileFault → Text
  | notFound => "ENOENT"
  | notDirectory => "ENOTDIR"
  | isDirectory => "EISDIR"
  | alreadyThere => "EEXIST"
  | nameTooLong => "ENAMETOOLONG"
  | zeroUnit => "ERR_INVALID_ARG_VALUE"

def description : FileFault → Text
  | notFound => "no such file or directory"
  | notDirectory => "not a directory"
  | isDirectory => "illegal operation on a directory"
  | alreadyThere => "file already exists"
  | nameTooLong => "name too long"
  | zeroUnit => "The argument 'path' must be a string, Uint8Array, or URL without null bytes"

end FileFault

/-- A file operation that is not done. -/
structure FileError where
  fault : FileFault
  operation : Text
  /-- The path as it was given, where the operation has one. -/
  path : Option Text
  deriving DecidableEq, Repr

namespace FileError

/-- What an error is called. -/
def name (e : FileError) : Text :=
  match e.fault with
  | .zeroUnit => "TypeError [" ++ e.fault.code ++ "]"
  | _ => "Error"

def message (e : FileError) : Text :=
  let path := e.path.getD []
  match e.fault with
  | .zeroUnit => e.fault.description ++ ". Received " ++ Text.shortened 128 (Text.quoted path)
  | fault =>
    let place : Text := if e.path.isSome then " '" ++ path.wellFormed ++ "'" else []
    fault.code ++ ": " ++ fault.description ++ ", " ++ e.operation ++ place

end FileError

namespace FileTree

def empty : FileTree := ⟨[]⟩

/-- The parts under which a path is kept. Names are written in an encoding that has no lone
surrogates. -/
def keyOf (path : Text) : List Text := (Path.steps path).map Text.wellFormed

/-- The absolute path of a key. -/
def pathOf (key : List Text) : Text := Path.slash :: Path.ofParts key

/-- A part of a path has at most 255 bytes. -/
def isTooLong (part : Text) : Bool := 255 < part.encodedSize

/-- What is wrong with a path whatever the tree holds: a whole path has less than 4096 bytes. -/
def pathFault? (path : Text) : Option FileFault :=
  if path.contains 0 then some .zeroUnit
  else if path.isEmpty then some .notFound
  else if 4096 ≤ path.encodedSize then some .nameTooLong
  else none

/-- What stands at a key, the top directory at the empty one. -/
def get? (tree : FileTree) (key : List Text) : Option FileItem :=
  if key.isEmpty then some .directory else Table.get? tree.items key

/-- Why nothing stands at the end of a path that starts in the directory `above`. -/
def obstacle (tree : FileTree) (above : List Text) : List Text → FileFault
  | [] => .notFound
  | part :: rest =>
    if isTooLong part then .nameTooLong
    else match tree.get? (above ++ [part]) with
      | none => .notFound
      | some .directory => obstacle tree (above ++ [part]) rest
      | some (.file _) => .notDirectory

/-- What stands at a key, or why nothing does. -/
def follow (tree : FileTree) (key : List Text) : Except FileFault FileItem :=
  match tree.get? key with
  | some item => .ok item
  | none => .error (tree.obstacle [] key)

/-- The key that a path leads to which starts in the directory `above`. A part of dots leads on
from a directory only, so what stands before it has to be one. -/
def locate (tree : FileTree) (above : List Text) : List Text → Except FileFault (List Text)
  | [] => .ok above
  | part :: rest =>
    if part = Text.ofString "." ∨ part = Text.ofString ".." then
      match tree.follow above with
      | .error fault => .error fault
      | .ok (.file _) => .error .notDirectory
      | .ok .directory =>
        locate tree (if part = Text.ofString "." then above else above.dropLast) rest
    else locate tree (above ++ [part.wellFormed]) rest

/-- What stands at a path. -/
def find (tree : FileTree) (path : Text) : Except FileFault FileItem :=
  match pathFault? path with
  | some fault => .error fault
  | none => (tree.locate [] (Path.parts path)).bind tree.follow

/-- Something stands at the path. -/
def has (tree : FileTree) (path : Text) : Bool :=
  match tree.find path with
  | .ok _ => true
  | .error _ => false

/-- The text of a file. -/
def read (tree : FileTree) (path : Text) : Except FileError Text :=
  match tree.find path with
  | .ok (.file text) => .ok text
  | .ok .directory => .error ⟨.isDirectory, "read", none⟩
  | .error fault => .error ⟨fault, "open", some path⟩

/-- The keys of a path that starts at `above`, the shortest first. -/
def keysBelow (above : List Text) : List Text → List (List Text)
  | [] => []
  | part :: rest => (above ++ [part]) :: keysBelow (above ++ [part]) rest

/-- The tree with the directories of a path that starts in the directory `above`. From the first
one on that is not there, all of them are new. -/
def makeFrom (tree : FileTree) (above : List Text) : List Text → Except FileFault FileTree
  | [] => .ok tree
  | part :: rest =>
    match tree.get? (above ++ [part]) with
    | none =>
      if (part :: rest).any isTooLong then .error .nameTooLong
      else .ok ⟨tree.items ++ (keysBelow above (part :: rest)).map fun key => (key, .directory)⟩
    | some .directory => makeFrom tree (above ++ [part]) rest
    | some (.file _) => .error (if rest.isEmpty then .alreadyThere else .notDirectory)

/-- The tree with a directory, and with those above it. -/
def makeDirectory (tree : FileTree) (path : Text) : Except FileError FileTree :=
  let made : Except FileFault FileTree := match pathFault? path with
    | some fault => .error fault
    | none =>
      let key := keyOf path
      if tree.get? key = some .directory then .ok tree else tree.makeFrom [] key
  made.mapError fun fault => ⟨fault, "mkdir", some path⟩

/-- Why a file cannot be written at a key, if so. -/
def writeFault? (tree : FileTree) (key : List Text) : Option FileFault :=
  match tree.follow key.dropLast with
  | .error fault => some fault
  | .ok (.file _) => some .notDirectory
  | .ok .directory =>
    if key.any isTooLong then some .nameTooLong
    else if tree.get? key = some .directory then some .isDirectory
    else none

/-- The tree with a text in a file of a directory that is there. -/
def write (tree : FileTree) (path text : Text) : Except FileError FileTree :=
  let key := keyOf path
  match pathFault? path <|> tree.writeFault? key with
  | some fault => .error ⟨fault, "open", some path⟩
  | none => .ok ⟨Table.set tree.items key (.file text.wellFormed)⟩

/-- The files of a tree by their keys. -/
def files (tree : FileTree) : List (List Text × Text) :=
  tree.items.filterMap fun (key, item) =>
    match item with
    | .file text => some (key, text)
    | .directory => none

/-- What an earlier tree does not have, or has with another text. -/
def changes (earlier later : FileTree) : Table (List Text) FileItem :=
  later.items.filter fun (key, item) => decide (Table.get? earlier.items key ≠ some item)

end FileTree

/-- Which files of a directory are looked for. -/
structure FilePattern where
  /-- Files of the directories below count too. -/
  deep : Bool
  /-- How the names end. -/
  ending : Text
  deriving DecidableEq, Repr

namespace FilePattern

/-- The part starts with a dot, which hides it. -/
def isHidden (part : Text) : Bool := part.head? = some (unit '.')

/-- A directory that is looked into: it is not hidden and its name does not break lines. -/
def entersDirectory (name : Text) : Bool := !isHidden name && !name.any CodeUnit.isLineEnd

/-- A name that is looked for: it has the ending, is not hidden and does not start with a line
break. -/
def selectsName (pattern : FilePattern) (name : Text) : Bool :=
  !isHidden name && !name.head?.any CodeUnit.isLineEnd && pattern.ending.isSuffixOf name

/-- What may stand in front of the first part as a step to the directory itself. -/
def ownStep : Text := ".\\"

/-- The parts by which a file is judged, out of its parts from the directory on: a step to the
directory itself does not count. -/
def judgedParts : List Text → List Text
  | [] => []
  | part :: rest => (if ownStep.isPrefixOf part then part.drop ownStep.length else part) :: rest

/-- The other parts that are judged by the same ones. -/
def twin : List Text → List Text
  | [] => []
  | part :: rest =>
    (if ownStep.isPrefixOf part then part.drop ownStep.length else ownStep ++ part) :: rest

/-- A file, given by its parts from the directory on, is one that is looked for. -/
def selects (pattern : FilePattern) (below : List Text) : Bool :=
  let judged := judgedParts below
  (pattern.deep || judged.length == 1) && judged.dropLast.all entersDirectory &&
    judged.getLast?.any pattern.selectsName

/-- The files that are looked for, out of all files below a directory. Of two that are judged by
the same parts, the first one in order stands for both. -/
def select (pattern : FilePattern) (files : List (List Text)) : List (List Text) :=
  let chosen := files.filter pattern.selects
  chosen.filter fun below => !(decide (twin below < below) && chosen.contains (twin below))

end FilePattern

namespace FileTree

/-- A path with slashes for its backslashes. -/
def slashed (path : Text) : Text :=
  path.map fun u => if u = unit '\\' then Path.slash else u

/-- The files below a directory by their parts from there on. -/
def filesBelow (tree : FileTree) (base : List Text) : List (List Text) :=
  tree.files.filterMap fun (key, _) =>
    if base.isPrefixOf key then some (key.drop base.length) else none

/-- The paths of the files below a directory that a pattern selects, in their order. Backslashes
count as slashes, in the path of the directory before it is looked into and in the names of files
once they are found, so a path need not lead to the file that it was found for. A directory that
is not there has no files. -/
def discover (tree : FileTree) (directory : Text) (pattern : FilePattern) :
    Except FileError (List Text) :=
  let root := slashed directory
  match tree.find root with
  | .error .notFound => .ok []
  | .error fault => .error ⟨fault, "scandir", some root⟩
  | .ok (.file _) => .error ⟨.notDirectory, "scandir", some root⟩
  | .ok .directory =>
    let found := pattern.select (tree.filesBelow (keyOf root))
    .ok (Text.sort (found.map fun below => slashed (Path.join directory (Path.ofParts below))))

end FileTree

end Highlight
