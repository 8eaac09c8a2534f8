import Highlight.Text.Basic

/-!
# Paths

Paths with slashes between their parts. `normal` takes out the parts that lead nowhere, `resolve`
makes a path absolute, and `relative` gives the way from one absolute path to another.
-/

namespace Highlight

namespace Path

def slash : CodeUnit := unit '/'

/-- The path starts at the root. -/
def isAbsolute (path : Text) : Bool := path.head? = some slash

/-- The non-empty parts of a path. -/
def parts (path : Text) : List Text := (Text.splitAt slash path).filter fun part => !part.isEmpty

/-- Takes out single dots, and double dots together with the part before them. `taken` holds the
parts that are kept so far, the last one first. -/
def normalParts (absolute : Bool) (taken : List Text) : List Text → List Text
  | [] => taken.reverse
  | part :: rest =>
    if part = Text.ofString "." then normalParts absolute taken rest
    else if part = Text.ofString ".." then
      match taken with
      | [] => normalParts absolute (if absolute then [] else [part]) rest
      | last :: before =>
        if last = Text.ofString ".." then normalParts absolute (part :: taken) rest
        else normalParts absolute before rest
    else normalParts absolute (part :: taken) rest

/-- Parts with slashes between them. -/
def ofParts (ps : List Text) : Text := Text.join [slash] ps

/-- The path without parts that lead nowhere; a slash at its end is kept. -/
def normal (path : Text) : Text :=
  let absolute := isAbsolute path
  let body := ofParts (normalParts absolute [] (parts path))
  let trailing : Bool := path.getLast? = some slash
  if absolute then
    if body.isEmpty then [slash] else slash :: body ++ (if trailing then [slash] else [])
  else if body.isEmpty then (if trailing then "./" else ".")
  else body ++ (if trailing then [slash] else [])

/-- One path below another. -/
def join (first second : Text) : Text :=
  if first.isEmpty && second.isEmpty then "."
  else if first.isEmpty then normal second
  else if second.isEmpty then normal first
  else normal (first ++ slash :: second)

/-- The path seen from an absolute directory. -/
def resolve (directory path : Text) : Text :=
  let full := if isAbsolute path then path else directory ++ slash :: path
  slash :: ofParts (normalParts true [] (parts full))

/-- The last part of a path. -/
def base (path : Text) : Text := (parts path).getLastD []

/-- The last part of a path without an ending, unless it is the ending alone. -/
def baseWithout (ending path : Text) : Text :=
  let name := base path
  if ending.isSuffixOf name ∧ name ≠ ending then name.take (name.length - ending.length) else name

/-- Drops what two lists of parts start with in common. -/
def dropCommon : List Text → List Text → List Text × List Text
  | a :: as, b :: bs => if a = b then dropCommon as bs else (a :: as, b :: bs)
  | as, bs => (as, bs)

/-- The parts that an absolute path leads through. -/
def steps (path : Text) : List Text := normalParts true [] (parts path)

/-- The way from one absolute path to another. -/
def relative (start goal : Text) : Text :=
  let (up, down) := dropCommon (steps start) (steps goal)
  ofParts (up.map (fun _ => Text.ofString "..") ++ down)

end Path

end Highlight
