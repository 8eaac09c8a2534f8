import Highlight.Text.Basic
import Highlight.Text.NameTable

/-!
# Names of groups

A named group carries its name between angle brackets. The name is an identifier, in which a code
point may also be spelled by an escape. `groupNames` finds the groups of a whole source that
capture, before it is read in full, because what a reference means depends on groups behind it.
-/

namespace Highlight.Regex

/-- A code point spelled as an escape, after its backslash and letter. -/
def readCodePoint (t : Text) : Option (Nat × Text) :=
  match t with
  | u :: r =>
    if u = unit '\x7b' then
      let digits := r.takeWhile CodeUnit.isHexDigit
      match r.dropWhile CodeUnit.isHexDigit with
      | v :: rest =>
        if v = unit '\x7d' ∧ digits ≠ [] ∧ Text.hexadecimal digits ≤ 0x10FFFF then
          some (Text.hexadecimal digits, rest)
        else none
      | [] => none
    else if 4 ≤ t.length ∧ (t.take 4).all CodeUnit.isHexDigit then
      let lead : CodeUnit := (Text.hexadecimal (t.take 4)).toUInt16
      let trail : CodeUnit := (Text.hexadecimal ((t.drop 6).take 4)).toUInt16
      if lead.isLeading ∧ (t.drop 4).take 2 = Text.ofString "\\u" ∧ 10 ≤ t.length ∧
          ((t.drop 6).take 4).all CodeUnit.isHexDigit ∧ trail.isTrailing then
        some (CodeUnit.pair lead trail, t.drop 10)
      else some (lead.toNat, t.drop 4)
    else none
  | [] => none

/-- The first code point of a name that is still to be read, escapes included. -/
def readScalar (t : Text) : Option (Nat × Text) :=
  match t with
  | [] => none
  | u :: r =>
    if u = unit '\\' then
      match r with
      | v :: r => if v = unit 'u' then readCodePoint r else none
      | [] => none
    else match r with
      | v :: rest =>
        if u.isLeading && v.isTrailing then some (CodeUnit.pair u v, rest) else some (u.toNat, r)
      | [] => some (u.toNat, [])

/-- The rest of a name up to its closing bracket, which may be escaped, and what follows it. -/
def readNameRest : Nat → Text → Option (Text × Text)
  | 0, _ => none
  | fuel + 1, t => do
    let (n, rest) ← readScalar t
    if n = 0x3E then some ([], rest)
    else if continuesName n then
      let (name, rest) ← readNameRest fuel rest
      some (CodeUnit.ofScalar n ++ name, rest)
    else none

/-- A name after its opening bracket, and what follows the closing one. -/
def readName (t : Text) : Option (Text × Text) := do
  let (n, rest) ← readScalar t
  if startsName n then
    let (name, rest) ← readNameRest (t.length + 1) rest
    some (CodeUnit.ofScalar n ++ name, rest)
  else none

/-- What the text after an opening parenthesis says about the group. -/
inductive Opening where
  | plain
  | named (name : Option Text)
  | notCapturing

/-- The kind of group that an opening parenthesis starts. -/
def openingOf (t : Text) : Opening :=
  match t with
  | q :: r =>
    if q ≠ unit '?' then .plain
    else match r with
      | b :: r =>
        if b ≠ unit '<' then .notCapturing
        else match r with
          | m :: _ =>
            if m = unit '=' ∨ m = unit '!' then .notCapturing
            else .named ((readName r).map (·.1))
          | [] => .named none
      | [] => .notCapturing
  | [] => .plain

/-- The groups that capture, each with its name if it has one, in the order of their opening
parentheses. Escaped parentheses and those inside sets do not count. -/
def groupNamesFrom (inSet : Bool) : Text → List (Option Text)
  | [] => []
  | u :: r =>
    if u = unit '\\' then
      match r with
      | [] => []
      | _ :: r => groupNamesFrom inSet r
    else if inSet then groupNamesFrom (u ≠ unit ']') r
    else if u = unit '[' then groupNamesFrom true r
    else if u = unit '(' then
      match openingOf r with
      | .plain => none :: groupNamesFrom false r
      | .named name => some (name.getD []) :: groupNamesFrom false r
      | .notCapturing => groupNamesFrom false r
    else groupNamesFrom false r

/-- The groups of a source that capture, in order, each with its name if it has one. -/
def groupNames (source : Text) : List (Option Text) := groupNamesFrom false source

end Highlight.Regex
