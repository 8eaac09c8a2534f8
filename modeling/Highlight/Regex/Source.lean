import Highlight.Text.Basic

/-!
# Sources of regular expressions

How the pattern of a rule is spelled as the source of a regular expression. `hostSource` drops a
leading anchor and respells named groups and the references to them; `withoutCaptures` turns every
capturing group into one that does not capture; `displayed` is the source as a message shows it.
All three leave escaped units and the inside of bracketed sets alone.
-/

namespace Highlight.Regex

/-- The length of a name at the front, up to the unit `close` and with it. -/
def nameLength? (close : CodeUnit) (t : Text) : Option Nat :=
  match t with
  | [] => none
  | u :: r =>
    if u.isLetter || u = unit '_' then
      let rest := r.dropWhile CodeUnit.isWord
      if rest.head? = some close then some (r.length - rest.length + 2) else none
    else none

/-- The length of the mark of a named group, from its question mark to its closing bracket, if
the text after an opening parenthesis starts with one. -/
def namedMark? (t : Text) : Option Nat :=
  if (Text.ofString "?P<").isPrefixOf t then (nameLength? (unit '>') (t.drop 3)).map (· + 3)
  else if (Text.ofString "?<").isPrefixOf t then (nameLength? (unit '>') (t.drop 2)).map (· + 2)
  else none

/-- Drops `skip` units, then turns capturing groups into others. -/
def withoutCapturesFrom (inSet : Bool) : Nat → Text → Text
  | _, [] => []
  | skip + 1, _ :: r => withoutCapturesFrom inSet skip r
  | 0, u :: r =>
    if u = unit '\\' then
      match r with
      | [] => [u]
      | v :: r => u :: v :: withoutCapturesFrom inSet 0 r
    else if inSet then u :: withoutCapturesFrom (u ≠ unit ']') 0 r
    else if u = unit '[' then u :: withoutCapturesFrom true 0 r
    else if u = unit '(' then
      match namedMark? r with
      | some length => "(?:" ++ withoutCapturesFrom false length r
      | none =>
        if r.head? = some (unit '?') then u :: withoutCapturesFrom false 0 r
        else "(?:" ++ withoutCapturesFrom false 0 r
    else u :: withoutCapturesFrom false 0 r

/-- The source with no group that captures. -/
def withoutCaptures (source : Text) : Text := withoutCapturesFrom false 0 source

/-- Drops `skip` units, then respells named groups. -/
def respelledFrom (inSet : Bool) : Nat → Text → Text
  | _, [] => []
  | skip + 1, _ :: r => respelledFrom inSet skip r
  | 0, u :: r =>
    if u = unit '\\' then
      match r with
      | [] => [u]
      | v :: r => u :: v :: respelledFrom inSet 0 r
    else if inSet then u :: respelledFrom (u ≠ unit ']') 0 r
    else if u = unit '[' then u :: respelledFrom true 0 r
    else if u = unit '(' ∧ (Text.ofString "?P<").isPrefixOf r then "(?<" ++ respelledFrom false 3 r
    else if u = unit '(' ∧ (Text.ofString "?P=").isPrefixOf r then
      match nameLength? (unit ')') (r.drop 3) with
      | some length =>
        "\\k<" ++ (r.drop 3).take (length - 1) ++ ">" ++ respelledFrom false (length + 3) r
      | none => u :: respelledFrom false 0 r
    else u :: respelledFrom false 0 r

/-- The source of a pattern: without a leading anchor, and with named groups and the references to
them in the host's spelling. -/
def hostSource (pattern : Text) : Text :=
  match pattern with
  | [] => []
  | u :: r => if u = unit '^' then respelledFrom false 0 r else respelledFrom false 0 pattern

/-- The letter that shows a line end after a backslash. -/
def lineEndLetters? (u : CodeUnit) : Option Text :=
  if u = 10 then some "n"
  else if u = 13 then some "r"
  else if u = 0x2028 then some "u2028"
  else if u = 0x2029 then some "u2029"
  else none

/-- A source with line ends as escapes and slashes outside sets escaped. -/
def displayedFrom (inSet : Bool) : Text → Text
  | [] => []
  | u :: r =>
    if u = unit '\\' then
      match r with
      | [] => [u]
      | v :: r => u :: (lineEndLetters? v).getD [v] ++ displayedFrom inSet r
    else match lineEndLetters? u with
      | some letters => unit '\\' :: letters ++ displayedFrom inSet r
      | none =>
        if u = unit '/' && !inSet then unit '\\' :: u :: displayedFrom inSet r
        else u :: displayedFrom (if inSet then u ≠ unit ']' else u = unit '[') r

/-- The source as a message shows it. -/
def displayed (source : Text) : Text :=
  if source.isEmpty then "(?:)" else displayedFrom false source

end Highlight.Regex
