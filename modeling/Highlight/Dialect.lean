import Highlight.Fault

/-!
# The destination's dialect of patterns

The destination binds tokens to groups by position, so every group of its patterns has to capture.
`convert` drops a leading anchor, replaces a few fixed idioms that use other groups, and refuses
a pattern in which such a group is left. `topLevelGroups` splits a pattern into the groups that
tokens are bound to.
-/

namespace Highlight

namespace Dialect

/-- A fixed text of a pattern and what is written in its place. -/
structure Idiom where
  name : Text
  source : Text
  target : Text

/-- The idioms in the order in which they are replaced; later ones see what earlier ones wrote. -/
def idioms : List Idiom := [
  ⟨"not-colon-lookahead", "(?!:)", "[^:]"⟩,
  ⟨"optional-ellipsis", "(\\.\\.\\.)?", "(|\\.\\.\\.)"⟩,
  ⟨"dotted-identifier", "((?:[$a-zA-Z_]\\w*|\\.)+)", "([$a-zA-Z_0-9.]+)"⟩,
  ⟨"generic-identifier", "([$a-zA-Z_]\\w*(?:\\.<\\w+>)?)",
    "([$a-zA-Z_]\\w*|[$a-zA-Z_]\\w*\\.<\\w+>)"⟩,
  ⟨"generic-identifier-or-star", "([$a-zA-Z_]\\w*(?:\\.<\\w+>)?|\\*)",
    "([$a-zA-Z_]\\w*|[$a-zA-Z_]\\w*\\.<\\w+>|\\*)"⟩]

/-- How groups open that do not capture. -/
def unsupportedOpenings : List Text := ["(?:", "(?=", "(?!", "(?<=", "(?<!"]

/-- Without a leading anchor. -/
def stripAnchor : Text → Text
  | [] => []
  | u :: r => if u = unit '^' then r else u :: r

/-- Every occurrence of the idiom replaced. -/
def Idiom.replaceIn (idiom : Idiom) (pattern : Text) : Text :=
  Text.replace idiom.source idiom.target pattern

/-- The first opening of the list that occurs, and where it occurs first. -/
def findUnsupported (pattern : Text) : Option (Text × Nat) :=
  unsupportedOpenings.findSome? fun opening =>
    (Text.indexOf? opening pattern).map fun offset => (opening, offset)

/-- The pattern without its anchor and with all idioms replaced. -/
def respelled (pattern : Text) : Text :=
  idioms.foldl (fun pattern idiom => idiom.replaceIn pattern) (stripAnchor pattern)

/-- The pattern in the dialect of the destination. -/
def convert (pattern : Text) : Except GrammarError Text :=
  let pattern := respelled pattern
  match findUnsupported pattern with
  | none => .ok pattern
  | some (opening, offset) =>
    .error (.atOffset (.uncaptured opening) pattern offset)

/-- Where a scan of a pattern stands with respect to its bracketed sets. -/
inductive SetScan where
  | outside
  /-- Right after the opening bracket, where a closing one stands for itself. -/
  | opened
  /-- Right after the opening bracket and the mark of negation. -/
  | negated
  | inside
  deriving DecidableEq, Repr

namespace SetScan

/-- The scan after a unit that is not escaped. -/
def next : SetScan → CodeUnit → SetScan
  | outside, u => if u = unit '[' then opened else outside
  | opened, u => if u = unit '^' then negated else inside
  | negated, _ => inside
  | inside, u => if u = unit ']' then outside else inside

/-- The scan after an escaped unit. -/
def escaped : SetScan → SetScan
  | outside => outside
  | _ => inside

end SetScan

/-- The groups that a pattern closes at the top level, where `depth` groups are open so far and
`taken` is the text of the outermost open one, last unit first. -/
def groupsFrom (depth : Nat) (taken : Text) (scan : SetScan) : Text → List Text
  | [] => []
  | u :: r =>
    if u = unit '\\' then
      match r with
      | [] => []
      | v :: r => groupsFrom depth (v :: u :: taken) scan.escaped r
    else if scan = .outside ∧ u = unit '(' then
      if depth = 0 then groupsFrom 1 [u] scan r else groupsFrom (depth + 1) (u :: taken) scan r
    else if scan = .outside ∧ u = unit ')' ∧ depth ≠ 0 then
      if depth = 1 then (u :: taken).reverse :: groupsFrom 0 [] scan r
      else groupsFrom (depth - 1) (u :: taken) scan r
    else groupsFrom depth (u :: taken) (scan.next u) r

/-- The outermost parenthesised parts, in order. Escaped parentheses and those inside sets do not
count. -/
def topLevelGroups (pattern : Text) : List Text := groupsFrom 0 [] .outside pattern

/-- Single quotes spelled as an escape, so that the text can stand between single quotes. -/
def quoteSafe (t : Text) : Text := Text.replace "'" "\\x27" t

/-- The name of a token in the destination: underscores for dots. -/
def ruleName (token : TokenType) : Text := token.map fun u => if u = unit '.' then unit '_' else u

/-- The pattern holds a raw line feed; its escape does not count. -/
def spansLines (pattern : Text) : Bool := pattern.contains 10

end Dialect

end Highlight
