import Highlight.Pattern.Basic
import Highlight.Pattern.Reader

/-!
# The grammar of patterns

Which texts are patterns, and what their trees are. The rules follow the structure of a pattern:
alternatives of sequences of quantified atoms, where an atom may be a group around a pattern. The
rules take the reader of the pattern inside a group as an argument, and `Grammar.pattern` closes
the circle by recursion on the depth of nesting, which the opening parentheses bound.
-/

namespace Highlight

namespace Grammar

open Reader

/-- How often a quantified atom may occur. -/
structure Bounds where
  least : Nat
  most : Option Nat

/-- A decimal number. -/
def integer : Reader Nat := do
  let digits ← Reader.atLeastOnce (oneOf .digit)
  pure (Text.decimal digits)

/-- The name of a group. -/
def name : Reader Text := do
  let first ← oneOf .nameStart
  let rest ← many (oneOf .nameRest)
  pure (first :: rest)

/-- A quantifier without the mark of laziness. -/
def bounds : Reader Bounds :=
  (do literal "*"; pure ⟨0, none⟩)
  <|> (do literal "+"; pure ⟨1, none⟩)
  <|> (do literal "?"; pure ⟨0, some 1⟩)
  <|> (do
    literal "\x7b"
    let least ← integer
    literal ","
    let most ← integer
    literal "\x7d"
    pure ⟨least, some most⟩)
  <|> (do
    literal "\x7b"
    let least ← integer
    literal ",\x7d"
    pure ⟨least, none⟩)
  <|> (do
    literal "\x7b"
    let least ← integer
    literal "\x7d"
    pure ⟨least, some least⟩)
  <|> (do
    literal "\x7b,"
    let most ← integer
    literal "\x7d"
    pure ⟨0, some most⟩)

/-- A quantifier, greedy or lazy: both allow the same counts. -/
def quantifier : Reader Bounds := do
  let bounds ← bounds
  let _ ← optional (literal "?")
  pure bounds

/-- The class that a letter names. -/
def classOf (letter : CodeUnit) : ClassName :=
  if letter = unit 'd' then .digit
  else if letter = unit 'w' then .word
  else if letter = unit 's' then .space
  else if letter = unit 'D' then .notDigit
  else if letter = unit 'W' then .notWord
  else .notSpace

/-- A named class after its backslash. -/
def namedClass : Reader ClassName := do
  literal "\\"
  let letter ← oneOf .classLetter
  pure (classOf letter)

/-- A letter that stands for a control unit. -/
def controlLetter (letter : Text) (value : CodeUnit) : Reader CodeUnit := do
  literal letter
  pure value

/-- What may follow a backslash to give one unit. -/
def escapedUnit : Reader CodeUnit :=
  controlLetter "n" 10
  <|> controlLetter "r" 13
  <|> controlLetter "t" 9
  <|> controlLetter "f" 12
  <|> controlLetter "v" 11
  <|> controlLetter "0" 0
  <|> (do
    literal "x"
    let a ← oneOf .hexDigit
    let b ← oneOf .hexDigit
    pure (Text.hexadecimal [a, b]).toUInt16)
  <|> (do
    literal "u"
    let a ← oneOf .hexDigit
    let b ← oneOf .hexDigit
    let c ← oneOf .hexDigit
    let d ← oneOf .hexDigit
    pure (Text.hexadecimal [a, b, c, d]).toUInt16)
  <|> anyUnit

/-- An escaped unit with its backslash. -/
def escape : Reader CodeUnit := do
  literal "\\"
  escapedUnit

/-- One unit inside brackets. -/
def bracketUnit : Reader CodeUnit := escape <|> oneOf .bracketed

/-- A class, a range or a unit inside brackets. -/
def bracketItem : Reader ClassItem :=
  (do let name ← namedClass; pure (.named name))
  <|> (do
    let lo ← bracketUnit
    literal "-"
    let hi ← bracketUnit
    pure (.range lo hi))
  <|> (do let u ← bracketUnit; pure (.range u u))

/-- A closing bracket that stands first and so stands for itself. -/
def leadingBracket : Reader ClassItem := do
  literal "]"
  pure (.range (unit ']') (unit ']'))

/-- The inside of a pair of brackets. -/
def bracketBody : Reader Pattern := do
  let negated ← optional (literal "^")
  let first ← optional leadingBracket
  let rest ← many bracketItem
  pure (.set negated.isSome (first.toList ++ rest))

/-- An atom that starts with a backslash. -/
def escapedAtom : Reader Pattern :=
  (do let name ← namedClass; pure (.set false [.named name]))
  <|> (do
    literal "\\"
    let _ ← oneOf .anchorLetter
    pure .anchor)
  <|> (do
    literal "\\k<"
    let name ← name
    literal ">"
    pure (.backref (.name name)))
  <|> (do
    literal "\\"
    let first ← oneOf .positiveDigit
    let second ← optional (oneOf .digit)
    pure (.backref (.index (Text.decimal (first :: second.toList)))))
  <|> (do let u ← escape; pure (.char u))

/-- A capturing group whose number is still open. -/
def captured (name : Option Text) (body : Pattern) : Pattern := .group (some ⟨0, name⟩) body

/-- The inside of a pair of parentheses, given the reader of patterns. -/
def groupBody (inner : Reader Pattern) : Reader Pattern :=
  (do literal "?:"; let body ← inner; pure (.group none body))
  <|> (do
    literal "?P<"
    let name ← name
    literal ">"
    let body ← inner
    pure (captured (some name) body))
  <|> (do
    literal "?P="
    let name ← name
    pure (.backref (.name name)))
  <|> (do literal "?="; let body ← inner; pure (.look body))
  <|> (do literal "?!"; let body ← inner; pure (.look body))
  <|> (do literal "?<="; let body ← inner; pure (.look body))
  <|> (do literal "?<!"; let body ← inner; pure (.look body))
  <|> (do
    literal "?<"
    let name ← name
    literal ">"
    let body ← inner
    pure (captured (some name) body))
  <|> (do
    literal "?#"
    let _ ← many (oneOf .commented)
    pure (.seq []))
  <|> (do
    literal "?"
    let _ ← Reader.atLeastOnce (oneOf .flagOrMinus)
    literal ":"
    let body ← inner
    pure (.group none body))
  <|> (do
    literal "?"
    let _ ← Reader.atLeastOnce (oneOf .flag)
    pure (.seq []))
  <|> (do let body ← inner; pure (captured none body))

/-- What a quantifier applies to. -/
def atom (inner : Reader Pattern) : Reader Pattern :=
  (do
    literal "("
    let body ← groupBody inner
    literal ")"
    pure body)
  <|> (do
    literal "["
    let set ← bracketBody
    literal "]"
    pure set)
  <|> (do literal "."; pure (.set false [.named .any]))
  <|> (do literal "^"; pure .anchor)
  <|> (do literal "$"; pure .anchor)
  <|> escapedAtom
  <|> (do let u ← oneOf .plain; pure (.char u))

/-- An atom and how often it may occur. -/
def quantified (inner : Reader Pattern) : Reader Pattern := do
  let body ← atom inner
  let bounds ← optional quantifier
  pure (match bounds with
    | some bounds => .repeated body bounds.least bounds.most
    | none => body)

/-- Quantified atoms one after the other; a single one stands alone. -/
def sequence (inner : Reader Pattern) : Reader Pattern := do
  let items ← many (quantified inner)
  pure (match items with
    | [item] => item
    | items => .seq items)

/-- Alternatives, given the reader of the patterns inside their groups; a single one stands
alone. -/
def alternatives (inner : Reader Pattern) : Reader Pattern := do
  let head ← sequence inner
  let tail ← many (do literal "|"; sequence inner)
  pure (if tail.isEmpty then head else .alt (head :: tail))

/-- A pattern with groups nested less than `depth` deep. -/
def pattern : Nat → Reader Pattern
  | 0 => ⟨fun _ => none, fun _ furthest => furthest⟩
  | depth + 1 => alternatives (pattern depth)

end Grammar

namespace Pattern

/-- A bound on the depth of nesting: one more than the opening parentheses. -/
def depthBound (t : Text) : Nat := t.count (unit '(') + 1

/-- The tree of a text, with all groups still numbered zero. -/
def readTree (t : Text) : Except PatternError Pattern := (Grammar.pattern (depthBound t)).readAll t

/-- The pattern that a text spells, with its groups numbered. -/
def read (t : Text) : Except PatternError NumberedPattern := (readTree t).map numbered

end Pattern

end Highlight
