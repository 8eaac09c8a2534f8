import Highlight.Text.Basic

/-!
# What a reader of patterns expected

The terminals of the pattern grammar, described as an error message shows them, and the error for
a text that is no pattern: it lists every terminal that was tried in vain at the furthest place
where one was.
-/

namespace Highlight

/-- The classes of single units in the pattern grammar. -/
inductive UnitClass where
  | digit | positiveDigit | hexDigit | nameStart | nameRest
  /-- The letters of the named classes. -/
  | classLetter
  /-- The letters of the anchors. -/
  | anchorLetter
  /-- The letters of inline flags, without and with the minus sign. -/
  | flag | flagOrMinus
  /-- Units that may stand for themselves outside brackets. -/
  | plain
  /-- Units that may stand for themselves inside brackets. -/
  | bracketed
  /-- Units of a comment. -/
  | commented
  deriving DecidableEq, Repr

namespace UnitClass

/-- The units of a class given by listing them. -/
def oneOf (members : Text) (u : CodeUnit) : Bool := members.contains u

/-- Membership in a class. -/
def holds : UnitClass → CodeUnit → Bool
  | digit, u => u.isDigit
  | positiveDigit, u => u.isBetween '1' '9'
  | hexDigit, u => u.isHexDigit
  | nameStart, u => u.isLetter || u == unit '_'
  | nameRest, u => u.isWord
  | classLetter, u => oneOf "dwsDWS" u
  | anchorLetter, u => oneOf "bBAZzG" u
  | flag, u => oneOf "aiLmsux" u
  | flagOrMinus, u => oneOf "aiLmsux-" u
  | plain, u => !oneOf "|()\\[.^$*+?" u
  | bracketed, u => !oneOf "]\\" u
  | commented, u => !oneOf ")" u

/-- The class as a message shows it. -/
def description : UnitClass → Text
  | digit => "[0-9]"
  | positiveDigit => "[1-9]"
  | hexDigit => "[0-9a-fA-F]"
  | nameStart => "[A-Za-z_]"
  | nameRest => "[A-Za-z0-9_]"
  | classLetter => "[dwsDWS]"
  | anchorLetter => "[bBAZzG]"
  | flag => "[aiLmsux]"
  | flagOrMinus => "[aiLmsux\\-]"
  | plain => "[^|()\\\\[.\\^$*+?]"
  | bracketed => "[^\\]\\\\]"
  | commented => "[^)]"

end UnitClass

/-- Something a reader of patterns looked for. -/
inductive Expectation where
  | literal (text : Text)
  | units (members : UnitClass)
  | any
  | endOfInput
  deriving DecidableEq, Repr

namespace Expectation

/-- A unit inside quotation marks. -/
def escape (u : CodeUnit) : Text :=
  if u = unit '\\' then "\\\\"
  else if u = unit '"' then "\\\""
  else if u = 0 then "\\0"
  else if u = 9 then "\\t"
  else if u = 10 then "\\n"
  else if u = 13 then "\\r"
  else if u < 0x20 || (0x7F ≤ u && u ≤ 0x9F) then "\\x" ++ Text.ofHexUpper 2 u.toNat
  else [u]

/-- A text between quotation marks. -/
def quoted (t : Text) : Text := "\"" ++ t.flatMap escape ++ "\""

/-- The expectation as a message shows it. -/
def description : Expectation → Text
  | literal text => quoted text
  | units members => members.description
  | any => "any character"
  | endOfInput => "end of input"

/-- Sorted texts with neighbours that are equal merged. -/
def dropRepeats : List Text → List Text
  | [] => []
  | [t] => [t]
  | s :: t :: rest => if s = t then dropRepeats (t :: rest) else s :: dropRepeats (t :: rest)

/-- A list in words: `a`, `a or b`, `a, b, or c`. -/
def enumeration : List Text → Text
  | [] => []
  | [a] => a
  | [a, b] => a ++ " or " ++ b
  | ts => Text.join ", " ts.dropLast ++ ", or " ++ ts.getLastD []

end Expectation

/-- A place in a text: offset from zero, line and column from one. -/
structure Place where
  offset : Nat
  line : Nat
  column : Nat
  deriving DecidableEq, Repr

/-- The place at an offset; only a line feed starts a line. -/
def Place.at (t : Text) (offset : Nat) : Place :=
  let before := t.take offset
  ⟨offset, before.count 10 + 1, (before.reverse.takeWhile (· ≠ 10)).length + 1⟩

/-- A text is no pattern: nothing that was expected stands at `offset`. -/
structure PatternError where
  input : Text
  offset : Nat
  expected : List Expectation
  deriving Repr

namespace PatternError

/-- The unit that stands where something else was expected, if the text goes on there. -/
def found (e : PatternError) : Option CodeUnit := e.input[e.offset]?

/-- Where the unexpected unit starts. -/
def start (e : PatternError) : Place := .at e.input e.offset

/-- Where it ends; at the end of the text it has no extent. -/
def stop (e : PatternError) : Place :=
  .at e.input (if e.offset < e.input.length then e.offset + 1 else e.offset)

def message (e : PatternError) : Text :=
  let descriptions :=
    Expectation.dropRepeats (Text.sort (e.expected.map Expectation.description))
  let found : Text := match e.found with
    | some u => Expectation.quoted [u]
    | none => "end of input"
  "Expected " ++ Expectation.enumeration descriptions ++ " but " ++ found ++ " found."

end PatternError

end Highlight
