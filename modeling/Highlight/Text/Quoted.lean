import Highlight.Text.Basic

/-!
# Quoted text

A text between quotes, as a message shows a value that was refused. Single quotes are used, or
where the text holds some, double quotes, or else backquotes; if the text holds all three, its
single quotes are escaped. Control units, backslashes and lone surrogates are always escaped. A text
that is too long for one line is shown as the sum of its lines.
-/

namespace Highlight.Text

/-- The quote for a text. -/
def quoteFor (t : Text) : CodeUnit :=
  if !t.contains (unit '\'') then unit '\''
  else if !t.contains (unit '"') then unit '"'
  else if !t.contains 0x60 && !t.includes "$\x7b" then 0x60
  else unit '\''

/-- The escape of a control unit, a quote or a backslash. -/
def quotedEscape (u : CodeUnit) : Text :=
  if u = 8 then "\\b"
  else if u = 9 then "\\t"
  else if u = 10 then "\\n"
  else if u = 12 then "\\f"
  else if u = 13 then "\\r"
  else if u < 0x20 || 0x7F ≤ u then "\\x" ++ ofHexUpper 2 u.toNat
  else [unit '\\', u]

/-- The unit has to be escaped between the given quotes, whatever stands beside it. -/
def needsEscape (quote u : CodeUnit) : Bool :=
  u < 0x20 || (0x7F ≤ u && u < 0xA0) || u == unit '\\' || (u == quote && u == unit '\'')

/-- A code point between quotes. -/
def quotedScalar (quote : CodeUnit) (n : Nat) : Text :=
  if 0xD800 ≤ n ∧ n < 0xE000 then "\\u" ++ ofHex 4 n
  else if n < 0x100 && needsEscape quote n.toUInt16 then quotedEscape n.toUInt16
  else CodeUnit.ofScalar n

/-- A text between quotes, on one line. -/
def quotedLine (t : Text) : Text :=
  let quote := quoteFor t
  quote :: t.scalars.flatMap (quotedScalar quote) ++ [quote]

/-- The lines of a text, each with the line feed that ends it. -/
def wholeLines : Text → List Text
  | [] => []
  | u :: r =>
    if u = 10 then [u] :: wholeLines r
    else match wholeLines r with
      | [] => [[u]]
      | line :: lines => (u :: line) :: lines

/-- The most units that are shown on one line. -/
def quotedWidth : Nat := 124

/-- A text between quotes, its lines one below the other if it is long. -/
def quoted (t : Text) : Text :=
  if t.length ≤ quotedWidth then quotedLine t
  else join " +\n  " ((wholeLines t).map quotedLine)

/-- The start of a text of more units than a limit, with three dots for the rest. -/
def shortened (limit : Nat) (t : Text) : Text :=
  if t.length ≤ limit then t else t.take limit ++ "..."

end Highlight.Text
