import Highlight.Document.Basic

/-!
# Writing documents

Documents in the notation of the interchange format, either without any blanks or with one item or
field a line. Quotation marks, backslashes and control units are escaped, and so are lone
surrogates, which keeps the written text encodable.
-/

namespace Highlight.Document

/-- The escape of a unit that may not stand in a quoted text. -/
def escape (u : CodeUnit) : Text :=
  if u = unit '"' then "\\\""
  else if u = unit '\\' then "\\\\"
  else if u = 8 then "\\b"
  else if u = 12 then "\\f"
  else if u = 10 then "\\n"
  else if u = 13 then "\\r"
  else if u = 9 then "\\t"
  else "\\u" ++ Text.ofHex 4 u.toNat

/-- The units of a quoted text with their escapes. -/
def escaped : Text → Text
  | [] => []
  | [u] =>
    if u < 0x20 || u = unit '"' || u = unit '\\' || u.isSurrogate then escape u else [u]
  | u :: v :: r =>
    if u.isLeading && v.isTrailing then u :: v :: escaped r
    else if u < 0x20 || u = unit '"' || u = unit '\\' || u.isSurrogate then
      escape u ++ escaped (v :: r)
    else u :: escaped (v :: r)

/-- A text between quotation marks. -/
def quoted (t : Text) : Text := "\"" ++ escaped t ++ "\""

/-- A number, or null for an infinity, which the format cannot write. -/
def numeral (n : Number) : Text :=
  match n with
  | .infinite _ => "null"
  | n => n.toText

/-- Between brackets, with commas and no blanks. -/
def enclosed (opening closing : Text) (parts : List Text) : Text :=
  opening ++ Text.join "," parts ++ closing

mutual

/-- A document without blanks. -/
def print : Document → Text
  | null => "null"
  | bool b => if b then "true" else "false"
  | number n => numeral n
  | text t => quoted t
  | list items => enclosed "[" "]" (printItems items)
  | object fields => enclosed "\x7b" "\x7d" (printFields fields)

def printItems : List Document → List Text
  | [] => []
  | item :: rest => print item :: printItems rest

def printFields : List (Text × Document) → List Text
  | [] => []
  | (key, value) :: rest => (quoted key ++ ":" ++ print value) :: printFields rest

end

/-- Between brackets, one part a line and two blanks deeper than the brackets. -/
def block (opening closing : Text) (level : Nat) (parts : List Text) : Text :=
  if parts.isEmpty then opening ++ closing
  else
    let margin (n : Nat) : Text := "\n" ++ Text.fill (2 * n) (unit ' ')
    opening ++ margin (level + 1) ++ Text.join ("," ++ margin (level + 1)) parts ++
      margin level ++ closing

mutual

/-- A document with one item or field a line, starting at an indentation level. -/
def printIndented (level : Nat) : Document → Text
  | list items => block "[" "]" level (printIndentedItems (level + 1) items)
  | object fields => block "\x7b" "\x7d" level (printIndentedFields (level + 1) fields)
  | null => "null"
  | bool b => if b then "true" else "false"
  | number n => numeral n
  | text t => quoted t

def printIndentedItems (level : Nat) : List Document → List Text
  | [] => []
  | item :: rest => printIndented level item :: printIndentedItems level rest

def printIndentedFields (level : Nat) : List (Text × Document) → List Text
  | [] => []
  | (key, value) :: rest =>
    (quoted key ++ ": " ++ printIndented level value) :: printIndentedFields level rest

end

end Highlight.Document
