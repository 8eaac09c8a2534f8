/-!
# Text as 16-bit code units

A text is a list of 16-bit code units. Lengths, offsets, comparison and single-unit classes all
count code units, and a surrogate may stand alone, so the carrier is not `String`: a `String` is
read into a text once, at the edge, and a text is written back once. Searching and replacing are
structural recursions on the list.
-/

namespace Highlight

/-- A 16-bit code unit: a character of the basic plane, or half of a surrogate pair. -/
abbrev CodeUnit := UInt16

/-- A text: its code units in order, with no demand that surrogates are paired. -/
abbrev Text := List CodeUnit

/-- The unit of a character of the basic plane. -/
def unit (c : Char) : CodeUnit := c.toNat.toUInt16

namespace CodeUnit

/-- First half of a surrogate pair. -/
def isLeading (u : CodeUnit) : Bool := 0xD800 ≤ u && u < 0xDC00

/-- Second half of a surrogate pair. -/
def isTrailing (u : CodeUnit) : Bool := 0xDC00 ≤ u && u < 0xE000

/-- Half of a surrogate pair. -/
def isSurrogate (u : CodeUnit) : Bool := 0xD800 ≤ u && u < 0xE000

/-- The code point that a leading and a trailing unit stand for. -/
def pair (leading trailing : CodeUnit) : Nat :=
  0x10000 + (leading.toNat - 0xD800) * 0x400 + (trailing.toNat - 0xDC00)

/-- Bounds included. -/
def isBetween (lo hi : Char) (u : CodeUnit) : Bool := unit lo ≤ u && u ≤ unit hi

def isDigit (u : CodeUnit) : Bool := u.isBetween '0' '9'

def isHexDigit (u : CodeUnit) : Bool := u.isDigit || u.isBetween 'a' 'f' || u.isBetween 'A' 'F'

def isLetter (u : CodeUnit) : Bool := u.isBetween 'a' 'z' || u.isBetween 'A' 'Z'

/-- Letters, digits and the underscore of ASCII. -/
def isWord (u : CodeUnit) : Bool := u.isLetter || u.isDigit || u == unit '_'

/-- Value of a hexadecimal digit; zero for every other unit. -/
def hexValue (u : CodeUnit) : Nat :=
  if u.isDigit then u.toNat - 48
  else if u.isBetween 'a' 'f' then u.toNat - 87
  else if u.isBetween 'A' 'F' then u.toNat - 55
  else 0

end CodeUnit

/-- The code point of a character as one unit, or as a surrogate pair. -/
def CodeUnit.ofScalar (n : Nat) : Text :=
  if n < 0x10000 then [n.toUInt16]
  else [(0xD7C0 + n / 0x400).toUInt16, (0xDC00 + n % 0x400).toUInt16]

namespace Text

/-- The code units of a string. -/
def ofString (s : String) : Text := s.toList.flatMap fun c => CodeUnit.ofScalar c.toNat

instance : Coe String Text := ⟨ofString⟩

/-- Code points of a text: a surrogate pair counts as one, a lone surrogate as itself. -/
def scalars : Text → List Nat
  | [] => []
  | [u] => [u.toNat]
  | u :: v :: r =>
    if u.isLeading && v.isTrailing then CodeUnit.pair u v :: scalars r
    else u.toNat :: scalars (v :: r)

/-- The text of a list of code points. -/
def ofScalars (ns : List Nat) : Text := ns.flatMap CodeUnit.ofScalar

/-- What a lone surrogate becomes when a text leaves for a file. -/
def replacement : CodeUnit := 0xFFFD

/-- Lone surrogates replaced, so that the text can be encoded. -/
def wellFormed (t : Text) : Text :=
  ofScalars (t.scalars.map fun n => if 0xD800 ≤ n ∧ n < 0xE000 then replacement.toNat else n)

/-- Bytes of a code point in the encoding of files. -/
def scalarSize (n : Nat) : Nat :=
  if n < 0x80 then 1 else if n < 0x800 then 2 else if n < 0x10000 then 3 else 4

/-- Bytes of a text in the encoding of files. -/
def encodedSize (t : Text) : Nat := t.scalars.foldl (fun size n => size + scalarSize n) 0

/-- The string of a text, with lone surrogates replaced. -/
def toString (t : Text) : String := String.ofList (t.wellFormed.scalars.map Char.ofNat)

/-- The offset of the first occurrence of `needle`. -/
def indexOf? (needle : Text) : Text → Option Nat
  | [] => if needle.isEmpty then some 0 else none
  | u :: r => if needle.isPrefixOf (u :: r) then some 0 else (indexOf? needle r).map (· + 1)

/-- Some part of the text is `needle`. -/
def includes (t needle : Text) : Bool := (indexOf? needle t).isSome

/-- `replaceFrom old new k t` drops the `k` units left over from an occurrence, then replaces. -/
def replaceFrom (old new : Text) : Nat → Text → Text
  | _, [] => []
  | k + 1, _ :: r => replaceFrom old new k r
  | 0, u :: r =>
    if old.isPrefixOf (u :: r) then new ++ replaceFrom old new (old.length - 1) r
    else u :: replaceFrom old new 0 r

/-- Every occurrence of the non-empty `old`, leftmost first and without overlap, becomes `new`. -/
def replace (old new t : Text) : Text := replaceFrom old new 0 t

/-- The pieces between the units equal to `sep`; never empty. -/
def splitAt (sep : CodeUnit) : Text → List Text
  | [] => [[]]
  | u :: r =>
    if u = sep then [] :: splitAt sep r
    else match splitAt sep r with
      | [] => [[u]]
      | piece :: pieces => (u :: piece) :: pieces

/-- The part after the last unit equal to `sep`, or the whole text. -/
def afterLast (sep : CodeUnit) (t : Text) : Text :=
  (t.reverse.takeWhile (· ≠ sep)).reverse

/-- The part before the last unit equal to `sep`, if there is one. -/
def beforeLast? (sep : CodeUnit) (t : Text) : Option Text :=
  match t.reverse.dropWhile (· ≠ sep) with
  | [] => none
  | _ :: r => some r.reverse

/-- `count` copies of one unit. -/
def fill (count : Nat) (u : CodeUnit) : Text := List.replicate count u

/-- Texts one after the other, with `sep` between neighbours. -/
def join (sep : Text) (ts : List Text) : Text := sep.intercalate ts

/-- Texts as lines: each but the last is followed by a line feed. -/
def lines (ts : List Text) : Text := join "\n" ts

/-- The first text comes no later than the second in the order of code units. -/
def le (s t : Text) : Bool := decide ¬ t < s

/-- Texts in the order of their code units. -/
def sort (ts : List Text) : List Text := ts.mergeSort le

/-- Decimal digits of a natural number. -/
def ofNat (n : Nat) : Text := (Nat.toDigits 10 n).map unit

/-- The number that a text of decimal digits denotes. -/
def decimal (t : Text) : Nat := t.foldl (fun n u => n * 10 + (u.toNat - 48)) 0

/-- The number that a text of hexadecimal digits denotes. -/
def hexadecimal (t : Text) : Nat := t.foldl (fun n u => n * 16 + u.hexValue) 0

/-- Lower-case hexadecimal digits of `n`, at least `width` of them. -/
def ofHex (width n : Nat) : Text :=
  let digits := (Nat.toDigits 16 n).map unit
  fill (width - digits.length) (unit '0') ++ digits

/-- Upper-case hexadecimal digits of `n`, at least `width` of them. -/
def ofHexUpper (width n : Nat) : Text :=
  (ofHex width n).map fun u => if u.isBetween 'a' 'f' then u - 32 else u

end Text

end Highlight
