import Highlight.Document.Basic

/-!
# Reading documents

A strict reader of the interchange format: no comments, no trailing commas, no leading zeros, no
bare control units inside quotes, nothing after the document but blanks. Nesting is bounded by the
length of the text, which is the measure the reader recurs on.
-/

namespace Highlight.Document

/-- Without leading blanks: space, tab, line feed, carriage return. -/
def skipBlanks (t : Text) : Text := t.dropWhile fun u => u == 32 || u == 9 || u == 10 || u == 13

/-- The unit that a one-letter escape stands for. -/
def unescape? (u : CodeUnit) : Option CodeUnit :=
  if u = unit '"' then some u
  else if u = unit '\\' then some u
  else if u = unit '/' then some u
  else if u = unit 'b' then some 8
  else if u = unit 'f' then some 12
  else if u = unit 'n' then some 10
  else if u = unit 'r' then some 13
  else if u = unit 't' then some 9
  else none

/-- A text up to its closing quotation mark, and what follows the mark. -/
def readQuoted : Text → Option (Text × Text)
  | [] => none
  | u :: r =>
    if u = unit '"' then some ([], r)
    else if u < 0x20 then none
    else if u = unit '\\' then
      match r with
      | [] => none
      | e :: r =>
        if e = unit 'u' then
          match r with
          | a :: b :: c :: d :: r =>
            if [a, b, c, d].all CodeUnit.isHexDigit then
              (readQuoted r).map fun (t, rest) =>
                ((Text.hexadecimal [a, b, c, d]).toUInt16 :: t, rest)
            else none
          | _ => none
        else match unescape? e with
          | some v => (readQuoted r).map fun (t, rest) => (v :: t, rest)
          | none => none
    else (readQuoted r).map fun (t, rest) => (u :: t, rest)

/-- A run of digits, at least one of them. -/
def readDigits (t : Text) : Option (Text × Text) :=
  match t.takeWhile CodeUnit.isDigit with
  | [] => none
  | ds => some (ds, t.dropWhile CodeUnit.isDigit)

/-- The integer part of a number: one zero, or digits that do not start with one. -/
def readWhole (t : Text) : Option (Text × Text) :=
  match t with
  | u :: r => if u = unit '0' then some ([u], r) else readDigits t
  | [] => none

/-- The part of a number after its point. -/
def readFraction (t : Text) : Option (Text × Text) :=
  match t with
  | u :: r => if u = unit '.' then readDigits r else some ([], t)
  | [] => some ([], [])

/-- The exponent of a number, zero if there is none. -/
def readExponent (t : Text) : Option (Int × Text) :=
  match t with
  | u :: r =>
    if u = unit 'e' || u = unit 'E' then
      match r with
      | s :: r' =>
        if s = unit '-' then (readDigits r').map fun (ds, rest) => (-(Text.decimal ds : Int), rest)
        else if s = unit '+' then (readDigits r').map fun (ds, rest) => (Text.decimal ds, rest)
        else (readDigits r).map fun (ds, rest) => (Text.decimal ds, rest)
      | [] => none
    else some (0, t)
  | [] => some (0, [])

/-- A number and what follows it. -/
def readNumber (t : Text) : Option (Number × Text) := do
  let (negative, t) := match t with
    | u :: r => if u = unit '-' then (true, r) else (false, t)
    | [] => (false, [])
  let (whole, t) ← readWhole t
  let (fraction, t) ← readFraction t
  let (e, t) ← readExponent t
  some (Number.ofDecimal negative (Text.decimal (whole ++ fraction)) (e - fraction.length), t)

/-- What follows a fixed word. -/
def readWord (word : Text) (t : Text) : Option Text :=
  if word.isPrefixOf t then some (t.drop word.length) else none

/-- The items of a list after its opening bracket or a comma, given a reader of one value. -/
def readItems (value : Text → Option (Document × Text)) :
    Nat → Text → Option (List Document × Text)
  | 0, _ => none
  | fuel + 1, t => do
    let (item, t) ← value t
    match skipBlanks t with
    | [] => none
    | u :: r =>
      if u = unit ',' then
        let (items, t) ← readItems value fuel r
        some (item :: items, t)
      else if u = unit ']' then some ([item], r)
      else none

/-- The fields of an object after its opening brace or a comma. -/
def readFields (value : Text → Option (Document × Text)) :
    Nat → Text → Option (List (Text × Document) × Text)
  | 0, _ => none
  | fuel + 1, t => do
    let t ← readWord "\"" (skipBlanks t)
    let (key, t) ← readQuoted t
    let t ← readWord ":" (skipBlanks t)
    let (item, t) ← value t
    match skipBlanks t with
    | [] => none
    | u :: r =>
      if u = unit ',' then
        let (fields, t) ← readFields value fuel r
        some ((key, item) :: fields, t)
      else if u = unit '\x7d' then some ([(key, item)], r)
      else none

/-- A value nested at most `depth` deep, and what follows it. -/
def readValue : Nat → Text → Option (Document × Text)
  | 0, _ => none
  | depth + 1, t =>
    match skipBlanks t with
    | [] => none
    | u :: r =>
      if u = unit '\x7b' then
        match skipBlanks r with
        | [] => none
        | v :: r' =>
          if v = unit '\x7d' then some (object [], r')
          else (readFields (readValue depth) r.length r).map fun (fields, t) => (ofFields fields, t)
      else if u = unit '[' then
        match skipBlanks r with
        | [] => none
        | v :: r' =>
          if v = unit ']' then some (list [], r')
          else (readItems (readValue depth) r.length r).map fun (items, t) => (list items, t)
      else if u = unit '"' then (readQuoted r).map fun (s, t) => (text s, t)
      else if u = unit 't' then (readWord "true" (u :: r)).map fun t => (bool true, t)
      else if u = unit 'f' then (readWord "false" (u :: r)).map fun t => (bool false, t)
      else if u = unit 'n' then (readWord "null" (u :: r)).map fun t => (null, t)
      else (readNumber (u :: r)).map fun (n, t) => (number n, t)

/-- The document that a whole text writes. -/
def read? (t : Text) : Option Document :=
  match readValue (t.length + 1) t with
  | some (document, rest) => if (skipBlanks rest).isEmpty then some document else none
  | none => none

end Highlight.Document
