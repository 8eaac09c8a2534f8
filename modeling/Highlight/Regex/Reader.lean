import Highlight.Regex.Basic
import Highlight.Regex.Name

/-!
# Reading regular expressions

The lenient notation of regular expressions: braces that form no quantifier and closing brackets
stand for themselves, a number that refers to no group is an octal escape, and unknown escapes
stand for their letter. The reader fails where the notation has no meaning at all. Nesting is
bounded by the opening parentheses, and every other loop by the length of the text.
-/

namespace Highlight.Regex

/-- What a reference can point at: the names of the capturing groups, in order. -/
abbrev Groups := List (Option Text)

namespace Groups

/-- Some group has a name, so that the letter `k` refers to names. -/
def named (groups : Groups) : Bool := groups.any Option.isSome

/-- The number of the group of a name. -/
def index? (groups : Groups) (name : Text) : Option Nat :=
  (groups.findIdx? (· = some name)).map (· + 1)

/-- No name stands for two groups. -/
def distinct : Groups → Bool
  | [] => true
  | none :: rest => distinct rest
  | some name :: rest => !rest.contains (some name) && distinct rest

end Groups

/-- The greatest count of a quantifier; greater ones are cut to it. -/
def greatestCount : Nat := 2147483647

/-- A quantifier. -/
structure Quantifier where
  least : Nat
  most : Option Nat
  greedy : Bool

/-- A count in a quantifier. -/
def readCount (t : Text) : Option (Nat × Text) :=
  match t.takeWhile CodeUnit.isDigit with
  | [] => none
  | digits => some (min (Text.decimal digits) greatestCount, t.dropWhile CodeUnit.isDigit)

/-- The bounds between braces after the opening one, if the text goes on with such bounds. -/
def readBounds (t : Text) : Option ((Nat × Option Nat) × Text) := do
  let (least, t) ← readCount t
  match t with
  | [] => none
  | u :: r =>
    if u = unit '\x7d' then some ((least, some least), r)
    else if u = unit ',' then
      match r with
      | [] => none
      | v :: r' =>
        if v = unit '\x7d' then some ((least, none), r')
        else do
          let (most, t) ← readCount r
          match t with
          | w :: rest => if w = unit '\x7d' then some ((least, some most), rest) else none
          | [] => none
    else none

/-- The bounds of a quantifier, if one stands at the front. -/
def quantifierBounds (t : Text) : Option ((Nat × Option Nat) × Text) :=
  match t with
  | [] => none
  | u :: r =>
    if u = unit '*' then some ((0, none), r)
    else if u = unit '+' then some ((1, none), r)
    else if u = unit '?' then some ((0, some 1), r)
    else if u = unit '\x7b' then readBounds r
    else none

/-- The quantifier at the front, if there is one; fails if its bounds are out of order. -/
def readQuantifier (t : Text) : Option (Option Quantifier × Text) :=
  match quantifierBounds t with
  | none => some (none, t)
  | some ((least, most), rest) =>
    if most.any (· < least) then none
    else match rest with
      | u :: r =>
        if u = unit '?' then some (some ⟨least, most, false⟩, r)
        else some (some ⟨least, most, true⟩, rest)
      | [] => some (some ⟨least, most, true⟩, [])

/-- An expression with the quantifier that follows it. -/
def quantify (e : Regex) (t : Text) : Option (Regex × Text) := do
  let (quantifier, rest) ← readQuantifier t
  match quantifier with
  | none => some (e, rest)
  | some q => some (repeated e q.least q.most q.greedy, rest)

/-- The ranges of a class letter. -/
def classRanges? (letter : CodeUnit) : Option (List (CodeUnit × CodeUnit)) :=
  if letter = unit 'd' then some UnitSet.digits
  else if letter = unit 'D' then some (UnitSet.complement UnitSet.digits)
  else if letter = unit 'w' then some UnitSet.wordUnits
  else if letter = unit 'W' then some (UnitSet.complement UnitSet.wordUnits)
  else if letter = unit 's' then some UnitSet.blanks
  else if letter = unit 'S' then some (UnitSet.complement UnitSet.blanks)
  else none

def isOctal (u : CodeUnit) : Bool := u.isBetween '0' '7'

/-- Up to three octal digits with a value below 256. -/
def readOctal (t : Text) : Nat × Text :=
  let digits := (t.take 3).takeWhile isOctal
  let value (ds : Text) : Nat := ds.foldl (fun n u => n * 8 + u.hexValue) 0
  let digits := if value digits < 256 then digits else digits.take 2
  (value digits, t.drop digits.length)

/-- A given count of hexadecimal digits. -/
def readHex (count : Nat) (t : Text) : Option (CodeUnit × Text) :=
  if count ≤ t.length ∧ (t.take count).all CodeUnit.isHexDigit then
    some ((Text.hexadecimal (t.take count)).toUInt16, t.drop count)
  else none

/-- The unit that an escape stands for, given the text after its backslash. An escaped `c` without
a letter to control is a backslash before an ordinary `c`. -/
def readUnitEscape (groups : Groups) (inSet : Bool) (t : Text) : Option (CodeUnit × Text) :=
  match t with
  | [] => none
  | u :: r =>
    if u = unit 'f' then some (12, r)
    else if u = unit 'n' then some (10, r)
    else if u = unit 'r' then some (13, r)
    else if u = unit 't' then some (9, r)
    else if u = unit 'v' then some (11, r)
    else if isOctal u then
      let (value, rest) := readOctal t
      some (value.toUInt16, rest)
    else if u = unit 'c' then
      match r with
      | v :: rest =>
        if v.isLetter || (inSet && (v.isDigit || v = unit '_')) then
          some ((v.toNat % 32).toUInt16, rest)
        else some (unit '\\', t)
      | [] => some (unit '\\', t)
    else if u = unit 'x' then some ((readHex 2 r).getD (u, r))
    else if u = unit 'u' then some ((readHex 4 r).getD (u, r))
    else if u = unit 'k' && groups.named then none
    else some (u, r)

/-- One item of a bracketed set: a unit, or the ranges of a class letter. -/
def readSetAtom (groups : Groups) (t : Text) :
    Option ((CodeUnit ⊕ List (CodeUnit × CodeUnit)) × Text) :=
  match t with
  | [] => none
  | u :: r =>
    if u ≠ unit '\\' then some (.inl u, r)
    else match r with
      | [] => none
      | letter :: rest =>
        match classRanges? letter with
        | some ranges => some (.inr ranges, rest)
        | none =>
          if letter = unit 'b' then some (.inl 8, rest)
          else (readUnitEscape groups true r).map fun (u, rest) => (.inl u, rest)

/-- The ranges that an item contributes. -/
def atomRanges : CodeUnit ⊕ List (CodeUnit × CodeUnit) → List (CodeUnit × CodeUnit)
  | .inl u => [(u, u)]
  | .inr ranges => ranges

/-- The ranges of a bracketed set up to its closing bracket. -/
def readRanges (groups : Groups) : Nat → Text → Option (List (CodeUnit × CodeUnit) × Text)
  | 0, _ => none
  | fuel + 1, t =>
    match t with
    | [] => none
    | u :: r =>
      if u = unit ']' then some ([], r)
      else do
        let (first, t) ← readSetAtom groups t
        match t with
        | [] => none
        | dash :: r =>
          if dash ≠ unit '-' then
            let (ranges, t) ← readRanges groups fuel t
            some (atomRanges first ++ ranges, t)
          else if r.head? = some (unit ']') then
            some (atomRanges first ++ [(dash, dash)], r.drop 1)
          else
            let (second, t) ← readSetAtom groups r
            let (ranges, t) ← readRanges groups fuel t
            match first, second with
            | .inl lo, .inl hi => if hi < lo then none else some ((lo, hi) :: ranges, t)
            | _, _ => some (atomRanges first ++ (dash, dash) :: atomRanges second ++ ranges, t)

/-- A bracketed set after its opening bracket. -/
def readSet (groups : Groups) (t : Text) : Option (Regex × Text) := do
  let negated := t.head? = some (unit '^')
  let (ranges, rest) ← readRanges groups (t.length + 1) (if negated then t.drop 1 else t)
  some (set ⟨negated, ranges⟩, rest)

/-- A reference or an octal escape, given the text from its first digit on. -/
def readDigits (groups : Groups) (t : Text) : Option (Regex × Text) :=
  let digits := t.takeWhile CodeUnit.isDigit
  let n := Text.decimal digits
  if n ≠ 0 ∧ t.head? ≠ some (unit '0') ∧ n ≤ groups.length then
    quantify (backref n) (t.drop digits.length)
  else do
    let (u, rest) ← readUnitEscape groups false t
    quantify (set (.single u)) rest

/-- An escape outside brackets, given the text after its backslash. -/
def readEscape (groups : Groups) (t : Text) : Option (Regex × Text) :=
  match t with
  | [] => none
  | u :: r =>
    if u = unit 'b' then some (boundary false, r)
    else if u = unit 'B' then some (boundary true, r)
    else match classRanges? u with
      | some ranges => quantify (set ⟨false, ranges⟩) r
      | none =>
        if u.isDigit then readDigits groups t
        else if u = unit 'k' && groups.named then
          match r with
          | v :: r =>
            if v = unit '<' then do
              let (name, rest) ← readName r
              let index ← groups.index? name
              quantify (backref index) rest
            else none
          | [] => none
        else do
          let (u, rest) ← readUnitEscape groups false t
          quantify (set (.single u)) rest

/-- The inside of a group up to its closing parenthesis, given the reader of expressions. -/
def readInside (inner : Text → Option (Regex × Text)) (t : Text) : Option (Regex × Text) := do
  let (e, t) ← inner t
  match t with
  | u :: r => if u = unit ')' then some (e, r) else none
  | [] => none

/-- A lookaround; only one that looks ahead can be quantified. -/
def readLook (inner : Text → Option (Regex × Text)) (behind negated : Bool) (t : Text) :
    Option (Regex × Text) := do
  let (e, rest) ← readInside inner t
  if behind then some (look behind negated e, rest) else quantify (look behind negated e) rest

/-- A group after its opening parenthesis. -/
def readGroup (inner : Text → Option (Regex × Text)) (t : Text) : Option (Regex × Text) :=
  let after (opening : Text) : Option Text :=
    if opening.isPrefixOf t then some (t.drop opening.length) else none
  match after "?:", after "?=", after "?!", after "?<=", after "?<!", after "?<", after "?" with
  | some r, _, _, _, _, _, _ => do
    let (e, rest) ← readInside inner r
    quantify e rest
  | _, some r, _, _, _, _, _ => readLook inner false false r
  | _, _, some r, _, _, _, _ => readLook inner false true r
  | _, _, _, some r, _, _, _ => readLook inner true false r
  | _, _, _, _, some r, _, _ => readLook inner true true r
  | _, _, _, _, _, some r, _ => do
    let (_, r) ← readName r
    let (e, rest) ← readInside inner r
    quantify (capture 0 e) rest
  | _, _, _, _, _, _, some _ => none
  | _, _, _, _, _, _, none => do
    let (e, rest) ← readInside inner t
    quantify (capture 0 e) rest

/-- One term with its quantifier, given a text that goes on with a term. -/
def readTerm (groups : Groups) (inner : Text → Option (Regex × Text)) (t : Text) :
    Option (Regex × Text) :=
  match t with
  | [] => none
  | u :: r =>
    if u = unit '^' then some (lineStart, r)
    else if u = unit '$' then some (lineEnd, r)
    else if u = unit '(' then readGroup inner r
    else if u = unit '.' then quantify (set ⟨true, UnitSet.lineEnds⟩) r
    else if u = unit '[' then do
      let (e, rest) ← readSet groups r
      quantify e rest
    else if u = unit '\\' then readEscape groups r
    else if (quantifierBounds t).isSome then none
    else quantify (set (.single u)) r

/-- Terms one after the other, up to a bar, a closing parenthesis or the end. -/
def readTerms (groups : Groups) (inner : Text → Option (Regex × Text)) :
    Nat → Text → Option (Regex × Text)
  | 0, _ => none
  | fuel + 1, t =>
    match t with
    | [] => some (empty, [])
    | u :: _ =>
      if u = unit '|' ∨ u = unit ')' then some (empty, t)
      else do
        let (a, t) ← readTerm groups inner t
        let (b, t) ← readTerms groups inner fuel t
        some (seq a b, t)

/-- Alternatives, up to a closing parenthesis or the end. -/
def readAlternatives (groups : Groups) (inner : Text → Option (Regex × Text)) :
    Nat → Text → Option (Regex × Text)
  | 0, _ => none
  | fuel + 1, t => do
    let (a, t) ← readTerms groups inner (t.length + 1) t
    match t with
    | [] => some (a, [])
    | u :: r =>
      if u = unit '|' then
        let (b, t) ← readAlternatives groups inner fuel r
        some (alt a b, t)
      else some (a, t)

/-- Expressions with groups nested less than `depth` deep. -/
def readNested (groups : Groups) : Nat → Text → Option (Regex × Text)
  | 0, _ => none
  | depth + 1, t => readAlternatives groups (readNested groups depth) (t.length + 1) t

/-- The expression of a source, where references may point at the given groups. -/
def readWith? (groups : Groups) (source : Text) : Option Regex :=
  match readNested groups (source.count (unit '(') + 1) source with
  | some (e, []) => some (e.number 0).1
  | _ => none

/-- The expression of a source that stands alone. -/
def read? (source : Text) : Option Regex :=
  let groups : Groups := groupNames source
  if groups.distinct then readWith? groups source else none

end Highlight.Regex
