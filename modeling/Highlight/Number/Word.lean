import Highlight.Text.Blank
import Highlight.Number.Basic

/-!
# Numbers written as one word

The numeric value of a word given where a number is expected: blanks around it do not count, the
empty word is zero, and a word may be a decimal with an optional exponent, an infinity, or digits
in base 16, 8 or 2 behind `0x`, `0o` or `0b`.
-/

namespace Highlight.Number

/-- Value of a digit in bases up to 16. -/
def digitValue? (base : Nat) (u : CodeUnit) : Option Nat :=
  if u.isHexDigit && u.hexValue < base then some u.hexValue else none

/-- A non-empty run of digits in the given base. -/
def inBase? (base : Nat) (t : Text) : Option Number :=
  if t.isEmpty then none
  else (t.mapM (digitValue? base)).map fun ds =>
    ofNat (ds.foldl (fun n d => n * base + d) 0)

/-- Whether a minus sign leads the text, and what follows an optional sign. -/
def splitSign : Text → Bool × Text
  | [] => (false, [])
  | u :: r =>
    if u = unit '-' then (true, r) else if u = unit '+' then (false, r) else (false, u :: r)

/-- A signed exponent: digits with an optional sign. -/
def exponent? (t : Text) : Option Int :=
  let (negative, ds) := splitSign t
  if ds.isEmpty || !ds.all CodeUnit.isDigit then none
  else some (if negative then -(Text.decimal ds : Int) else Text.decimal ds)

/-- An unsigned decimal: digits with an optional point among or beside them, and an optional
exponent. -/
def unsigned? (negative : Bool) (t : Text) : Option Number :=
  let isMark (u : CodeUnit) : Bool := u = unit 'e' || u = unit 'E'
  let mantissa := t.takeWhile fun u => !isMark u
  let power := match t.dropWhile fun u => !isMark u with
    | [] => some 0
    | _ :: r => exponent? r
  let whole := mantissa.takeWhile CodeUnit.isDigit
  let fraction? := match mantissa.dropWhile CodeUnit.isDigit with
    | [] => some []
    | u :: r => if u = unit '.' && r.all CodeUnit.isDigit then some r else none
  match power, fraction? with
  | some e, some fraction =>
    if whole.isEmpty && fraction.isEmpty then none
    else some (ofDecimal negative (Text.decimal (whole ++ fraction)) (e - fraction.length))
  | _, _ => none

/-- A decimal or an infinity, with an optional sign. -/
def signed? (t : Text) : Option Number :=
  let (negative, r) := splitSign t
  if r = Text.ofString "Infinity" then some (infinite negative) else unsigned? negative r

/-- The value of a word, if it is one of a number. -/
def ofWord? (word : Text) : Option Number :=
  match Text.trim word with
  | [] => some (finite 0 0)
  | t@(zero :: mark :: r) =>
    if zero ≠ unit '0' then signed? t
    else if mark = unit 'x' || mark = unit 'X' then inBase? 16 r
    else if mark = unit 'o' || mark = unit 'O' then inBase? 8 r
    else if mark = unit 'b' || mark = unit 'B' then inBase? 2 r
    else signed? t
  | t => signed? t

end Highlight.Number
