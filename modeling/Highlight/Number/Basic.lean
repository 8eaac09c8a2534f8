import Highlight.Text.Basic

/-!
# Binary numbers of 64 bits

The numbers of documents and of command-line words. A finite number is held exactly, as an
integer over a power of two; `ofRatio` rounds a quotient of naturals to the nearest of them, the
even one on a tie. Positive and negative zero are one number, since no text tells them apart, and
there is no value for "not a number": readers answer `none` instead. Sums and products are rounded
like every other result.
-/

namespace Highlight

/-- A binary number of 64 bits. A finite one made by `ofRatio` is in lowest terms. -/
inductive Number where
  /-- The number `numerator / 2 ^ scale`. -/
  | finite (numerator : Int) (scale : Nat)
  | infinite (negative : Bool)
  deriving DecidableEq, Repr, Inhabited

namespace Number

/-- Lowest terms of `numerator / 2 ^ scale`. -/
def reduce (numerator : Int) : Nat → Number
  | 0 => finite numerator 0
  | scale + 1 =>
    if numerator % 2 = 0 then reduce (numerator / 2) scale else finite numerator (scale + 1)

/-- The quotient to the nearest integer; half-way cases go to the even one. -/
def nearest (num den : Nat) : Nat :=
  let q := num / den
  let twice := 2 * (num % den)
  if twice < den then q else if den < twice then q + 1 else q + q % 2

/-- `num / den` times a power of two, as a quotient of naturals. -/
def shifted (num den : Nat) : Int → Nat × Nat
  | .ofNat k => (num * Nat.pow 2 k, den)
  | .negSucc k => (num, den * Nat.pow 2 (k + 1))

/-- The integer part of the binary logarithm of `num / den`, both positive. -/
def binaryExponent (num den : Nat) : Int :=
  let guess : Int := num.log2 - den.log2
  let (n, d) := shifted num den (-guess)
  if d ≤ n then guess else guess - 1

/-- A 64-bit number has 53 binary places, the last no finer than `2 ^ -1074`. -/
def unitExponent (num den : Nat) : Int := max (binaryExponent num den - 52) (-1074)

/-- The number nearest to `num / den`, with the even mantissa on a tie. -/
def ofRatio (negative : Bool) (num den : Nat) : Number :=
  if num = 0 then finite 0 0
  else
    let unit := unitExponent num den
    let (n, d) := shifted num den (-unit)
    let mantissa := nearest n d
    let sign : Int := if negative then -1 else 1
    match unit with
    | .ofNat k =>
      let magnitude := mantissa * Nat.pow 2 k
      if Nat.pow 2 1024 ≤ magnitude then infinite negative
      else finite (sign * (magnitude : Int)) 0
    | .negSucc k => reduce (sign * (mantissa : Int)) (k + 1)

/-- An integer as it is, which is a 64-bit number as long as it has at most 53 binary places. -/
def integer (i : Int) : Number := finite i 0

/-- The number nearest to an integer. -/
def ofInt (i : Int) : Number := ofRatio (decide (i < 0)) i.natAbs 1

/-- The number nearest to a natural number. -/
def ofNat (n : Nat) : Number := ofRatio false n 1

/-- The number nearest to `digits * 10 ^ exponent`. Exponents far outside the range of the
format are answered without computing the power. -/
def ofDecimal (negative : Bool) (digits : Nat) (exponent : Int) : Number :=
  if digits = 0 then finite 0 0
  else
    let magnitude := exponent + (Nat.toDigits 10 digits).length
    if magnitude > 400 then infinite negative
    else if magnitude < -400 then finite 0 0
    else match exponent with
      | .ofNat k => ofRatio negative (digits * Nat.pow 10 k) 1
      | .negSucc k => ofRatio negative digits (Nat.pow 10 (k + 1))

def isInteger : Number → Bool
  | finite _ scale => scale == 0
  | infinite _ => false

def isFinite : Number → Bool
  | finite .. => true
  | infinite _ => false

/-- Greatest integer that is not above a finite number. -/
def floor? : Number → Option Int
  | finite n scale => some (n / (Nat.pow 2 scale : Nat))
  | infinite _ => none

/-- A natural number that is above every finite 64-bit number. -/
def boundless : Nat := Nat.pow 2 1024

/-- The greatest natural number that is not above a number, zero below zero. -/
def floorNat : Number → Nat
  | finite n scale => (n / (Nat.pow 2 scale : Nat)).toNat
  | infinite negative => if negative then 0 else boundless

/-- The least natural number that is not below a number. -/
def ceilNat : Number → Nat
  | finite n scale => (-(-n / (Nat.pow 2 scale : Nat))).toNat
  | infinite negative => if negative then 0 else boundless

/-- The order of numbers. -/
def lt : Number → Number → Bool
  | finite m s, finite n t => decide (m * (Nat.pow 2 t : Nat) < n * (Nat.pow 2 s : Nat))
  | finite _ _, infinite negative => !negative
  | infinite negative, finite _ _ => negative
  | infinite a, infinite b => a && !b

/-- How often a text can be repeated: the integers below this. -/
def countBound : Nat := 0x10000000

/-- The number counts something once its fraction is cut off. -/
def isCount (n : Number) : Bool := (integer (-1)).lt n && n.lt (integer countBound)

/-! ## Arithmetic -/

/-- The number nearest to `numerator / 2 ^ scale`. An integer of at most 53 binary places is a
number itself. -/
def ofDyadic (numerator : Int) (scale : Nat) : Number :=
  if scale = 0 && numerator.natAbs < 0x20000000000000 then integer numerator
  else ofRatio (decide (numerator < 0)) numerator.natAbs (Nat.pow 2 scale)

def negated : Number → Number
  | finite n scale => finite (-n) scale
  | infinite negative => infinite !negative

/-- The sum. Of two infinite numbers the first counts. -/
def plus : Number → Number → Number
  | finite m s, finite n t =>
    ofDyadic (m * (Nat.pow 2 t : Nat) + n * (Nat.pow 2 s : Nat)) (s + t)
  | finite _ _, infinite negative => infinite negative
  | infinite negative, _ => infinite negative

def minus (a b : Number) : Number := a.plus b.negated

/-- The product. Zero times anything is zero. -/
def times : Number → Number → Number
  | finite m s, finite n t => ofDyadic (m * n) (s + t)
  | finite n _, infinite negative | infinite negative, finite n _ =>
    if n = 0 then finite 0 0 else infinite (negative != decide (n < 0))
  | infinite a, infinite b => infinite (a != b)

end Number

end Highlight
