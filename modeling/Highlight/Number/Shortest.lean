import Highlight.Number.Basic

/-!
# Numbers in the fewest digits

A number is written with the fewest decimal digits that read back to it, the nearest such
decimal where there are several. `digits` finds them by trying one digit, two digits, and so on:
on the grid of decimals with that many digits the only candidates are the two neighbours of the
number, and a candidate counts when `Number.ofRatio` gives the number back.
-/

namespace Highlight.Number

/-- The least `k` with `num / den < 10 ^ k`, found from a start that is too small by at most
`fuel`. -/
def decimalMagnitude (num den : Nat) : Nat → Int → Int
  | 0, k => k
  | fuel + 1, k =>
    let below := match k with
      | .ofNat j => decide (num < den * Nat.pow 10 j)
      | .negSucc j => decide (num * Nat.pow 10 (j + 1) < den)
    if below then k else decimalMagnitude num den fuel (k + 1)

/-- `num / den` over `10 ^ e`, as a quotient of naturals. -/
def overPower (num den : Nat) : Int → Nat × Nat
  | .ofNat k => (num, den * Nat.pow 10 k)
  | .negSucc k => (num * Nat.pow 10 (k + 1), den)

/-- The decimal `digits * 10 ^ e` reads back to `x`. -/
def readsBack (x : Number) (digits : Nat) (e : Int) : Bool := ofDecimal false digits e == x

/-- The shortest digits and the power of ten of their last place, among at least `places` places
and at most `places + fuel`. -/
def search (x : Number) (num den : Nat) (magnitude : Int) : Nat → Nat → Nat × Int
  | 0, places => ((overPower num den (magnitude - places)).1, magnitude - places)
  | fuel + 1, places =>
    let e := magnitude - places
    let (n, d) := overPower num den e
    let low := n / d
    let lowHits := readsBack x low e
    let highHits := readsBack x (low + 1) e
    if lowHits && highHits then
      let twice := 2 * (n % d)
      (if twice < d then low else if d < twice then low + 1 else low + low % 2, e)
    else if lowHits then (low, e)
    else if highHits then (low + 1, e)
    else search x num den magnitude fuel (places + 1)

/-- Trailing zeros moved from the digits into the exponent. -/
def stripZeros : Nat → Nat → Int → Nat × Int
  | 0, digits, e => (digits, e)
  | fuel + 1, digits, e =>
    if digits ≠ 0 ∧ digits % 10 = 0 then stripZeros fuel (digits / 10) (e + 1) else (digits, e)

/-- Shortest digits of the positive number `num / den`, and the power of ten of the last one. -/
def shortest (num den : Nat) : Nat × Int :=
  let x := ofRatio false num den
  let start : Int := (num.log2 - den.log2 : Int) * 3 / 10 - 4
  let magnitude := decimalMagnitude num den 60 start
  let (digits, e) := search x num den magnitude 17 1
  stripZeros 20 digits e

/-- Digits as written: positionally while the point stands within 21 places after the first digit
or six zeros before it, with a signed exponent elsewhere. -/
def layout (digits : Nat) (e : Int) : Text :=
  let ds := Text.ofNat digits
  let count : Int := ds.length
  let point := count + e
  let zeros (n : Int) : Text := Text.fill n.toNat (unit '0')
  if count ≤ point ∧ point ≤ 21 then ds ++ zeros e
  else if 0 < point ∧ point ≤ 21 then ds.take point.toNat ++ "." ++ ds.drop point.toNat
  else if -6 < point ∧ point ≤ 0 then "0." ++ zeros (-point) ++ ds
  else
    let power := point - 1
    let head : Text := ds.take 1
    let tail : Text := if count = 1 then [] else "." ++ ds.drop 1
    let mark : Text := if power < 0 then "e-" else "e+"
    head ++ tail ++ mark ++ Text.ofNat power.natAbs

/-- A number in the fewest digits that read back to it. -/
def toText : Number → Text
  | infinite negative => if negative then "-Infinity" else "Infinity"
  | finite n scale =>
    if n = 0 then "0"
    else
      let (digits, e) := shortest n.natAbs (Nat.pow 2 scale)
      let sign : Text := if n < 0 then "-" else ""
      sign ++ layout digits e

end Highlight.Number
