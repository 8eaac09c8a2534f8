import Highlight.Number.Basic
import Mathlib

/-!
# Rounded natural numbers

`Number.rounded` is the natural number that a whole 64-bit number comes to: every number of at
most 53 binary places is its own, a longer one is rounded, and those beyond the finite numbers
all come to `boundless`. Rounding keeps the order of numbers.
-/

namespace Highlight.Number

theorem nearest_eq (num den : Nat) :
    nearest num den = if 2 * (num % den) < den then num / den
      else if den < 2 * (num % den) then num / den + 1 else num / den + num / den % 2 := rfl

theorem nearest_le (num den : Nat) : nearest num den ≤ num / den + 1 := by
  rw [nearest_eq]
  split
  · omega
  · split <;> omega

theorem div_le_nearest (num den : Nat) : num / den ≤ nearest num den := by
  rw [nearest_eq]
  split
  · omega
  · split <;> omega

theorem nearest_mono {a b : Nat} (den : Nat) (le : a ≤ b) : nearest a den ≤ nearest b den := by
  have quotients : a / den ≤ b / den := Nat.div_le_div_right le
  by_cases less : a / den < b / den
  · have := nearest_le a den
    have := div_le_nearest b den
    omega
  · have same : a / den = b / den := by omega
    have rest : a % den ≤ b % den := by
      have := Nat.div_add_mod a den
      have := Nat.div_add_mod b den
      rw [same] at *
      omega
    rw [nearest_eq, nearest_eq, same]
    split
    · split <;> (try split) <;> omega
    · split <;> split <;> (try split) <;> omega

theorem nearest_mul {den : Nat} (pos : 0 < den) (n : Nat) : nearest (n * den) den = n := by
  simp [nearest_eq, Nat.mul_div_cancel _ pos, pos]

theorem shifted_neg (num den k : Nat) :
    shifted num den (-(k : Int)) = (num, den * 2 ^ k) := by
  cases k with
  | zero => simp [shifted]
  | succ k => rfl

theorem binaryExponent_one {n : Nat} (pos : n ≠ 0) : binaryExponent n 1 = n.log2 := by
  have guess : (n.log2 : Int) - ((1 : Nat).log2 : Int) = n.log2 := by
    rw [show (1 : Nat).log2 = 0 by decide]
    omega
  have power : 2 ^ n.log2 ≤ n := Nat.log2_self_le pos
  unfold binaryExponent
  simp only [guess, shifted_neg, Nat.one_mul, if_pos power]

/-- The places of a long number that rounding drops. -/
def spare (n : Nat) : Nat := n.log2 - 52

/-- A natural number with all but its first 53 binary places rounded off. -/
def shortened (n : Nat) : Nat := nearest n (2 ^ spare n) * 2 ^ spare n

/-- What a natural number comes to as a 64-bit number. -/
def rounded (n : Nat) : Nat := (ofDyadic n 0).floorNat

theorem unitExponent_one {n : Nat} (long : 52 ≤ n.log2) : unitExponent n 1 = spare n := by
  have pos : n ≠ 0 := by
    rintro rfl
    simp at long
  rw [unitExponent, binaryExponent_one pos, spare]
  omega

theorem ofRatio_one {n : Nat} (long : 52 ≤ n.log2) :
    ofRatio false n 1 = if boundless ≤ shortened n then infinite false
      else finite (shortened n : Nat) 0 := by
  have pos : n ≠ 0 := by
    rintro rfl
    simp at long
  have bound : Nat.pow 2 1024 = boundless := by
    delta boundless
    exact Eq.refl _
  unfold ofRatio
  simp only [if_neg pos, unitExponent_one long, shifted_neg, Nat.one_mul, Bool.false_eq_true,
    if_false, Int.one_mul, bound]
  generalize boundless = bound
  rfl

/-- Of at most 53 binary places. -/
abbrev Short (n : Nat) : Prop := n < 2 ^ 53

theorem short_boundless : 2 ^ 53 ≤ boundless := by
  have power (k : Nat) (le : 53 ≤ k) : 2 ^ 53 ≤ Nat.pow 2 k :=
    Nat.pow_le_pow_right (by decide) le
  delta boundless
  apply power
  decide

theorem ofDyadic_short {n : Nat} (short : Short n) : ofDyadic n 0 = integer n := by
  have small : (n : Int).natAbs < 0x20000000000000 := short
  simp only [ofDyadic, small, decide_true, Bool.and_self, if_true]

theorem log2_of_long {n : Nat} (long : ¬Short n) : 53 ≤ n.log2 := by
  apply (Nat.le_log2 (by rintro rfl; exact long (by decide))).2
  exact Nat.not_lt.1 long

theorem ofDyadic_long {n : Nat} (long : ¬Short n) :
    ofDyadic n 0 = if boundless ≤ shortened n then infinite false
      else finite (shortened n : Nat) 0 := by
  have large : ¬(n : Int).natAbs < 0x20000000000000 := long
  have sign : decide ((n : Int) < 0) = false := by simp
  have := log2_of_long long
  rw [← ofRatio_one (by omega)]
  simp only [ofDyadic, large, sign, decide_false, Bool.and_false, Bool.false_eq_true, if_false]
  rfl

theorem floorNat_finite (n : Nat) : (finite (n : Int) 0).floorNat = n := by
  simp [floorNat]

theorem floorNat_infinite : (infinite false).floorNat = boundless := by
  simp only [floorNat, Bool.false_eq_true, if_false]

theorem rounded_short {n : Nat} (short : Short n) : rounded n = n := by
  rw [rounded, ofDyadic_short short]
  exact floorNat_finite n

theorem rounded_long {n : Nat} (long : ¬Short n) : rounded n = min boundless (shortened n) := by
  rw [rounded, ofDyadic_long long]
  split
  · rename_i great
    rw [Nat.min_eq_left great]
    exact floorNat_infinite
  · rename_i fits
    rw [Nat.min_eq_right (by omega)]
    exact floorNat_finite _

theorem le_shortened {n : Nat} (long : ¬Short n) : 2 ^ n.log2 ≤ shortened n := by
  have := log2_of_long long
  have parts : 2 ^ n.log2 = 2 ^ 52 * 2 ^ spare n := by
    rw [← Nat.pow_add]
    congr 1
    unfold spare
    omega
  have least : nearest (2 ^ 52 * 2 ^ spare n) (2 ^ spare n) ≤ nearest n (2 ^ spare n) := by
    apply nearest_mono
    rw [← parts]
    exact Nat.log2_self_le (by rintro rfl; exact long (by decide))
  rw [nearest_mul (Nat.two_pow_pos _)] at least
  rw [parts]
  exact Nat.mul_le_mul_right _ least

theorem shortened_le {n : Nat} (long : ¬Short n) : shortened n ≤ 2 ^ (n.log2 + 1) := by
  have := log2_of_long long
  have parts : 2 ^ (n.log2 + 1) = 2 ^ 53 * 2 ^ spare n := by
    rw [← Nat.pow_add]
    congr 1
    unfold spare
    omega
  have greatest : nearest n (2 ^ spare n) ≤ nearest (2 ^ 53 * 2 ^ spare n) (2 ^ spare n) := by
    apply nearest_mono
    rw [← parts]
    exact Nat.le_of_lt Nat.lt_log2_self
  rw [nearest_mul (Nat.two_pow_pos _)] at greatest
  rw [parts]
  exact Nat.mul_le_mul_right _ greatest

theorem shortened_mono {a b : Nat} (long : ¬Short a) (le : a ≤ b) : shortened a ≤ shortened b := by
  have long' : ¬Short b := fun short => long (Nat.lt_of_le_of_lt le short)
  have pos : a ≠ 0 := by
    rintro rfl
    exact long (by decide)
  have logs : a.log2 ≤ b.log2 :=
    (Nat.le_log2 (by omega)).2 (Nat.le_trans (Nat.log2_self_le pos) le)
  by_cases less : a.log2 < b.log2
  · calc shortened a ≤ 2 ^ (a.log2 + 1) := shortened_le long
      _ ≤ 2 ^ b.log2 := Nat.pow_le_pow_right (by decide) less
      _ ≤ shortened b := le_shortened long'
  · have same : spare a = spare b := by
      unfold spare
      omega
    rw [shortened, shortened, same]
    exact Nat.mul_le_mul_right _ (nearest_mono _ le)

/-- Rounding keeps the order of numbers. -/
theorem rounded_mono {a b : Nat} (le : a ≤ b) : rounded a ≤ rounded b := by
  by_cases short : Short b
  · rw [rounded_short short, rounded_short (Nat.lt_of_le_of_lt le short)]
    exact le
  · rw [rounded_long short]
    by_cases short' : Short a
    · have power : 2 ^ 53 ≤ 2 ^ b.log2 := Nat.pow_le_pow_right (by decide) (log2_of_long short)
      have := le_shortened short
      have : Short a := short'
      have := short_boundless
      rw [rounded_short short']
      omega
    · rw [rounded_long short']
      have := shortened_mono short' le
      omega

theorem ofDyadic_eq (n : Nat) :
    ofDyadic n 0 = finite (rounded n : Nat) 0 ∨
      ofDyadic n 0 = infinite false ∧ rounded n = boundless := by
  by_cases short : Short n
  · rw [ofDyadic_short short, rounded_short short]
    exact .inl rfl
  · rw [ofDyadic_long short, rounded_long short]
    split
    · rename_i great
      exact .inr ⟨rfl, Nat.min_eq_left great⟩
    · rename_i fits
      rw [Nat.min_eq_right (by omega)]
      exact .inl rfl

theorem power_le_shortened {n places : Nat} (long : ¬Short n) (le : Nat.pow 2 places ≤ n) :
    Nat.pow 2 places ≤ shortened n := by
  have pos : n ≠ 0 := by
    rintro rfl
    exact long (by decide)
  calc 2 ^ places ≤ 2 ^ n.log2 := Nat.pow_le_pow_right (by decide) ((Nat.le_log2 pos).2 le)
    _ ≤ shortened n := le_shortened long

theorem rounded_of_boundless_le {n : Nat} (great : boundless ≤ n) : rounded n = boundless := by
  have long : ¬Short n := by
    have := short_boundless
    omega
  have : boundless ≤ shortened n := by
    revert great
    delta boundless
    apply power_le_shortened long
  rw [rounded_long long]
  exact Nat.min_eq_left this

theorem times_nat (a b : Nat) : (finite a 0).times (finite b 0) = ofDyadic (a * b : Nat) 0 := by
  rw [times, Int.natCast_mul]

/-- Products of natural numbers are rounded one by one. -/
theorem floorNat_times (a b : Nat) {c : Nat} (pos : c ≠ 0) :
    (((integer a).times (integer b)).times (integer c)).floorNat = rounded (rounded (a * b) * c) := by
  simp only [integer, times_nat]
  obtain finite | ⟨infinite, great⟩ := ofDyadic_eq (a * b)
  · rw [finite, times_nat]
    rfl
  · have product : (Number.infinite false).times (.finite c 0) = .infinite false := by
      simp [times, pos]
    have : boundless ≤ boundless * c := Nat.le_mul_of_pos_right _ (by omega)
    rw [infinite, great, product, rounded_of_boundless_le this]
    exact floorNat_infinite

end Highlight.Number
