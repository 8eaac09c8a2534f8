import Highlight.Number.Word
import Highlight.Proofs.Number.Rounding
import Highlight.Proofs.Text.Digits

/-!
# Whole numbers in decimal digits

A natural number of at most 53 binary places is a 64-bit number, and its decimal digits are a word
that reads back to it (`Number.ofWord?_ofNat`).
-/

namespace Highlight

namespace Number

/-! ## Rounding nothing -/

theorem reduce_mul (i : Int) (k : Nat) : reduce (i * 2 ^ k) k = finite i 0 := by
  induction k with
  | zero => simp [reduce]
  | succ k ih =>
    have half : i * 2 ^ (k + 1) = i * 2 ^ k * 2 := by rw [pow_succ, mul_assoc]
    rw [half, reduce, if_pos (Int.mul_emod_left _ _), Int.mul_ediv_cancel _ (by decide), ih]

theorem nearest_one (n : Nat) : nearest n 1 = n := by
  rw [← Nat.mul_one n, nearest_mul Nat.one_pos, Nat.mul_one]

theorem ofRatio_short {n : Nat} (pos : n ≠ 0) (short : n.log2 < 52) :
    ofRatio false n 1 = integer n := by
  obtain ⟨k, places⟩ : ∃ k, n.log2 + (k + 1) = 52 := ⟨52 - n.log2 - 1, by omega⟩
  have exponent : unitExponent n 1 = Int.negSucc k := by
    rw [unitExponent, binaryExponent_one pos]
    omega
  have shift : shifted n 1 (-Int.negSucc k) = (n * 2 ^ (k + 1), 1) := rfl
  have whole : nearest (n * 2 ^ (k + 1)) 1 = n * 2 ^ (k + 1) := nearest_one _
  have signed : (1 : Int) * ((n * 2 ^ (k + 1) : Nat) : Int) = (n : Int) * 2 ^ (k + 1) := by
    push_cast
    ring
  unfold ofRatio
  simp only [if_neg pos, exponent, shift, whole, Bool.false_eq_true, if_false, signed]
  exact reduce_mul n (k + 1)

/-- A natural number of at most 53 binary places is a number itself. -/
theorem ofNat_short {n : Nat} (short : Short n) : ofNat n = integer n := by
  by_cases pos : n = 0
  · subst pos
    rfl
  by_cases few : n.log2 < 52
  · exact ofRatio_short pos few
  · have bound : n.log2 < 53 := Nat.log2_lt pos |>.2 short
    have none : spare n = 0 := by
      unfold spare
      omega
    have same : shortened n = n := by simp [shortened, none, nearest_one]
    have fits : ¬ boundless ≤ n := by
      have := short_boundless
      have : n < 2 ^ 53 := short
      omega
    rw [ofNat, ofRatio_one (by omega), same, if_neg fits]
    rfl

theorem lt_integer_iff {i j : Int} : (integer i).lt (integer j) = true ↔ i < j := by
  simp [lt, integer]

/-- A natural number that comes to a number of at most 53 binary places has no more places. -/
theorem short_of_ofNat_lt {n : Nat} (small : (ofNat n).lt (integer (2 ^ 53)) = true) : Short n := by
  by_contra long
  have places := log2_of_long long
  have great : 2 ^ 53 ≤ shortened n :=
    le_trans (Nat.pow_le_pow_right (by decide) places) (le_shortened long)
  rw [ofNat, ofRatio_one (by omega)] at small
  generalize boundless = bound at small
  split at small
  · cases small
  · have below : (shortened n : Int) < 2 ^ 53 := lt_integer_iff.1 small
    omega

/-! ## Reading digits -/

theorem ofDecimal_short {n : Nat} (short : Short n) : ofDecimal false n 0 = integer n := by
  by_cases pos : n = 0
  · subst pos
    rfl
  have few : (Nat.toDigits 10 n).length ≤ 16 := by
    rw [Nat.length_toDigits_le_iff (by decide) (by decide)]
    exact lt_trans short (by decide)
  have whole : ofDecimal false n 0 = ofNat (n * Nat.pow 10 0) := by
    unfold ofDecimal
    simp only [if_neg pos]
    rw [if_neg (by omega), if_neg (by omega)]
    rfl
  rw [whole, show n * Nat.pow 10 0 = n from Nat.mul_one n, ofNat_short short]

theorem unsigned?_digits {t : Text} (digits : ∀ u ∈ t, u.isDigit = true) (filled : t ≠ [])
    (short : Short (Text.decimal t)) : unsigned? false t = some (integer (Text.decimal t)) := by
  have plain : ∀ u ∈ t, (!(decide (u = unit 'e') || decide (u = unit 'E'))) = true := by
    intro u listed
    have digit := digits u listed
    have e : u ≠ unit 'e' := by
      rintro rfl
      exact absurd digit (by decide)
    have capital : u ≠ unit 'E' := by
      rintro rfl
      exact absurd digit (by decide)
    simp [e, capital]
  unfold unsigned?
  simp only [List.takeWhile_eq_self_iff.2 plain, List.dropWhile_eq_nil_iff.2 plain,
    List.takeWhile_eq_self_iff.2 digits, List.dropWhile_eq_nil_iff.2 digits, List.append_nil,
    List.isEmpty_nil, Bool.and_true, List.length_nil]
  rw [if_neg (by simpa using filled)]
  exact congrArg some (ofDecimal_short short)

/-- The digits of a whole number of at most 53 binary places are a word for it. -/
theorem ofWord?_ofNat {n : Nat} (short : Short n) : ofWord? (Text.ofNat n) = some (integer n) := by
  have digits := Text.isDigit_ofNat n
  have reads : signed? (Text.ofNat n) = some (integer n) := by
    obtain ⟨first, rest, same⟩ := List.exists_cons_of_ne_nil (Text.ofNat_ne_nil n)
    have digit : first.isDigit = true := digits first (same ▸ List.mem_cons_self)
    have split : splitSign (Text.ofNat n) = (false, Text.ofNat n) := by
      rw [same, splitSign, if_neg (by rintro rfl; exact absurd digit (by decide)),
        if_neg (by rintro rfl; exact absurd digit (by decide))]
    have finite : Text.ofNat n ≠ Text.ofString "Infinity" := by
      intro spelled
      rw [spelled] at same
      cases same
      exact absurd digit (by decide)
    unfold signed?
    rw [split]
    dsimp only
    rw [if_neg finite, unsigned?_digits digits (Text.ofNat_ne_nil n), Text.decimal_ofNat]
    rwa [Text.decimal_ofNat]
  unfold ofWord?
  rw [Text.trim_of_digits digits]
  split
  · next none => exact absurd none (Text.ofNat_ne_nil n)
  · next zero mark rest same =>
    rw [if_pos, ← same, reads]
    refine Text.head_ofNat_ne_zero ?_ same
    rintro rfl
    cases same
  · exact reads

end Number

end Highlight
