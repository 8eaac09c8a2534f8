import Highlight.Text.Blank

/-!
# Digits of numbers

The decimal digits of a number and the four hexadecimal digits of a code unit, as texts, denote what
they are the digits of. Both proofs follow the digits from the last one on. No digit is blank, so
trimming takes nothing off a text of digits.
-/

namespace Highlight

namespace CodeUnit

variable {u : CodeUnit}

theorem forall_ascii {p : CodeUnit → Prop} (each : ∀ n < 0x80, p n.toUInt16) (ascii : u < 0x80) :
    p u := by
  have same : u.toNat.toUInt16 = u := UInt16.ofNat_toNat
  exact same ▸ each u.toNat ascii

theorem isHexDigit_ascii (digit : u.isHexDigit = true) : u < 0x80 := by
  simp only [isHexDigit, isDigit, isBetween, Bool.or_eq_true, Bool.and_eq_true,
    decide_eq_true_eq] at digit
  obtain (⟨_, high⟩ | ⟨_, high⟩) | ⟨_, high⟩ := digit <;>
    exact UInt16.lt_of_le_of_lt high (by decide)

theorem isHexDigit_solid (digit : u.isHexDigit = true) : u.isBlank = false := by
  exact forall_ascii (p := fun u => u.isHexDigit = true → u.isBlank = false) (by decide)
    (isHexDigit_ascii digit) digit

end CodeUnit

/-- The unit of one digit. -/
def digitUnit (n : Nat) : CodeUnit := unit n.digitChar

theorem digitUnit_isDigit : ∀ n < 10, (digitUnit n).isDigit = true := by decide

theorem digitUnit_toNat : ∀ n < 10, (digitUnit n).toNat - 48 = n := by decide

theorem digitUnit_isHexDigit : ∀ n < 16, (digitUnit n).isHexDigit = true := by decide

theorem digitUnit_hexValue : ∀ n < 16, (digitUnit n).hexValue = n := by decide

namespace Text

theorem ofNat_of_lt {n : Nat} (small : n < 10) : ofNat n = [digitUnit n] := by
  rw [ofNat, Nat.toDigits_of_lt_base small]
  rfl

theorem ofNat_of_le {n : Nat} (large : 10 ≤ n) :
    ofNat n = ofNat (n / 10) ++ [digitUnit (n % 10)] := by
  rw [ofNat, Nat.toDigits_of_base_le (by decide) large, List.map_append]
  rfl

theorem decimal_append (t : Text) (u : CodeUnit) :
    decimal (t ++ [u]) = decimal t * 10 + (u.toNat - 48) :=
  List.foldl_append

/-- The digits of a number denote the number. -/
theorem decimal_ofNat (n : Nat) : decimal (ofNat n) = n := by
  induction n using Nat.strongRecOn with
  | ind n ih =>
    obtain small | large := Nat.lt_or_ge n 10
    · rw [ofNat_of_lt small]
      exact (Nat.zero_add _).trans (digitUnit_toNat n small)
    · rw [ofNat_of_le large, decimal_append, ih (n / 10) (by omega),
        digitUnit_toNat (n % 10) (by omega)]
      omega

theorem isDigit_ofNat (n : Nat) : ∀ u ∈ ofNat n, u.isDigit = true := by
  induction n using Nat.strongRecOn with
  | ind n ih =>
    obtain small | large := Nat.lt_or_ge n 10
    · rw [ofNat_of_lt small]
      exact List.forall_mem_singleton.2 (digitUnit_isDigit n small)
    · rw [ofNat_of_le large]
      exact List.forall_mem_append.2 ⟨ih (n / 10) (by omega),
        List.forall_mem_singleton.2 (digitUnit_isDigit (n % 10) (by omega))⟩

theorem ofNat_ne_nil (n : Nat) : ofNat n ≠ [] := by
  rw [ofNat, Ne, List.map_eq_nil_iff]
  exact Nat.toDigits_ne_nil

/-- A number of several digits does not begin with a zero. -/
theorem head_ofNat_ne_zero {n : Nat} {first : CodeUnit} {rest : Text} (pos : n ≠ 0)
    (digits : ofNat n = first :: rest) : first ≠ unit '0' := by
  induction n using Nat.strongRecOn generalizing rest with
  | ind n ih =>
    obtain small | large := Nat.lt_or_ge n 10
    · rw [ofNat_of_lt small] at digits
      cases digits
      have nonzero : ∀ n < 10, n ≠ 0 → digitUnit n ≠ unit '0' := by decide
      exact nonzero n small pos
    · rw [ofNat_of_le large] at digits
      obtain ⟨other, front, same⟩ := List.exists_cons_of_ne_nil (ofNat_ne_nil (n / 10))
      rw [same] at digits
      cases digits
      exact ih (n / 10) (by omega) (by omega) same

theorem trim_of_digits {t : Text} (digits : ∀ u ∈ t, u.isDigit = true) : trim t = t := by
  have solid (u : CodeUnit) (digit : u.isDigit = true) : ¬ u.isBlank = true := by
    rw [CodeUnit.isHexDigit_solid (by rw [CodeUnit.isHexDigit, digit]; rfl)]
    nofun
  have kept (t : Text) (digits : ∀ u ∈ t, u.isDigit = true) : t.dropWhile CodeUnit.isBlank = t := by
    cases t with
    | nil => rfl
    | cons u t => exact List.dropWhile_cons_of_neg (solid u (digits u List.mem_cons_self))
  rw [trim, kept t digits, kept t.reverse fun u listed => digits u (List.mem_reverse.1 listed),
    List.reverse_reverse]

/-- The last digit of a number that fills the width with zeros or with digits of its own. -/
theorem ofHex_succ (width n : Nat) :
    ofHex (width + 2) n = ofHex (width + 1) (n / 16) ++ [digitUnit (n % 16)] := by
  simp only [ofHex, fill]
  obtain small | large := Nat.lt_or_ge n 16
  · have zeros : List.replicate width (unit '0') ++ [unit '0'] =
        List.replicate (width + 1) (unit '0') := List.replicate_succ'.symm
    rw [Nat.div_eq_of_lt small, Nat.mod_eq_of_lt small, Nat.toDigits_of_lt_base small,
      Nat.toDigits_of_lt_base (by decide : 0 < 16)]
    exact congrArg (· ++ [digitUnit n]) zeros.symm
  · have fewer (length : Nat) : width + 2 - (length + 1) = width + 1 - length :=
      Nat.add_sub_add_right (width + 1) 1 length
    rw [Nat.toDigits_of_base_le (by decide) large, List.map_append, List.length_append,
      List.append_assoc, List.map_singleton, List.length_singleton, fewer]
    rfl

/-- The four digits of a 16-bit number. -/
theorem ofHex_four {n : Nat} (bound : n < 65536) : ofHex 4 n = [digitUnit (n / 4096),
    digitUnit (n / 256 % 16), digitUnit (n / 16 % 16), digitUnit (n % 16)] := by
  have first : ofHex 1 (n / 16 / 16 / 16) = [digitUnit (n / 4096)] := by
    rw [Nat.div_div_eq_div_mul, Nat.div_div_eq_div_mul, ofHex,
      Nat.toDigits_of_lt_base (by omega)]
    rfl
  rw [ofHex_succ, ofHex_succ, ofHex_succ, first, Nat.div_div_eq_div_mul]
  rfl

end Text

/-- Four digits of a unit denote the unit. -/
theorem CodeUnit.hexadecimal_ofHex (u : CodeUnit) :
    (Text.hexadecimal (Text.ofHex 4 u.toNat)).toUInt16 = u := by
  have bound := u.toNat_lt
  rw [Text.ofHex_four bound]
  simp only [Text.hexadecimal, List.foldl_cons, List.foldl_nil]
  rw [digitUnit_hexValue _ (by omega), digitUnit_hexValue _ (by omega),
    digitUnit_hexValue _ (by omega), digitUnit_hexValue _ (by omega)]
  have value : (((0 * 16 + u.toNat / 4096) * 16 + u.toNat / 256 % 16) * 16 +
      u.toNat / 16 % 16) * 16 + u.toNat % 16 = u.toNat := by omega
  rw [value]
  exact UInt16.ofNat_toNat

end Highlight
