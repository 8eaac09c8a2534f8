import Highlight.Text.Case

/-!
# Units that stand for themselves

A unit below the surrogates is a code point of its own, so it stands in a text just where it stands
among the code points of the text (`Text.mem_scalars_iff`, `Text.mem_ofScalars_iff`). Making a text
well-formed neither brings such a unit in nor takes it out, and lower case brings in no slash
(`Text.slash_not_mem_lower`).
-/

namespace Highlight

/-- Where code points end. -/
def scalarLimit : Nat := 0x110000

namespace CodeUnit

variable {u v : CodeUnit} {n : Nat}

theorem pair_bounds (leads : u.isLeading = true) (trails : v.isTrailing = true) :
    0x10000 ≤ pair u v ∧ pair u v < scalarLimit := by
  unfold isLeading isTrailing at *
  simp only [Bool.and_eq_true, decide_eq_true_eq, UInt16.le_iff_toNat_le,
    UInt16.lt_iff_toNat_lt] at *
  have low : (0xD800 : UInt16).toNat = 0xD800 := rfl
  have middle : (0xDC00 : UInt16).toNat = 0xDC00 := rfl
  have high : (0xE000 : UInt16).toNat = 0xE000 := rfl
  unfold pair scalarLimit
  omega

theorem toNat_toUInt16 (small : n < 0x10000) : n.toUInt16.toNat = n := Nat.mod_eq_of_lt small

/-- A unit below the surrogates is in no pair. -/
theorem mem_ofScalar_iff (plain : u < 0xD800) (bounded : n < scalarLimit) :
    u ∈ ofScalar n ↔ n = u.toNat := by
  have below : u.toNat < 0xD800 := plain
  unfold scalarLimit at bounded
  unfold ofScalar
  by_cases small : n < 0x10000
  · rw [if_pos small, List.mem_singleton, ← UInt16.toNat_inj, toNat_toUInt16 small, eq_comm]
  · rw [if_neg small, List.mem_cons, List.mem_singleton, ← UInt16.toNat_inj, ← UInt16.toNat_inj,
      toNat_toUInt16 (by omega), toNat_toUInt16 (by omega)]
    omega

end CodeUnit

namespace Text

variable {t : Text} {n : Nat} {ns : List Nat} {u : CodeUnit}

theorem scalars_bounded (t : Text) : ∀ n ∈ scalars t, n < scalarLimit := by
  have single (u : CodeUnit) : u.toNat < scalarLimit := Nat.lt_trans u.toNat_lt (by decide)
  fun_induction scalars t with
  | case1 => exact nofun
  | case2 u => exact List.forall_mem_singleton.2 (single u)
  | case3 u v r paired ih =>
    obtain ⟨leads, trails⟩ := Bool.and_eq_true_iff.1 paired
    exact List.forall_mem_cons.2 ⟨(CodeUnit.pair_bounds leads trails).2, ih⟩
  | case4 u v r lone ih => exact List.forall_mem_cons.2 ⟨single u, ih⟩

theorem mem_scalars_iff (plain : u < 0xD800) : u.toNat ∈ scalars t ↔ u ∈ t := by
  have below : u.toNat < 0xD800 := plain
  fun_induction scalars t with
  | case1 => exact ⟨nofun, nofun⟩
  | case2 v => rw [List.mem_singleton, List.mem_singleton, UInt16.toNat_inj]
  | case3 v w r paired ih =>
    obtain ⟨leads, trails⟩ := Bool.and_eq_true_iff.1 paired
    have large := (CodeUnit.pair_bounds leads trails).1
    unfold CodeUnit.isLeading at leads
    unfold CodeUnit.isTrailing at trails
    simp only [Bool.and_eq_true, decide_eq_true_eq] at leads trails
    rw [List.mem_cons, List.mem_cons, List.mem_cons]
    have first : u ≠ v := fun same => absurd (same ▸ plain) (UInt16.not_lt.2 leads.1)
    have second : u ≠ w := by
      rintro rfl
      exact absurd (UInt16.lt_of_lt_of_le plain (by decide : (0xD800 : UInt16) ≤ 0xDC00))
        (UInt16.not_lt.2 trails.1)
    have other : u.toNat ≠ CodeUnit.pair v w := by omega
    simp only [first, second, other, false_or]
    exact ih
  | case4 v w r lone ih =>
    rw [List.mem_cons, List.mem_cons, UInt16.toNat_inj]
    exact or_congr_right ih

theorem mem_ofScalars_iff (plain : u < 0xD800) (bounded : ∀ n ∈ ns, n < scalarLimit) :
    u ∈ ofScalars ns ↔ u.toNat ∈ ns := by
  unfold ofScalars
  rw [List.mem_flatMap]
  constructor
  · rintro ⟨n, listed, inside⟩
    rwa [← (CodeUnit.mem_ofScalar_iff plain (bounded n listed)).1 inside]
  · exact fun listed => ⟨_, listed, (CodeUnit.mem_ofScalar_iff plain (bounded _ listed)).2 rfl⟩

/-- Making a text well-formed is about surrogates only. -/
theorem mem_wellFormed_iff (plain : u < 0xD800) : u ∈ wellFormed t ↔ u ∈ t := by
  have below : u.toNat < 0xD800 := plain
  have mark : replacement.toNat = 0xFFFD := rfl
  unfold wellFormed
  rw [mem_ofScalars_iff plain, ← mem_scalars_iff plain, List.mem_map]
  · constructor
    · rintro ⟨n, listed, same⟩
      split at same
      · omega
      · rwa [← same]
    · exact fun listed => ⟨_, listed, if_neg (by omega)⟩
  · intro n listed
    obtain ⟨m, held, rfl⟩ := List.mem_map.1 listed
    split
    · decide
    · exact scalars_bounded t m held

/-! ## Slashes -/

/-- The slash, as a code point. -/
def slashScalar : Nat := (unit '/').toNat

theorem lowerRuns_above : ∀ run ∈ lowerRuns,
    (slashScalar : Int) < run.1 + run.2.2.2 ∧ (run.2.1 : Int) + run.2.2.2 < scalarLimit := by
  decide +kernel

theorem lowerScalar_plain (large : slashScalar < n) (bounded : n < scalarLimit) :
    lowerScalar n ≠ slashScalar ∧ lowerScalar n < scalarLimit := by
  unfold lowerScalar
  split
  · next lo hi step shift found =>
    obtain ⟨above, below⟩ := lowerRuns_above _ (List.mem_of_find?_eq_some found)
    have within := List.find?_some found
    simp only [Bool.and_eq_true, decide_eq_true_eq] at within above below
    omega
  · omega

/-- Code points in lower case are a slash only where one stood. -/
theorem lowerFrom_plain (plain : ∀ n ∈ ns, n ≠ slashScalar ∧ n < scalarLimit) (before : List Nat) :
    ∀ m ∈ lowerFrom before ns, m ≠ slashScalar ∧ m < scalarLimit := by
  have slash : slashScalar = 0x2F := rfl
  have limit : scalarLimit = 0x110000 := rfl
  induction ns generalizing before with
  | nil => exact nofun
  | cons n ns ih =>
    obtain ⟨here, rest⟩ := List.forall_mem_cons.1 plain
    rw [lowerFrom]
    refine List.forall_mem_append.2 ⟨?_, ih rest _⟩
    split
    · decide
    · split
      · split <;> decide
      · split
        · split
          · next letter =>
            rw [Bool.and_eq_true, decide_eq_true_eq, decide_eq_true_eq] at letter
            exact List.forall_mem_singleton.2 ⟨by omega, by omega⟩
          · exact List.forall_mem_singleton.2 here
        · exact List.forall_mem_singleton.2 (lowerScalar_plain (by omega) here.2)

/-- The lower case of a text that holds no slash holds none. -/
theorem slash_not_mem_lower (plain : unit '/' ∉ t) : unit '/' ∉ lower t := by
  have absent : slashScalar ∉ scalars t := fun listed => plain ((mem_scalars_iff (by decide)).1 listed)
  have plain' : ∀ n ∈ scalars t, n ≠ slashScalar ∧ n < scalarLimit := fun n listed =>
    ⟨fun same => absent (same ▸ listed), scalars_bounded t n listed⟩
  have lowered := lowerFrom_plain plain' []
  unfold lower
  rw [mem_ofScalars_iff (by decide) fun n listed => (lowered n listed).2]
  exact fun listed => (lowered _ listed).1 rfl

end Text

end Highlight
