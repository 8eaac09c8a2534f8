import Highlight.Text.Blank
import Highlight.Text.Case

/-!
# Words, and lower case of ASCII

A word is a longest run of units that are not blank, so it ends where the text ends or a blank
stands (`Text.exists_split_of_mem_words`). On ASCII units lower case works unit by unit.
-/

namespace Highlight.Text

variable {t word : Text} {u : CodeUnit}

/-! ## Words -/

/-- The units that words are made of. -/
def isInWord (u : CodeUnit) : Bool := !u.isBlank

theorem words_cons_of_blank (blank : u.isBlank = true) (t : Text) : words (u :: t) = words t := by
  rw [words.eq_def]
  exact if_pos blank

theorem words_cons (inside : isInWord u = true) (t : Text) :
    words (u :: t) = (u :: t.takeWhile isInWord) :: words (t.dropWhile isInWord) := by
  have solid {v : CodeUnit} (inside : isInWord v = true) : ¬ v.isBlank = true := by
    simpa [isInWord] using inside
  induction t generalizing u with
  | nil =>
    rw [words.eq_def]
    exact if_neg (solid inside)
  | cons v t ih =>
    rw [words.eq_def]
    simp only [if_neg (solid inside)]
    by_cases blank : v.isBlank = true
    · have stop : isInWord v = false := by simp [isInWord, blank]
      rw [List.takeWhile_cons_of_neg (by simp [stop]), List.dropWhile_cons_of_neg (by simp [stop])]
      cases words (v :: t) with
      | nil => rfl
      | cons w ws => exact if_pos blank
    · have next : isInWord v = true := by simp [isInWord, blank]
      rw [ih next, List.takeWhile_cons_of_pos next, List.dropWhile_cons_of_pos next]
      exact if_neg blank

/-- Nothing follows, or a blank follows. -/
def EndsWord (rest : Text) : Prop := ∀ u ∈ rest.head?, u.isBlank = true

theorem endsWord_dropWhile (t : Text) : EndsWord (t.dropWhile isInWord) := by
  intro u first
  have stop := List.head?_dropWhile_not isInWord t
  rw [Option.mem_def.1 first] at stop
  simpa [isInWord] using stop

theorem exists_split_of_mem_words (listed : word ∈ words t) :
    ∃ before after, t = before ++ word ++ after ∧ EndsWord after := by
  induction length : t.length using Nat.strongRecOn generalizing t with
  | ind n ih =>
    subst length
    cases t with
    | nil => cases listed
    | cons u t =>
      by_cases inside : isInWord u = true
      · rw [words_cons inside] at listed
        have parts : t.takeWhile isInWord ++ t.dropWhile isInWord = t :=
          List.takeWhile_append_dropWhile
        obtain rfl | later := List.mem_cons.1 listed
        · exact ⟨[], _, congrArg (u :: ·) parts.symm, endsWord_dropWhile t⟩
        · have shorter := (t.dropWhile_suffix isInWord).length_le
          obtain ⟨before, after, split, ends⟩ := ih _ (Nat.lt_succ_of_le shorter) later rfl
          refine ⟨u :: (t.takeWhile isInWord ++ before), after, ?_, ends⟩
          rw [List.cons_append, List.cons_append, List.append_assoc, List.append_assoc,
            ← List.append_assoc before, ← split, parts]
      · have blank : u.isBlank = true := by simpa [isInWord] using inside
        rw [words_cons_of_blank blank] at listed
        obtain ⟨before, after, rfl, ends⟩ := ih _ (Nat.lt_succ_self _) listed rfl
        exact ⟨u :: before, after, rfl, ends⟩

/-! ## Lower case of ASCII -/

/-- An ASCII unit in lower case. -/
def lowerUnit (u : CodeUnit) : CodeUnit := if u.isBetween 'A' 'Z' then u + 32 else u

theorem lowerUnit_ascii (ascii : u < 0x80) : lowerUnit u < 0x80 := by
  unfold lowerUnit
  split
  · next letter =>
    unfold CodeUnit.isBetween at letter
    rw [Bool.and_eq_true, decide_eq_true_eq, decide_eq_true_eq] at letter
    have high : u.toNat ≤ 0x5A := letter.2
    rw [UInt16.lt_iff_toNat_lt, UInt16.toNat_add]
    show (u.toNat + 32) % 65536 < 128
    omega
  · exact ascii

theorem scalars_of_ascii (ascii : ∀ u ∈ t, u < 0x80) : scalars t = t.map UInt16.toNat := by
  fun_induction scalars t with
  | case1 => rfl
  | case2 u => rfl
  | case3 u v r paired ih =>
    have leads : 0xD800 ≤ u := by
      rw [Bool.and_eq_true, CodeUnit.isLeading, Bool.and_eq_true, decide_eq_true_eq] at paired
      exact paired.1.1
    exact absurd (ascii u List.mem_cons_self) (UInt16.not_lt.2 (UInt16.le_trans (by decide) leads))
  | case4 u v r lone ih =>
    rw [ih fun w inside => ascii w (List.mem_cons_of_mem _ inside)]
    rfl

theorem ofScalars_of_ascii (ascii : ∀ u ∈ t, u < 0x80) : ofScalars (t.map UInt16.toNat) = t := by
  induction t with
  | nil => rfl
  | cons u t ih =>
    obtain ⟨here, rest⟩ := List.forall_mem_cons.1 ascii
    have one : CodeUnit.ofScalar u.toNat = [u] := by
      rw [CodeUnit.ofScalar, if_pos u.toNat_lt]
      exact congrArg (fun v => [v]) UInt16.ofNat_toNat
    show CodeUnit.ofScalar u.toNat ++ ofScalars (t.map UInt16.toNat) = u :: t
    rw [one, ih rest]
    rfl

theorem lowerFrom_of_ascii (ascii : ∀ u ∈ t, u < 0x80) (before : List Nat) :
    lowerFrom before (t.map UInt16.toNat) = (t.map lowerUnit).map UInt16.toNat := by
  induction t generalizing before with
  | nil => rfl
  | cons u t ih =>
    obtain ⟨here, rest⟩ := List.forall_mem_cons.1 ascii
    have small : u.toNat < 0x80 := here
    rw [List.map_cons, lowerFrom, ih rest, if_neg (by omega), if_neg (by omega), if_pos small]
    show _ = (lowerUnit u).toNat :: _
    have letter : (decide (0x41 ≤ u.toNat) && decide (u.toNat ≤ 0x5A)) = u.isBetween 'A' 'Z' := rfl
    rw [lowerUnit, letter]
    by_cases upper : u.isBetween 'A' 'Z' = true
    · have shifted : (u + 32).toNat = u.toNat + 32 := by
        rw [UInt16.toNat_add]
        show (u.toNat + 32) % 65536 = _
        omega
      rw [if_pos upper, if_pos upper, shifted]
      rfl
    · rw [if_neg upper, if_neg upper]
      rfl

theorem lower_eq_map (ascii : ∀ u ∈ t, u < 0x80) : lower t = t.map lowerUnit := by
  rw [lower, scalars_of_ascii ascii, lowerFrom_of_ascii ascii, ofScalars_of_ascii]
  intro v inside
  obtain ⟨u, held, rfl⟩ := List.mem_map.1 inside
  exact lowerUnit_ascii (ascii u held)

end Highlight.Text
