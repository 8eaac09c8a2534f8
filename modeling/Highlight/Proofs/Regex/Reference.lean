import Highlight.Regex.Reader
import Highlight.Regex.Source
import Mathlib.Data.List.TakeWhile

/-!
# References by number

A number behind a backslash refers to a group where there are enough of them, and is an octal
escape otherwise. A pattern without such a number has none when it is respelled for the host, and
none when its groups lose their captures (`Unnumbered.hostSource`, `Unnumbered.withoutCaptures`).
-/

namespace Highlight.Regex

/-- Outside bracketed sets, a digit other than zero stands behind a backslash, which is how patterns
spell a reference to a group by its number. -/
def refersByNumber (inSet : Bool) : Text → Bool
  | [] => false
  | u :: r =>
    if u = unit '\\' then
      match r with
      | [] => false
      | v :: r => (!inSet && v.isBetween '1' '9') || refersByNumber inSet r
    else refersByNumber (if inSet then u ≠ unit ']' else u = unit '[') r

/-- No group is referred to by its number. -/
def Unnumbered (inSet : Bool) (t : Text) : Prop := refersByNumber inSet t = false

/-- The unit neither escapes nor opens or closes a bracketed set. -/
structure Plain (u : CodeUnit) : Prop where
  escape : u ≠ unit '\\'
  opening : u ≠ unit '['
  closing : u ≠ unit ']'

instance (u : CodeUnit) : Decidable (Plain u) :=
  decidable_of_iff (u ≠ unit '\\' ∧ u ≠ unit '[' ∧ u ≠ unit ']')
    ⟨fun ⟨escape, opening, closing⟩ => ⟨escape, opening, closing⟩,
      fun plain => ⟨plain.escape, plain.opening, plain.closing⟩⟩

/-- The second text is what is left of the first one behind some plain units. -/
def Skips (t rest : Text) : Prop := ∃ front, t = front ++ rest ∧ ∀ u ∈ front, Plain u

variable {inSet : Bool} {t rest : Text} {u v : CodeUnit} {r : Text}

/-! ## Plain units -/

/-- A class of units that holds none of the three holds plain units only. -/
theorem Plain.of_class {p : CodeUnit → Bool} (holds : p u = true)
    (none : p (unit '\\') = false ∧ p (unit '[') = false ∧ p (unit ']') = false) : Plain u := by
  obtain ⟨escape, opening, closing⟩ := none
  refine ⟨?_, ?_, ?_⟩
  · rintro rfl
    simp [holds] at escape
  · rintro rfl
    simp [holds] at opening
  · rintro rfl
    simp [holds] at closing

theorem Plain.of_all {front : Text} (all : front.all (fun u => decide (Plain u)) = true) :
    ∀ u ∈ front, Plain u := fun u inside => of_decide_eq_true (List.all_eq_true.1 all u inside)

theorem Plain.of_digit (digit : u.isDigit = true) : Plain u := .of_class digit (by decide)

theorem Plain.of_hexDigit (digit : u.isHexDigit = true) : Plain u := .of_class digit (by decide)

theorem Plain.of_octal (digit : isOctal u = true) : Plain u := .of_class digit (by decide)

theorem Plain.of_word (word : u.isWord = true) : Plain u := .of_class word (by decide)

namespace Skips

theorem refl (t : Text) : Skips t t := ⟨[], rfl, fun _ none => nomatch none⟩

theorem cons (plain : Plain u) (rest : Text) : Skips (u :: rest) rest := by
  refine ⟨[u], rfl, fun v inside => ?_⟩
  rw [List.mem_singleton.1 inside]
  exact plain

theorem trans {s : Text} (first : Skips s t) (second : Skips t rest) : Skips s rest := by
  obtain ⟨front, rfl, plain⟩ := first
  obtain ⟨middle, rfl, plain'⟩ := second
  refine ⟨front ++ middle, (List.append_assoc ..).symm, fun u inside => ?_⟩
  exact (List.mem_append.1 inside).elim (plain u) (plain' u)

theorem dropWhile {p : CodeUnit → Bool} (plain : ∀ u, p u = true → Plain u) (t : Text) :
    Skips t (t.dropWhile p) := by
  refine ⟨t.takeWhile p, List.takeWhile_append_dropWhile.symm, fun u inside => ?_⟩
  exact plain u (List.mem_takeWhile_imp inside)

theorem drop {count : Nat} (plain : ∀ u ∈ t.take count, Plain u) : Skips t (t.drop count) :=
  ⟨t.take count, (List.take_append_drop count t).symm, plain⟩

theorem drop_prefix {front : Text} (starts : front.isPrefixOf t = true)
    (plain : ∀ u ∈ front, Plain u) : Skips t (t.drop front.length) := by
  obtain ⟨rest, rfl⟩ := List.isPrefixOf_iff_prefix.1 starts
  rw [List.drop_left]
  exact ⟨front, rfl, plain⟩

/-- Part of a plain front may be dropped. -/
theorem drop_within {front : Text} (starts : front <+: t) (plain : ∀ u ∈ front, Plain u)
    {count : Nat} (within : count ≤ front.length) : Skips t (t.drop count) := by
  refine .drop fun u inside => plain u ?_
  have shorter : (t.take count).length ≤ front.length := by
    rw [List.length_take]
    omega
  exact (List.prefix_of_prefix_length_le (List.take_prefix count t) starts shorter).subset inside

end Skips

/-! ## What is left behind a part -/

theorem refersByNumber_cons (escape : u ≠ unit '\\') :
    refersByNumber inSet (u :: r) =
      refersByNumber (if inSet then u ≠ unit ']' else u = unit '[') r := by
  rw [refersByNumber.eq_def]
  exact if_neg escape

theorem refersByNumber_escape :
    refersByNumber inSet (unit '\\' :: v :: r) =
      (!inSet && v.isBetween '1' '9' || refersByNumber inSet r) := by
  rw [refersByNumber.eq_def]
  exact if_pos rfl

namespace Unnumbered

/-- Behind an escape, nothing changes. -/
theorem behind_escape (h : Unnumbered inSet (unit '\\' :: v :: r)) : Unnumbered inSet r := by
  unfold Unnumbered at h
  rw [refersByNumber_escape] at h
  exact (Bool.or_eq_false_iff.1 h).2

theorem not_number (h : Unnumbered false (unit '\\' :: v :: r)) : v.isBetween '1' '9' = false := by
  unfold Unnumbered at h
  rw [refersByNumber_escape] at h
  exact (Bool.or_eq_false_iff.1 h).1

theorem behind_opening (h : Unnumbered false (unit '[' :: r)) : Unnumbered true r := by
  unfold Unnumbered at h
  rwa [refersByNumber_cons (by decide)] at h

theorem behind_closing (h : Unnumbered true (unit ']' :: r)) : Unnumbered false r := by
  unfold Unnumbered at h
  rwa [refersByNumber_cons (by decide)] at h

/-- Outside sets, only an escape and an opening bracket are special. -/
theorem behind_outside (h : Unnumbered false (u :: r)) (escape : u ≠ unit '\\')
    (opening : u ≠ unit '[') : Unnumbered false r := by
  unfold Unnumbered at h
  rwa [refersByNumber_cons escape, if_neg (by decide), decide_eq_false opening] at h

/-- Inside sets, only an escape and a closing bracket are special. -/
theorem behind_inside (h : Unnumbered true (u :: r)) (escape : u ≠ unit '\\')
    (closing : u ≠ unit ']') : Unnumbered true r := by
  unfold Unnumbered at h
  rwa [refersByNumber_cons escape, if_pos rfl, decide_eq_true closing] at h

theorem behind_plain (plain : Plain u) : Unnumbered inSet (u :: r) ↔ Unnumbered inSet r := by
  unfold Unnumbered
  rw [refersByNumber_cons plain.escape]
  cases inSet
  · rw [if_neg (by decide), decide_eq_false plain.opening]
  · rw [if_pos rfl, decide_eq_true plain.closing]

end Unnumbered

theorem Skips.unnumbered (skips : Skips t rest) : Unnumbered inSet t ↔ Unnumbered inSet rest := by
  obtain ⟨front, rfl, plain⟩ := skips
  induction front with
  | nil => exact Iff.rfl
  | cons u front ih =>
    rw [List.cons_append, Unnumbered.behind_plain (plain u List.mem_cons_self)]
    exact ih fun v inside => plain v (List.mem_cons_of_mem _ inside)

/-! ## Respelled sources -/

theorem nameLength?_eq_some {close : CodeUnit} {length : Nat}
    (found : nameLength? close t = some length) :
    ∃ name rest, t = name ++ close :: rest ∧ length = name.length + 1 ∧
      ∀ u ∈ name, u.isWord = true := by
  unfold nameLength? at found
  split at found
  · cases found
  · rename_i u r
    split at found
    · rename_i starts
      dsimp only at found
      split at found
      · rename_i closes
        cases found
        obtain ⟨rest, stands⟩ := List.head?_eq_some_iff.1 closes
        have parts : r = r.takeWhile CodeUnit.isWord ++ close :: rest := by
          rw [← stands, List.takeWhile_append_dropWhile]
        have lengths := congrArg List.length parts
        rw [List.length_append, List.length_cons] at lengths
        refine ⟨u :: r.takeWhile CodeUnit.isWord, rest, ?_, ?_, ?_⟩
        · rw [List.cons_append, ← parts]
        · rw [stands, List.length_cons, List.length_cons]
          omega
        · intro v inside
          obtain rfl | inside := List.mem_cons.1 inside
          · simp only [Bool.or_eq_true, decide_eq_true_eq] at starts
            obtain letter | underscore := starts
            · simp [CodeUnit.isWord, letter]
            · rw [underscore]
              decide
          · exact List.mem_takeWhile_imp inside
      · cases found
    · cases found

theorem nameLength?_skips {close : CodeUnit} {length : Nat} (plain : Plain close)
    (found : nameLength? close t = some length) : Skips t (t.drop length) := by
  obtain ⟨name, rest, rfl, rfl, word⟩ := nameLength?_eq_some found
  refine .drop fun u inside => ?_
  rw [List.take_append, List.take_of_length_le (by omega), Nat.add_sub_cancel_left] at inside
  obtain inside | inside := List.mem_append.1 inside
  · exact .of_word (word u inside)
  · rw [List.take_succ_cons, List.take_zero, List.mem_singleton] at inside
    exact inside ▸ plain

theorem namedMark?_skips {length : Nat} (found : namedMark? t = some length) :
    Skips t (t.drop length) := by
  unfold namedMark? at found
  split at found
  · rename_i starts
    obtain ⟨name, measured, rfl⟩ := Option.map_eq_some_iff.1 found
    rw [Nat.add_comm, ← List.drop_drop]
    have front := Skips.drop_prefix starts (Plain.of_all (by decide))
    exact front.trans (nameLength?_skips (by decide) measured)
  · split at found
    · rename_i starts
      obtain ⟨name, measured, rfl⟩ := Option.map_eq_some_iff.1 found
      rw [Nat.add_comm, ← List.drop_drop]
      have front := Skips.drop_prefix starts (Plain.of_all (by decide))
      exact front.trans (nameLength?_skips (by decide) measured)
    · cases found

namespace Unnumbered

theorem prepend {front : Text} (plain : ∀ u ∈ front, Plain u) (h : Unnumbered inSet rest) :
    Unnumbered inSet (front ++ rest) :=
  Skips.unnumbered ⟨front, rfl, plain⟩ |>.2 h

/-- What stands behind a unit that is no escape may be respelled. -/
theorem respell {next : Bool} {r' : Text}
    (goesOn : (if inSet then decide (u ≠ unit ']') else decide (u = unit '[')) = next)
    (h : Unnumbered inSet (u :: r)) (escape : u ≠ unit '\\')
    (respelled : Unnumbered next r → Unnumbered next r') : Unnumbered inSet (u :: r') := by
  unfold Unnumbered at *
  rw [refersByNumber_cons escape, goesOn] at h ⊢
  exact respelled h

theorem escape (small : v.isBetween '1' '9' = false) (h : Unnumbered inSet r) :
    Unnumbered inSet (unit '\\' :: v :: r) := by
  unfold Unnumbered at *
  rw [refersByNumber_escape, h, small, Bool.and_false, Bool.or_false]

/-- What stands behind an escape may be respelled. -/
theorem respell_escape {r' : Text} (h : Unnumbered inSet (unit '\\' :: v :: r))
    (respelled : Unnumbered inSet r → Unnumbered inSet r') :
    Unnumbered inSet (unit '\\' :: v :: r') := by
  unfold Unnumbered at *
  rw [refersByNumber_escape, Bool.or_eq_false_iff] at h ⊢
  exact ⟨h.1, respelled h.2⟩

theorem withoutCapturesFrom {skip : Nat} (h : Unnumbered inSet (t.drop skip)) :
    Unnumbered inSet (Regex.withoutCapturesFrom inSet skip t) := by
  fun_induction Regex.withoutCapturesFrom inSet skip t with
  | case1 => rfl
  | case2 inSet skip u r ih => exact ih h
  | case3 => exact h
  | case4 inSet v r ih => exact h.respell_escape ih
  | case5 u r escape ih => exact h.respell (if_pos rfl) escape ih
  | case6 inSet r outside escape ih =>
    obtain rfl := Bool.eq_false_iff.2 outside
    exact h.respell rfl escape ih
  | case7 inSet r outside length mark _ _ ih =>
    obtain rfl := Bool.eq_false_iff.2 outside
    have behind : Unnumbered false r := (behind_plain (by decide)).1 h
    exact prepend (Plain.of_all (by decide)) (ih ((namedMark?_skips mark).unnumbered.1 behind))
  | case8 inSet r outside mark question escape _ ih =>
    obtain rfl := Bool.eq_false_iff.2 outside
    exact h.respell rfl escape ih
  | case9 inSet r outside _ _ _ _ ih =>
    obtain rfl := Bool.eq_false_iff.2 outside
    exact prepend (Plain.of_all (by decide)) (ih ((behind_plain (by decide)).1 h))
  | case10 inSet u r escape outside opening _ ih =>
    obtain rfl := Bool.eq_false_iff.2 outside
    exact h.respell (decide_eq_false opening) escape ih

theorem respelledFrom {skip : Nat} (h : Unnumbered inSet (t.drop skip)) :
    Unnumbered inSet (Regex.respelledFrom inSet skip t) := by
  fun_induction Regex.respelledFrom inSet skip t with
  | case1 => rfl
  | case2 inSet skip u r ih => exact ih h
  | case3 => exact h
  | case4 inSet v r ih => exact h.respell_escape ih
  | case5 u r escape ih => exact h.respell (if_pos rfl) escape ih
  | case6 inSet r outside escape ih =>
    obtain rfl := Bool.eq_false_iff.2 outside
    exact h.respell rfl escape ih
  | case7 inSet u r escape outside _ named ih =>
    obtain rfl := Bool.eq_false_iff.2 outside
    obtain ⟨rfl, starts⟩ := named
    have behind : Unnumbered false r := (behind_plain (by decide)).1 h
    have front := Skips.drop_prefix starts (Plain.of_all (by decide))
    exact prepend (Plain.of_all (by decide)) (ih (front.unnumbered.1 behind))
  | case8 inSet u r escape outside _ _ named length measured ih =>
    obtain rfl := Bool.eq_false_iff.2 outside
    obtain ⟨rfl, starts⟩ := named
    have behind : Unnumbered false r := (behind_plain (by decide)).1 h
    have skips : Skips (r.drop 3) ((r.drop 3).drop length) := nameLength?_skips (by decide) measured
    have front := Skips.drop_prefix starts (Plain.of_all (by decide))
    have rest := ih (by
      rw [Nat.add_comm, ← List.drop_drop]
      exact skips.unnumbered.1 (front.unnumbered.1 behind))
    obtain ⟨name, after, parts, rfl, word⟩ := nameLength?_eq_some measured
    rw [parts, Nat.add_sub_cancel, List.take_left]
    have inner : ∀ u ∈ unit '<' :: (name ++ [unit '>']), Plain u := by
      intro u inside
      obtain rfl | inside := List.mem_cons.1 inside
      · decide
      · obtain inside | inside := List.mem_append.1 inside
        · exact .of_word (word u inside)
        · obtain rfl := List.mem_singleton.1 inside
          decide
    have reference : Text.ofString "\\k<" ++ name ++ Text.ofString ">" =
        unit '\\' :: unit 'k' :: unit '<' :: (name ++ [unit '>']) := rfl
    rw [reference]
    exact Unnumbered.escape (by decide) (prepend inner rest)
  | case9 inSet u r escape outside opening _ _ _ ih =>
    obtain rfl := Bool.eq_false_iff.2 outside
    exact h.respell (decide_eq_false opening) escape ih
  | case10 inSet u r escape outside opening _ _ ih =>
    obtain rfl := Bool.eq_false_iff.2 outside
    exact h.respell (decide_eq_false opening) escape ih

/-- No number comes in when groups lose their captures. -/
theorem withoutCaptures (h : Unnumbered false t) : Unnumbered false (Regex.withoutCaptures t) :=
  h.withoutCapturesFrom

/-- No number comes in when named groups are respelled. -/
theorem hostSource (h : Unnumbered false t) : Unnumbered false (Regex.hostSource t) := by
  unfold Regex.hostSource
  split
  · rfl
  · rename_i u r
    split
    · rename_i anchor
      subst anchor
      exact respelledFrom ((behind_plain (by decide)).1 h)
    · exact respelledFrom h

end Unnumbered

end Highlight.Regex
