import Highlight.Proofs.Style.Nearest
import Highlight.Proofs.Table
import Highlight.Proofs.Text.Digits
import Highlight.Proofs.Text.Words

/-!
# The palette of a style

The palette is collected by a search for digit runs behind number signs, and the colours of a value
are read off its words. A word that reads as a colour ends where its digit run ends, so its colour
is in the palette (`Palette.mem_mentions_of_word`). The palette holds each colour once, in the order
of first mention, so a search in it finds what a search in all mentions finds
(`Palette.isNearest_mentions`).
-/

namespace Highlight

/-! ## Hexadecimal digits -/

namespace CodeUnit

variable {u : CodeUnit}

/-- The lower case of a hexadecimal digit is one, and is in lower case. -/
theorem isHexDigit_lowerUnit (digit : u.isHexDigit = true) :
    (Text.lowerUnit u).isHexDigit = true ∧
      Text.lowerUnit (Text.lowerUnit u) = Text.lowerUnit u := by
  exact forall_ascii (p := fun u => u.isHexDigit = true → (Text.lowerUnit u).isHexDigit = true ∧
    Text.lowerUnit (Text.lowerUnit u) = Text.lowerUnit u) (by decide)
    (isHexDigit_ascii digit) digit

theorem sign_not_isHexDigit : (unit '#').isHexDigit = false := by decide

end CodeUnit

namespace Color

variable {t hex digits : Text}

/-- Without a number sign in front. -/
def unsigned (t : Text) : Text := if t.head? = some (unit '#') then t.drop 1 else t

theorem lower_digits (each : ∀ u ∈ digits, u.isHexDigit = true) :
    Text.lower digits = digits.map Text.lowerUnit :=
  Text.lower_eq_map fun u inside => CodeUnit.isHexDigit_ascii (each u inside)

theorem normalHex?_eq_some_iff : normalHex? t = some hex ↔
    (∀ u ∈ unsigned t, u.isHexDigit = true) ∧
      ((unsigned t).length = 6 ∧ hex = (unsigned t).map Text.lowerUnit ∨
        (unsigned t).length = 3 ∧
          hex = ((unsigned t).map Text.lowerUnit).flatMap fun u => [u, u]) := by
  show (if !(unsigned t).all CodeUnit.isHexDigit then none
    else if (unsigned t).length = 6 then some (Text.lower (unsigned t))
    else if (unsigned t).length = 3 then some ((Text.lower (unsigned t)).flatMap fun u => [u, u])
    else none) = some hex ↔ _
  generalize unsigned t = digits
  by_cases each : ∀ u ∈ digits, u.isHexDigit = true
  · rw [List.all_eq_true.2 each, if_neg (by decide), lower_digits each, and_iff_right each]
    split
    · next six => simp [six, eq_comm]
    · next other =>
      split
      · next three => simp [three, eq_comm]
      · next none => simp [other, none]
  · have holds : (!digits.all CodeUnit.isHexDigit) = true := by
      rwa [Bool.not_eq_true', ← Bool.not_eq_true, List.all_eq_true]
    rw [if_pos holds]
    exact iff_of_false (Option.some_ne_none hex).symm fun parts => each parts.1

theorem digits_of_normalHex? (found : normalHex? (unit '#' :: digits) = some hex) :
    ∀ u ∈ digits, u.isHexDigit = true := (normalHex?_eq_some_iff.1 found).1

/-- A number sign in front of digits does not change the colour. -/
theorem normalHex?_sign (each : ∀ u ∈ digits, u.isHexDigit = true) :
    normalHex? digits = normalHex? (unit '#' :: digits) := by
  have plain : ¬ digits.head? = some (unit '#') := by
    intro sign
    have digit := each _ (List.mem_of_mem_head? sign)
    rw [CodeUnit.sign_not_isHexDigit] at digit
    cases digit
  have same : unsigned digits = digits := if_neg plain
  refine Option.ext fun hex => ?_
  rw [normalHex?_eq_some_iff, normalHex?_eq_some_iff, same]
  rfl

/-- Six lower-case hexadecimal digits. -/
structure IsNormal (hex : Text) : Prop where
  length : hex.length = 6
  digit : ∀ u ∈ hex, u.isHexDigit = true
  lower : ∀ u ∈ hex, Text.lowerUnit u = u

theorem IsNormal.of_normalHex? (found : normalHex? t = some hex) : IsNormal hex := by
  obtain ⟨each, spelled⟩ := normalHex?_eq_some_iff.1 found
  have small : ∀ u ∈ (unsigned t).map Text.lowerUnit,
      u.isHexDigit = true ∧ Text.lowerUnit u = u := by
    intro u inside
    obtain ⟨v, held, rfl⟩ := List.mem_map.1 inside
    exact CodeUnit.isHexDigit_lowerUnit (each v held)
  obtain ⟨six, rfl⟩ | ⟨three, rfl⟩ := spelled
  · exact ⟨by rw [List.length_map, six], fun u inside => (small u inside).1,
      fun u inside => (small u inside).2⟩
  · have part : ∀ u ∈ ((unsigned t).map Text.lowerUnit).flatMap fun u => [u, u],
        u ∈ (unsigned t).map Text.lowerUnit := by
      intro u inside
      obtain ⟨v, held, twice⟩ := List.mem_flatMap.1 inside
      have same : u = v := by simpa using twice
      exact same ▸ held
    refine ⟨?_, fun u inside => (small u (part u inside)).1,
      fun u inside => (small u (part u inside)).2⟩
    simp [List.length_flatMap, Function.comp_def, List.map_const', three]

/-- Digits in normal form stand for themselves. -/
theorem IsNormal.normalHex? (normal : IsNormal hex) :
    Color.normalHex? (unit '#' :: hex) = some hex := by
  refine normalHex?_eq_some_iff.2 ⟨normal.digit, .inl ⟨normal.length, ?_⟩⟩
  show hex = hex.map Text.lowerUnit
  rw [List.map_congr_left normal.lower, List.map_id']

end Color

namespace Palette

variable {values mentioned : List Text} {palette : Palette} {value digits hex : Text}

/-! ## Mentions -/

/-- A longest digit run behind a number sign is found, whatever stands before the sign. -/
theorem mem_mentionsFrom {rest : Text} (each : ∀ u ∈ digits, u.isHexDigit = true)
    (ends : ∀ u ∈ rest.head?, u.isHexDigit = false) (run : Option Text) (before : Text) :
    digits ∈ mentionsFrom run (before ++ unit '#' :: (digits ++ rest)) := by
  have reading (run : Text) : run.reverse ++ digits ∈ mentionsFrom (some run) (digits ++ rest) := by
    induction digits generalizing run with
    | nil =>
      rw [List.append_nil, List.nil_append]
      cases rest with
      | nil => exact List.mem_singleton_self _
      | cons u rest =>
        have stop := ends u rfl
        rw [mentionsFrom, stop]
        exact List.mem_cons_self
    | cons u digits ih =>
      obtain ⟨here, later⟩ := List.forall_mem_cons.1 each
      rw [List.cons_append, mentionsFrom, if_pos here]
      simpa using ih later (u :: run)
  induction before generalizing run with
  | nil =>
    cases run with
    | none => exact reading []
    | some run =>
      rw [List.nil_append, mentionsFrom, CodeUnit.sign_not_isHexDigit]
      exact List.mem_cons_of_mem _ (reading [])
  | cons u before ih =>
    cases run with
    | none => exact ih _
    | some run =>
      rw [List.cons_append, mentionsFrom]
      split
      · exact ih _
      · exact List.mem_cons_of_mem _ (ih _)

/-- The colour of a word is mentioned by the value of the word. -/
theorem mem_mentions_of_word {start : Text}
    (listed : start ++ unit '#' :: digits ∈ Text.words value)
    (found : Color.normalHex? (unit '#' :: digits) = some hex) : hex ∈ mentions value := by
  have each := Color.digits_of_normalHex? found
  obtain ⟨before, after, rfl, ends⟩ := Text.exists_split_of_mem_words listed
  have stop : ∀ u ∈ after.head?, u.isHexDigit = false := by
    intro u first
    cases digit : u.isHexDigit with
    | false => rfl
    | true => exact absurd (ends u first) (by rw [CodeUnit.isHexDigit_solid digit]; decide)
  have run := mem_mentionsFrom each stop none (before ++ start)
  refine List.mem_filterMap.2 ⟨digits, ?_, (Color.normalHex?_sign each).trans found⟩
  simpa using run

theorem isNormal_of_mem_mentions (listed : hex ∈ mentions value) : Color.IsNormal hex := by
  obtain ⟨digits, _, found⟩ := List.mem_filterMap.1 listed
  exact .of_normalHex? found

/-- A colour behind a number sign is all that it mentions. -/
theorem mentions_of_isNormal (normal : Color.IsNormal hex) : mentions (unit '#' :: hex) = [hex] := by
  have reading (run digits : Text) (each : ∀ u ∈ digits, u.isHexDigit = true) :
      mentionsFrom (some run) digits = [run.reverse ++ digits] := by
    induction digits generalizing run with
    | nil =>
      rw [List.append_nil]
      rfl
    | cons u digits ih =>
      obtain ⟨here, later⟩ := List.forall_mem_cons.1 each
      rw [mentionsFrom, if_pos here, ih _ later, List.reverse_cons, List.append_assoc,
        List.singleton_append]
  show (mentionsFrom (some []) hex).filterMap Color.normalHex? = [hex]
  rw [reading [] hex normal.digit]
  exact List.filterMap_cons_some
    ((Color.normalHex?_sign normal.digit).trans normal.normalHex?)

/-! ## Order of mention -/

theorem enter_of_mem (present : hex ∈ Table.keys palette) : enter palette hex = palette :=
  if_pos (Table.has_iff.2 present)

theorem enter_of_not_mem (fresh : hex ∉ Table.keys palette) :
    enter palette hex = palette ++ [(hex, Rgb.ofHex hex)] := by
  rw [enter, if_neg (mt Table.has_iff.1 fresh), Table.set_of_not_mem fresh]

/-- The palette lists mentioned colours with their parts, in the order of first mention: what is
mentioned before an entry of the palette stands before it. -/
structure Lists (palette : Palette) (mentioned : List Text) : Prop where
  mem_iff : ∀ hex, hex ∈ Table.keys palette ↔ hex ∈ mentioned
  order : ∀ before entry after, palette = before ++ entry :: after →
    entry.2 = Rgb.ofHex entry.1 ∧ ∃ front back, mentioned = front ++ entry.1 :: back ∧
      ∀ hex ∈ front, hex ∈ Table.keys before

theorem Lists.nil : Lists [] [] where
  mem_iff _ := Iff.rfl
  order before entry after split := absurd split (by simp)

theorem Lists.enter (lists : Lists palette mentioned) (hex : Text) :
    Lists (enter palette hex) (mentioned ++ [hex]) := by
  by_cases present : hex ∈ Table.keys palette
  · rw [enter_of_mem present]
    refine ⟨fun other => ?_, fun before entry after split => ?_⟩
    · rw [lists.mem_iff, List.mem_append, List.mem_singleton, iff_self_or]
      rintro rfl
      exact (lists.mem_iff _).1 present
    · obtain ⟨parts, front, back, rfl, earlier⟩ := lists.order before entry after split
      exact ⟨parts, front, back ++ [hex], by simp, earlier⟩
  · rw [enter_of_not_mem present]
    refine ⟨fun other => ?_, fun before entry after split => ?_⟩
    · rw [Table.keys, List.map_append, List.mem_append, List.mem_append]
      exact or_congr (lists.mem_iff other) Iff.rfl
    · obtain rfl | ⟨after, last, rfl⟩ := List.eq_nil_or_concat after
      · obtain ⟨rfl, same⟩ := List.append_inj' split rfl
        obtain rfl := (List.cons.inj same).1
        exact ⟨rfl, mentioned, [], rfl, fun other listed => (lists.mem_iff other).2 listed⟩
      · rw [List.concat_eq_append, ← List.cons_append, ← List.append_assoc] at split
        obtain ⟨split, _⟩ := List.append_inj' split rfl
        obtain ⟨parts, front, back, rfl, earlier⟩ := lists.order before entry after split
        exact ⟨parts, front, back ++ [hex], by simp, earlier⟩

theorem lists_foldl (mentioned : List Text) : Lists (mentioned.foldl enter []) mentioned := by
  induction mentioned using List.reverseRecOn with
  | nil => exact .nil
  | append_singleton mentioned hex ih =>
    rw [List.foldl_append]
    exact ih.enter hex

/-- The colours that a list of values mentions, in order and with repetitions. -/
def allMentions (values : List Text) : List Text := values.flatMap mentions

theorem lists_ofValues (values : List Text) : Lists (ofValues values) (allMentions values) :=
  lists_foldl _

/-- The nearest colour of the palette is the nearest one that was mentioned, at its first mention. -/
theorem Lists.isNearest {target color : Rgb} (lists : Lists palette mentioned)
    (nearest : target.IsNearest palette hex color) : color = Rgb.ofHex hex ∧
      target.IsNearest (mentioned.map fun hex => (hex, Rgb.ofHex hex)) hex (Rgb.ofHex hex) := by
  have listed (other : Text) (inside : other ∈ mentioned) : ∃ entry ∈ palette, entry.1 = other :=
    List.mem_map.1 ((lists.mem_iff other).2 inside)
  have parts (entry : Text × Rgb) (inside : entry ∈ palette) : entry.2 = Rgb.ofHex entry.1 := by
    obtain ⟨before, after, split⟩ := List.append_of_mem inside
    exact (lists.order before entry after split).1
  obtain rfl : color = Rgb.ofHex hex := parts _ nearest.mem
  refine ⟨rfl, ?_⟩
  obtain ⟨before, after, split, earlier, later⟩ := id nearest
  obtain ⟨_, front, back, rfl, first⟩ := lists.order before _ after split
  refine ⟨front.map _, back.map _, by rw [List.map_append, List.map_cons], ?_, ?_⟩
  · intro entry inside
    obtain ⟨other, held, rfl⟩ := List.mem_map.1 inside
    obtain ⟨entry, placed, rfl⟩ := List.mem_map.1 (first other held)
    have own := parts entry (split ▸ List.mem_append_left _ placed)
    exact own ▸ earlier entry placed
  · intro entry inside
    obtain ⟨other, held, rfl⟩ := List.mem_map.1 inside
    obtain ⟨entry, placed, rfl⟩ := listed other (by simp [held])
    exact parts entry placed ▸ nearest.le placed

end Palette

end Highlight
