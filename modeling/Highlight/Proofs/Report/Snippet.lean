import Highlight.Report
import Highlight.Proofs.Text.Pieces
import Highlight.Proofs.Text.Replacing

/-!
# Carets under patterns

A snippet shows a pattern on one line, with its line breaks as escapes, and a caret on the next one.
Escaping goes unit by unit, so the part of a pattern in front of a position is shown in front of what
is shown of the rest (`Snippet.escaped_append`), and the caret stands where the latter begins
(`Snippet.render_plain`).
-/

namespace Highlight.Snippet

open Text (lineFeed)

/-- The unit that goes back to the start of a line. -/
def carriageReturn : CodeUnit := 13

/-- What is shown of one unit. -/
def shown (u : CodeUnit) : Text :=
  if u = carriageReturn then "\\r" else if u = lineFeed then "\\n" else [u]

/-- Line breaks are escaped unit by unit. -/
theorem escaped_eq_flatMap (pattern : Text) : escaped pattern = pattern.flatMap shown := by
  have feed : (Text.ofString "\n") = [lineFeed] := by decide
  have return_ : (Text.ofString "\r") = [carriageReturn] := by decide
  rw [escaped, feed, return_, Text.replace_unit, Text.replace_unit, List.flatMap_assoc]
  refine List.flatMap_congr fun u _ => ?_
  unfold shown
  split
  · decide
  · exact List.flatMap_singleton _ u

theorem escaped_append (front back : Text) :
    escaped (front ++ back) = escaped front ++ escaped back := by
  simp only [escaped_eq_flatMap, List.flatMap_append]

/-- The text has no line break of either kind. -/
structure Unbroken (t : Text) : Prop where
  feed : lineFeed ∉ t
  return_ : carriageReturn ∉ t

theorem Unbroken.append {s t : Text} (front : Unbroken s) (back : Unbroken t) :
    Unbroken (s ++ t) :=
  ⟨List.not_mem_append front.feed back.feed, List.not_mem_append front.return_ back.return_⟩

theorem unbroken_shown (u : CodeUnit) : Unbroken (shown u) := by
  unfold shown
  split
  · exact ⟨by decide, by decide⟩
  · next other =>
    split
    · exact ⟨by decide, by decide⟩
    · next other' =>
      exact ⟨fun same => other' (List.mem_singleton.1 same).symm,
        fun same => other (List.mem_singleton.1 same).symm⟩

/-- An escaped pattern stands on one line. -/
theorem unbroken_escaped (pattern : Text) : Unbroken (escaped pattern) := by
  rw [escaped_eq_flatMap]
  constructor
  · intro inside
    obtain ⟨u, -, inside⟩ := List.mem_flatMap.1 inside
    exact (unbroken_shown u).feed inside
  · intro inside
    obtain ⟨u, -, inside⟩ := List.mem_flatMap.1 inside
    exact (unbroken_shown u).return_ inside

theorem unbroken_fill_blank (count : Nat) : Unbroken (Text.fill count (unit ' ')) :=
  ⟨fun inside => absurd (List.eq_of_mem_replicate inside) (by decide),
    fun inside => absurd (List.eq_of_mem_replicate inside) (by decide)⟩

/-- The snippet has two lines: the pattern escaped behind the margin, and below it a caret in the
column where what is shown of the rest of the pattern behind the offset begins. -/
structure Points (snippet pattern : Text) (offset column : Nat) : Prop where
  lines : Text.splitAt lineFeed snippet =
    [margin ++ escaped pattern, margin ++ Text.fill column (unit ' ') ++ "^"]
  unbroken : ∀ line ∈ Text.splitAt lineFeed snippet, Unbroken line
  inside : column ≤ (escaped pattern).length
  below : (escaped pattern).drop column = escaped (pattern.drop offset)

theorem isInside_integer {pattern : Text} {offset : Nat} (inside : offset ≤ pattern.length) :
    isInside pattern (.integer offset) = true := by
  simpa [isInside, Number.integer, Number.lt] using inside

/-- The column in which what is shown behind a position begins. -/
def column (pattern : Text) (offset : Nat) : Nat := (escaped (pattern.take offset)).length

theorem render_plain_eq {pattern : Text} {offset : Nat} (inside : offset ≤ pattern.length) :
    render .plain pattern (some (.integer offset)) = (margin ++ escaped pattern) ++
      lineFeed :: (margin ++ Text.fill (column pattern offset) (unit ' ') ++ "^") := by
  have place : (Number.integer offset).floorNat = offset := by
    simp [Number.integer, Number.floorNat]
  simp [render, isInside_integer inside, place, column, Paint.reopening, Paint.plain,
    Text.ofString, CodeUnit.ofScalar, lineFeed]

/-- The plain snippet of a pattern and a position in it points at that position. -/
theorem render_plain {pattern : Text} {offset : Nat} (inside : offset ≤ pattern.length) :
    Points (render .plain pattern (some (.integer offset))) pattern offset
      (column pattern offset) := by
  have parts : escaped pattern = escaped (pattern.take offset) ++ escaped (pattern.drop offset) := by
    rw [← escaped_append, List.take_append_drop]
  have margin_ : Unbroken margin := ⟨by decide, by decide⟩
  have first : Unbroken (margin ++ escaped pattern) := margin_.append (unbroken_escaped pattern)
  have second : Unbroken (margin ++ Text.fill (column pattern offset) (unit ' ') ++ "^") :=
    (margin_.append (unbroken_fill_blank _)).append ⟨by decide, by decide⟩
  have lines : Text.splitAt lineFeed (render .plain pattern (some (.integer offset))) =
      [margin ++ escaped pattern, margin ++ Text.fill (column pattern offset) (unit ' ') ++ "^"] := by
    rw [render_plain_eq inside, Text.splitAt_append_sep, Text.splitAt_plain first.feed,
      Text.splitAt_plain second.feed]
    rfl
  refine ⟨lines, ?_, ?_, ?_⟩
  · rw [lines]
    exact List.forall_mem_cons.2 ⟨first, List.forall_mem_singleton.2 second⟩
  · rw [parts, List.length_append]
    exact Nat.le_add_right _ _
  · rw [parts]
    exact List.drop_left

end Highlight.Snippet
