import Highlight.Text.Basic
import Mathlib

/-!
# The pieces of a text

A text falls into pieces at the units equal to a separator. No piece holds the separator
(`Text.not_mem_of_mem_splitAt`), and a separator between two texts keeps their pieces apart
(`Text.splitAt_append_sep`). Lines that are written one after the other are read back as they were
just if none of them holds a line feed (`Text.splitAt_lines_eq_iff`).
-/

namespace Highlight.Text

variable {sep : CodeUnit} {s t : Text} {ts : List Text}

theorem exists_splitAt (sep : CodeUnit) (t : Text) : ∃ piece pieces, splitAt sep t = piece :: pieces := by
  induction t with
  | nil => exact ⟨[], [], rfl⟩
  | cons u t ih =>
    obtain ⟨piece, pieces, rest⟩ := ih
    by_cases here : u = sep
    · exact ⟨[], splitAt sep t, if_pos here⟩
    · refine ⟨u :: piece, pieces, ?_⟩
      rw [splitAt, if_neg here, rest]

theorem splitAt_cons_sep (sep : CodeUnit) (t : Text) :
    splitAt sep (sep :: t) = [] :: splitAt sep t := if_pos rfl

theorem splitAt_append_sep (sep : CodeUnit) (s t : Text) :
    splitAt sep (s ++ sep :: t) = splitAt sep s ++ splitAt sep t := by
  induction s with
  | nil => exact splitAt_cons_sep sep t
  | cons u s ih =>
    rw [List.cons_append, splitAt, splitAt, ih]
    obtain ⟨piece, pieces, first⟩ := exists_splitAt sep s
    split
    · rfl
    · rw [first]
      rfl

/-- The pieces with separators between them are the text. -/
theorem join_splitAt (sep : CodeUnit) (t : Text) : join [sep] (splitAt sep t) = t := by
  induction t with
  | nil => rfl
  | cons u t ih =>
    obtain ⟨piece, pieces, split⟩ := exists_splitAt sep t
    rw [split] at ih
    rw [splitAt, split]
    by_cases here : u = sep
    · rw [if_pos here, join, List.intercalate_cons_cons, ← join, ih, here]
      rfl
    · rw [if_neg here, ← ih]
      cases pieces with
      | nil => rfl
      | cons next pieces => simp only [join, List.intercalate_cons_cons, List.cons_append]

theorem join_append {first second : List Text} (filled : first ≠ []) (filled' : second ≠ []) :
    join s (first ++ second) = join s first ++ s ++ join s second := by
  obtain ⟨next, others, rfl⟩ := List.exists_cons_of_ne_nil filled'
  induction first with
  | nil => exact absurd rfl filled
  | cons t first ih =>
    cases first with
    | nil => simp [join, List.intercalate_cons_cons]
    | cons t' first =>
      have rest := ih (List.cons_ne_nil t' first)
      simp only [join, List.cons_append, List.intercalate_cons_cons, List.append_assoc] at rest ⊢
      rw [rest]

theorem splitAt_plain (plain : sep ∉ t) : splitAt sep t = [t] := by
  induction t with
  | nil => rfl
  | cons u t ih =>
    have first : u ≠ sep := fun same => plain (same ▸ List.mem_cons_self)
    rw [splitAt, if_neg first, ih fun inside => plain (List.mem_cons_of_mem _ inside)]

/-- What holds no separator ends the last piece. -/
theorem splitAt_append_plain (plain : sep ∉ t) (s : Text) : ∃ before front,
    splitAt sep s = before ++ [front] ∧ splitAt sep (s ++ t) = before ++ [front ++ t] := by
  induction s with
  | nil => exact ⟨[], [], rfl, splitAt_plain plain⟩
  | cons u s ih =>
    obtain ⟨before, front, alone, split⟩ := ih
    rw [List.cons_append, splitAt, splitAt, alone, split]
    by_cases here : u = sep
    · exact ⟨[] :: before, front, by rw [if_pos here]; rfl, if_pos here⟩
    · rw [if_neg here, if_neg here]
      cases before with
      | nil => exact ⟨[], u :: front, rfl, rfl⟩
      | cons piece before => exact ⟨(u :: piece) :: before, front, rfl, rfl⟩

theorem exists_splitAt_append (plain : sep ∉ t) (s : Text) :
    ∃ before front, splitAt sep (s ++ t) = before ++ [front ++ t] := by
  obtain ⟨before, front, -, split⟩ := splitAt_append_plain plain s
  exact ⟨before, front, split⟩

/-- What holds no separator begins the first piece. -/
theorem splitAt_plain_append (plain : sep ∉ s) (t : Text) : ∃ front after,
    splitAt sep t = front :: after ∧ splitAt sep (s ++ t) = (s ++ front) :: after := by
  obtain ⟨front, after, alone⟩ := exists_splitAt sep t
  refine ⟨front, after, alone, ?_⟩
  induction s with
  | nil => exact alone
  | cons u s ih =>
    obtain ⟨here, later⟩ := not_or.1 (mt List.mem_cons.2 plain)
    rw [List.cons_append, splitAt, if_neg (Ne.symm here), ih later]
    rfl

theorem not_mem_of_mem_splitAt {piece : Text} (inside : piece ∈ splitAt sep t) : sep ∉ piece := by
  induction t generalizing piece with
  | nil =>
    rw [splitAt, List.mem_singleton] at inside
    rw [inside]
    exact List.not_mem_nil
  | cons u t ih =>
    obtain ⟨first, pieces, rest⟩ := exists_splitAt sep t
    rw [splitAt, rest] at inside
    rw [rest] at ih
    split at inside
    · obtain rfl | inside := List.mem_cons.1 inside
      · exact List.not_mem_nil
      · exact ih inside
    · next differs =>
      obtain rfl | inside := List.mem_cons.1 inside
      · rw [List.mem_cons, not_or]
        exact ⟨Ne.symm differs, ih List.mem_cons_self⟩
      · exact ih (List.mem_cons_of_mem _ inside)

theorem mem_of_mem_splitAt {u : CodeUnit} {q : Text} (listed : q ∈ splitAt sep t)
    (inside : u ∈ q) : u ∈ t := by
  induction t generalizing q with
  | nil =>
    rw [splitAt, List.mem_singleton] at listed
    rw [listed] at inside
    cases inside
  | cons v t ih =>
    obtain ⟨first, pieces, rest⟩ := exists_splitAt sep t
    rw [splitAt, rest] at listed
    rw [rest] at ih
    split at listed
    · obtain rfl | later := List.mem_cons.1 listed
      · cases inside
      · exact List.mem_cons_of_mem _ (ih later inside)
    · obtain rfl | later := List.mem_cons.1 listed
      · obtain rfl | inside := List.mem_cons.1 inside
        · exact List.mem_cons_self
        · exact List.mem_cons_of_mem _ (ih List.mem_cons_self inside)
      · exact List.mem_cons_of_mem _ (ih (List.mem_cons_of_mem _ later) inside)

theorem flatMap_splitAt_eq_iff : ts.flatMap (splitAt sep) = ts ↔ ∀ t ∈ ts, sep ∉ t := by
  constructor
  · intro same t listed
    rw [← same] at listed
    obtain ⟨whole, -, inside⟩ := List.mem_flatMap.1 listed
    exact not_mem_of_mem_splitAt inside
  · intro plain
    rw [List.flatMap_congr fun t listed => splitAt_plain (plain t listed)]
    exact List.flatMap_singleton' ts

/-! ## Between delimiters -/

/-- The pieces that stand between an opening and a closing delimiter. -/
def between : List Text → List Text
  | _ :: inside :: behind :: rest => inside :: between (behind :: rest)
  | _ => []

/-- What stands between delimiters, as a scan to the next delimiter finds it. -/
def enclosed (sep : CodeUnit) (t : Text) : List Text := between (splitAt sep t)

theorem between_cons (s t : Text) : ∀ ts, between (s :: ts) = between (t :: ts)
  | [] | [_] | _ :: _ :: _ => rfl

theorem between_concat (s t : Text) : ∀ ts, between (ts ++ [s]) = between (ts ++ [t])
  | [] | [_] | [_, _] => rfl
  | _ :: inside :: behind :: rest =>
    congrArg (inside :: ·) (between_concat s t (behind :: rest))

theorem mem_of_mem_between : ∀ {ts : List Text}, t ∈ between ts → t ∈ ts
  | _ :: _ :: _ :: _, listed => by
    obtain rfl | later := List.mem_cons.1 listed
    · exact List.mem_cons_of_mem _ List.mem_cons_self
    · exact List.mem_cons_of_mem _ (List.mem_cons_of_mem _ (mem_of_mem_between later))

theorem not_mem_of_mem_enclosed (listed : s ∈ enclosed sep t) : sep ∉ s :=
  not_mem_of_mem_splitAt (mem_of_mem_between listed)

/-- What stands in front of all delimiters or behind them encloses nothing. -/
theorem enclosed_append {front back : Text} (plain : sep ∉ front) (plain' : sep ∉ back) (t : Text) :
    enclosed sep (front ++ t ++ back) = enclosed sep t := by
  obtain ⟨first, after, alone, longer⟩ := splitAt_plain_append plain t
  obtain ⟨before, last, whole, longer'⟩ := splitAt_append_plain plain' (front ++ t)
  rw [enclosed, enclosed, longer', between_concat _ last, ← whole, longer, alone,
    between_cons _ first]

/-! ## Lines -/

/-- The unit that ends a line. -/
def lineFeed : CodeUnit := 10

/-- The pieces of texts with separators between them are those of each text. -/
theorem splitAt_join (t : Text) (ts : List Text) :
    splitAt sep (join [sep] (t :: ts)) = (t :: ts).flatMap (splitAt sep) := by
  induction ts generalizing t with
  | nil => rw [join, List.intercalate_singleton, List.flatMap_singleton]
  | cons next ts ih =>
    rw [join, List.intercalate_cons_cons, List.append_assoc, List.singleton_append,
      splitAt_append_sep, List.flatMap_cons, ← ih]
    rfl

/-- The pieces of lines are those of each line, and an empty one behind the last line feed. -/
theorem splitAt_lines (t : Text) (ts : List Text) :
    splitAt lineFeed (lines (t :: ts) ++ "\n") = (t :: ts).flatMap (splitAt lineFeed) ++ [[]] := by
  rw [← splitAt_join]
  exact splitAt_append_sep lineFeed (lines (t :: ts)) []

/-- The text stands in one line. -/
def IsLine (t : Text) : Prop := lineFeed ∉ t

instance (t : Text) : Decidable (IsLine t) := inferInstanceAs (Decidable (¬_))

/-- Lines are read back as they were just if each of them is one. -/
theorem splitAt_lines_eq_iff : splitAt lineFeed (lines (t :: ts) ++ "\n") = (t :: ts) ++ [[]] ↔
    ∀ line ∈ t :: ts, IsLine line := by
  rw [splitAt_lines, List.append_left_inj, flatMap_splitAt_eq_iff]
  rfl

theorem IsLine.mono (line : IsLine t) (part : s ⊆ t) : IsLine s := fun inside => line (part inside)

theorem isLine_append : IsLine (s ++ t) ↔ IsLine s ∧ IsLine t := by
  rw [IsLine, List.mem_append, not_or]
  rfl

theorem IsLine.append (front : IsLine s) (back : IsLine t) : IsLine (s ++ t) :=
  isLine_append.2 ⟨front, back⟩

theorem isLine_fill (count : Nat) {u : CodeUnit} (other : u ≠ lineFeed) : IsLine (fill count u) :=
  fun inside => other (List.eq_of_mem_replicate inside).symm

theorem mem_join_iff {u : CodeUnit} (other : u ∉ s) : u ∈ join s ts ↔ ∃ t ∈ ts, u ∈ t := by
  unfold join
  induction ts with
  | nil => simp
  | cons t ts ih =>
    cases ts with
    | nil => simp
    | cons next ts =>
      rw [List.intercalate_cons_cons, List.mem_append, List.mem_append, or_iff_left other, ih]
      simp only [List.mem_cons, exists_eq_or_imp]

theorem isLine_join (between : IsLine s) (each : ∀ t ∈ ts, IsLine t) : IsLine (join s ts) := by
  intro inside
  obtain ⟨t, listed, inside⟩ := (mem_join_iff between).1 inside
  exact each t listed inside

/-- What is replaced brings in only what is written instead. -/
theorem not_mem_replace {old new : Text} {u : CodeUnit} (written : u ∉ new) (absent : u ∉ t) :
    u ∉ replace old new t := by
  have skipping (k : Nat) : u ∉ replaceFrom old new k t := by
    induction t generalizing k with
    | nil => cases k <;> exact List.not_mem_nil
    | cons v r ih =>
      have rest := ih (fun inside => absent (List.mem_cons_of_mem v inside))
      cases k with
      | succ k => exact rest k
      | zero =>
        rw [replaceFrom]
        split
        · exact mt List.mem_append.1 (not_or.2 ⟨written, rest _⟩)
        · exact List.not_mem_cons_of_ne_of_not_mem
            (fun same => absent (same ▸ List.mem_cons_self)) (rest 0)
  exact skipping 0

theorem isLine_replace {old new : Text} (written : IsLine new) (line : IsLine t) :
    IsLine (replace old new t) := not_mem_replace written line

end Highlight.Text
