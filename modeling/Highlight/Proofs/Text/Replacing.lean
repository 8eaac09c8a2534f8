import Highlight.Text.Basic
import Mathlib.Data.List.Basic

/-!
# Replacing in a text

Replacing goes through a text from the left: at an occurrence it writes the new text and goes on
behind the occurrence (`Text.replace_append`), elsewhere it keeps the unit (`Text.replace_cons`), and
what the two steps preserve holds of a whole text (`Text.replace_induction`). A single unit is
replaced unit by unit, so that parts of a text are replaced independently (`Text.replace_unit`).
-/

namespace Highlight.Text

variable {old new t : Text}

theorem replaceFrom_eq_replace_drop (old new : Text) (k : Nat) (t : Text) :
    replaceFrom old new k t = replace old new (t.drop k) := by
  induction k generalizing t with
  | zero => rfl
  | succ k ih =>
    cases t with
    | nil => rfl
    | cons u r => exact ih r

/-- An occurrence is replaced, and replacing goes on behind it. -/
theorem replace_append (nonempty : old ≠ []) (new t : Text) :
    replace old new (old ++ t) = new ++ replace old new t := by
  obtain ⟨u, rest, rfl⟩ := List.exists_cons_of_ne_nil nonempty
  have begins : (u :: rest).isPrefixOf (u :: rest ++ t) = true :=
    List.isPrefixOf_iff_prefix.2 (List.prefix_append _ t)
  rw [List.cons_append] at begins ⊢
  rw [replace, replaceFrom, if_pos begins, replaceFrom_eq_replace_drop]
  simp

/-- A unit at which no occurrence begins is kept. -/
theorem replace_cons {u : CodeUnit} (other : ¬ old <+: u :: t) (new : Text) :
    replace old new (u :: t) = u :: replace old new t := by
  have other : ¬ old.isPrefixOf (u :: t) = true := fun begins =>
    other (List.isPrefixOf_iff_prefix.1 begins)
  rw [replace, replaceFrom, if_neg other]
  rfl

/-- What holds of every text and what replacing makes of it, step by step: over a whole occurrence at
once, elsewhere unit by unit. -/
theorem replace_induction (nonempty : old ≠ []) (new : Text) {motive : Text → Text → Prop}
    (nil : motive [] [])
    (whole : ∀ r, motive r (replace old new r) → motive (old ++ r) (new ++ replace old new r))
    (keep : ∀ u r, ¬ old <+: u :: r → motive r (replace old new r) →
      motive (u :: r) (u :: replace old new r)) (t : Text) : motive t (replace old new t) := by
  induction size : t.length using Nat.strongRecOn generalizing t with
  | _ n ih =>
    subst size
    by_cases occurs : old <+: t
    · obtain ⟨r, rfl⟩ := occurs
      have shorter : r.length < (old ++ r).length := by
        rw [List.length_append]
        exact Nat.lt_add_of_pos_left (List.length_pos_iff.2 nonempty)
      rw [replace_append nonempty]
      exact whole r (ih r.length shorter r rfl)
    · cases t with
      | nil => exact nil
      | cons u r =>
        rw [replace_cons occurs]
        exact keep u r occurs (ih r.length (Nat.lt_succ_self _) r rfl)

/-- A single unit is replaced wherever it stands. -/
theorem replace_unit (u : CodeUnit) (new t : Text) :
    replace [u] new t = t.flatMap fun v => if v = u then new else [v] := by
  induction t with
  | nil => rfl
  | cons v t ih =>
    rw [List.flatMap_cons, ← ih]
    split
    · next same =>
      rw [same]
      exact replace_append (List.cons_ne_nil u []) new t
    · next differs =>
      exact replace_cons (fun begins => differs (List.cons_prefix_cons.1 begins).1.symm) new

/-- A unit that is neither replaced nor written stays where it is. -/
theorem mem_replace_iff {u : CodeUnit} (nonempty : old ≠ []) (kept : u ∉ old) (written : u ∉ new) :
    u ∈ replace old new t ↔ u ∈ t := by
  refine replace_induction nonempty new (motive := fun t s => u ∈ s ↔ u ∈ t) Iff.rfl ?_ ?_ t
  · intro r ih
    rw [List.mem_append, List.mem_append, or_iff_right written, or_iff_right kept, ih]
  · intro v r _ ih
    rw [List.mem_cons, List.mem_cons, ih]

end Highlight.Text
