import Highlight.Style.Color
import Mathlib.Algebra.Order.Ring.Int
import Mathlib.Data.List.Induction

/-!
# The nearest of several colours

A search for the least measure keeps the entry at hand unless a later one is strictly less, so it
ends with the first of the least entries (`IsFirstLeast`). The search for the nearest colour is one
such search, and the search among the terminal colours another, in which first means least index.
-/

namespace Highlight

variable {α κ δ : Type} [LinearOrder δ]

/-- `entry` is the first of the entries with the least measure. -/
def IsFirstLeast (measure : α → δ) (entries : List α) (entry : α) : Prop :=
  ∃ before after, entries = before ++ entry :: after ∧
    (∀ other ∈ before, measure entry < measure other) ∧
    ∀ other ∈ after, measure entry ≤ measure other

namespace IsFirstLeast

variable {measure : α → δ} {entries : List α} {entry other : α}

theorem mem (least : IsFirstLeast measure entries entry) : entry ∈ entries := by
  obtain ⟨before, after, rfl, _⟩ := least
  exact List.mem_append_cons_self

theorem le (least : IsFirstLeast measure entries entry) (inside : other ∈ entries) :
    measure entry ≤ measure other := by
  obtain ⟨before, after, rfl, earlier, later⟩ := least
  obtain front | same | back := (List.mem_append.1 inside).imp_right List.mem_cons.1
  · exact le_of_lt (earlier other front)
  · rw [same]
  · exact later other back

theorem of_map {f : κ → α} {keys : List κ} (least : IsFirstLeast measure (keys.map f) entry) :
    ∃ key, entry = f key ∧ IsFirstLeast (measure ∘ f) keys key := by
  obtain ⟨before, after, split, earlier, later⟩ := least
  obtain ⟨front, rest, rfl, rfl, others⟩ := List.map_eq_append_iff.1 split
  obtain ⟨key, back, rfl, rfl, rfl⟩ := List.map_eq_cons_iff.1 others
  refine ⟨key, rfl, front, back, rfl, fun other inside => ?_, fun other inside => ?_⟩
  · exact earlier _ (List.mem_map_of_mem inside)
  · exact later _ (List.mem_map_of_mem inside)

end IsFirstLeast

/-- The search from an entry at hand: the invariant is that what has been left behind is greater
before the entry at hand and not less after it. -/
theorem foldl_isFirstLeast (best : κ × δ) (entries : List (κ × δ)) :
    IsFirstLeast (·.2) (best :: entries)
      (entries.foldl (fun best entry => if decide (entry.2 < best.2) then entry else best) best) := by
  induction entries using List.reverseRecOn with
  | nil => exact ⟨[], [], rfl, nofun, nofun⟩
  | append_singleton entries entry ih =>
    obtain ⟨before, after, split, earlier, later⟩ := id ih
    rw [List.foldl_append]
    generalize entries.foldl _ best = found at split earlier later ih ⊢
    show IsFirstLeast _ _ (if decide (entry.2 < found.2) = true then entry else found)
    by_cases less : entry.2 < found.2
    · rw [if_pos (decide_eq_true less)]
      refine ⟨best :: entries, [], rfl, fun other inside => ?_, nofun⟩
      exact lt_of_lt_of_le less (ih.le inside)
    · rw [if_neg (by simpa using less)]
      refine ⟨before, after ++ [entry], ?_, earlier, fun other inside => ?_⟩
      · rw [← List.cons_append, split, List.append_assoc, List.cons_append]
      · obtain inside | same := List.mem_append.1 inside
        · exact later other inside
        · rw [List.mem_singleton.1 same]
          exact not_lt.1 less

theorem leastKey?_eq_some {entries : List (κ × δ)} (nonempty : entries ≠ []) :
    ∃ entry, leastKey? (fun a b => decide (a < b)) entries = some entry.1 ∧
      IsFirstLeast (·.2) entries entry := by
  cases entries with
  | nil => exact absurd rfl nonempty
  | cons first rest => exact ⟨_, rfl, foldl_isFirstLeast first rest⟩

namespace Rgb

/-- `key` stands for the colour that is nearest to the target, as the first of several. -/
def IsNearest (target : Rgb) (entries : List (κ × Rgb)) (key : κ) (color : Rgb) : Prop :=
  IsFirstLeast (fun entry => target.distance entry.2) entries (key, color)

theorem nearest?_eq_some (target : Rgb) {entries : List (κ × Rgb)} (nonempty : entries ≠ []) :
    ∃ key color, target.nearest? entries = some key ∧ target.IsNearest entries key color := by
  have measured : (entries.map fun entry => (entry.1, target.distance entry.2)) ≠ [] := by
    simpa using nonempty
  obtain ⟨entry, found, least⟩ := leastKey?_eq_some measured
  obtain ⟨⟨key, color⟩, rfl, nearest⟩ := least.of_map
  exact ⟨key, color, found, nearest⟩

theorem distance_self (color : Rgb) : color.distance color = 0 := by
  simp [distance]

theorem distance_nonneg (a b : Rgb) : 0 ≤ a.distance b :=
  Int.add_nonneg (Int.add_nonneg (mul_self_nonneg _) (mul_self_nonneg _)) (mul_self_nonneg _)

end Rgb

namespace Color

/-- The terminal index of a colour is the least of those from 16 to 255 at the least distance. -/
theorem terminalIndex_least (color : Rgb) :
    16 ≤ terminalIndex color ∧ terminalIndex color ≤ 255 ∧ ∀ index, 16 ≤ index → index ≤ 255 →
      color.distance (terminal (terminalIndex color)) ≤ color.distance (terminal index) ∧
      (color.distance (terminal index) = color.distance (terminal (terminalIndex color)) →
        terminalIndex color ≤ index) := by
  have nonempty : terminals ≠ [] := List.cons_ne_nil _ _
  obtain ⟨key, near, found, least⟩ := color.nearest?_eq_some nonempty
  have chosen : terminalIndex color = key := by rw [terminalIndex, found]; rfl
  obtain ⟨_, same, first⟩ := IsFirstLeast.of_map (f := fun index => (index, terminal index)) least
  cases same
  have bounds : ∀ {index}, index ∈ List.range' 16 240 ↔ 16 ≤ index ∧ index ≤ 255 := by
    intro index
    rw [List.mem_range'_1]
    omega
  rw [chosen]
  refine ⟨(bounds.1 first.mem).1, (bounds.1 first.mem).2, fun index low high => ?_⟩
  refine ⟨first.le (bounds.2 ⟨low, high⟩), fun same => ?_⟩
  obtain ⟨before, after, split, earlier, later⟩ := first
  have ascending : (before ++ key :: after).Pairwise (· < ·) := split ▸ List.pairwise_lt_range'
  have inside : index ∈ before ++ key :: after := split ▸ bounds.2 ⟨low, high⟩
  obtain front | rfl | back := (List.mem_append.1 inside).imp_right List.mem_cons.1
  · exact absurd same (ne_of_gt (earlier index front))
  · exact Nat.le_refl _
  · exact Nat.le_of_lt (List.rel_of_pairwise_cons (List.pairwise_append.1 ascending).2.1 back)

end Color

end Highlight
