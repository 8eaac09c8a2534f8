import Highlight.Pattern.Sample

/-!
# The members of a set

A set stands for its members one by one: ascending, none of them twice, and just those that its
items contribute. A negated set contributes the rest of the alphabet.
-/

namespace Highlight.Sampling

theorem mem_dropRepeats {u : CodeUnit} (us : List CodeUnit) : u ∈ dropRepeats us ↔ u ∈ us := by
  fun_induction dropRepeats us with
  | case1 => rfl
  | case2 v => rfl
  | case3 v rest ih => rw [ih]; simp
  | case4 v w rest differs ih => rw [List.mem_cons, ih, List.mem_cons (b := v)]

theorem dropRepeats_ascending (us : List CodeUnit) (sorted : us.Pairwise (· ≤ ·)) :
    (dropRepeats us).Pairwise (· < ·) := by
  fun_induction dropRepeats us with
  | case1 => exact .nil
  | case2 u => exact List.pairwise_singleton _ u
  | case3 u rest ih => exact ih sorted.of_cons
  | case4 u v rest differs ih =>
    refine List.pairwise_cons.2 ⟨fun w inside => ?_, ih sorted.of_cons⟩
    obtain ⟨least, sorted⟩ := List.pairwise_cons.1 sorted
    have first : u ≤ v := least v List.mem_cons_self
    have later : v ≤ w := by
      obtain rfl | inside := List.mem_cons.1 ((mem_dropRepeats _).1 inside)
      · exact UInt16.le_refl w
      · exact List.rel_of_pairwise_cons sorted inside
    exact UInt16.lt_of_lt_of_le (UInt16.lt_of_le_of_ne first differs) later

theorem alphabet_ascending : alphabet.Pairwise (· < ·) := by decide +kernel

theorem members_ascending (negated : Bool) (items : List ClassItem) :
    (members negated items).Pairwise (· < ·) := by
  cases negated with
  | true =>
    rw [members, if_pos rfl]
    exact alphabet_ascending.filter _
  | false =>
    rw [members, if_neg Bool.false_ne_true]
    apply dropRepeats_ascending
    have sorted := @List.pairwise_mergeSort CodeUnit (fun u v => decide (u ≤ v))
      (fun u v w => by simpa using UInt16.le_trans)
      (fun u v => by simpa using UInt16.le_total u v) (items.flatMap itemMembers)
    exact sorted.imp of_decide_eq_true

theorem mem_members {u : CodeUnit} {items : List ClassItem} :
    u ∈ members false items ↔ ∃ item ∈ items, u ∈ itemMembers item := by
  rw [members, if_neg Bool.false_ne_true, mem_dropRepeats, List.mem_mergeSort, List.mem_flatMap]

theorem mem_members_negated {u : CodeUnit} {items : List ClassItem} :
    u ∈ members true items ↔ u ∈ alphabet ∧ ∀ item ∈ items, item.holds u = false := by
  simp [members]

end Highlight.Sampling
