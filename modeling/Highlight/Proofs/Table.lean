import Highlight.Table
import Mathlib.Data.List.Induction

/-!
# Tables

What a table answers after it was changed, mapped or brought into another order.
-/

namespace Highlight.Table

variable {κ α : Type} [DecidableEq κ] {table : Table κ α} {key : κ} {value : α}

theorem mem_of_get? (found : get? table key = some value) : (key, value) ∈ table := by
  fun_induction get? table key with
  | case1 => cases found
  | case2 rest value =>
    cases found
    exact List.mem_cons_self
  | case3 other value rest differs ih => exact List.mem_cons_of_mem _ (ih found)

theorem mem_of_positionsFirst {table : Table Text α} {entry : Text × α}
    (inside : entry ∈ positionsFirst table) : entry ∈ table := by
  obtain sorted | other := List.mem_append.1 inside
  · obtain ⟨numbered, listed, rfl⟩ := List.mem_map.1 sorted
    obtain ⟨entry, held, numbers⟩ := List.mem_filterMap.1 (List.mem_mergeSort.1 listed)
    obtain ⟨n, _, rfl⟩ := Option.map_eq_some_iff.1 numbers
    exact held
  · exact (List.mem_filter.1 other).1

theorem mem_positionsFirst {table : Table Text α} {entry : Text × α} :
    entry ∈ positionsFirst table ↔ entry ∈ table := by
  refine ⟨mem_of_positionsFirst, fun held => ?_⟩
  unfold positionsFirst
  rw [List.mem_append]
  cases number : position? entry.1 with
  | none => exact .inr (List.mem_filter.2 ⟨held, by rw [number]; rfl⟩)
  | some n =>
    refine .inl (List.mem_map.2 ⟨(n, entry), List.mem_mergeSort.2 ?_, rfl⟩)
    exact List.mem_filterMap.2 ⟨entry, held, by rw [number]; rfl⟩

/-- The order of the keys does not depend on the values. -/
theorem positionsFirst_map {α β : Type} (table : Table Text α) (f : Text → α → β) :
    positionsFirst (table.map fun entry => (entry.1, f entry.1 entry.2)) =
      (positionsFirst table).map fun entry => (entry.1, f entry.1 entry.2) := by
  let move (entry : Text × α) : Text × β := (entry.1, f entry.1 entry.2)
  have sorted (positions : List (Nat × Text × α)) :
      (positions.map fun p => (p.1, move p.2)).mergeSort (fun p q => decide (p.1 ≤ q.1)) =
        (positions.mergeSort fun p q => decide (p.1 ≤ q.1)).map fun p => (p.1, move p.2) := by
    rw [List.map_mergeSort]
    intros
    rfl
  have numbered : ((table.map move).filterMap fun entry =>
      (position? entry.1).map fun n => (n, entry)) =
        (table.filterMap fun entry => (position? entry.1).map fun n => (n, entry)).map
          fun p => (p.1, move p.2) := by
    rw [List.map_filterMap, List.filterMap_map]
    congr 1
    funext entry
    simp only [Function.comp, Option.map_map]
    rfl
  have others : (table.map move).filter (fun entry => (position? entry.1).isNone) =
      (table.filter fun entry => (position? entry.1).isNone).map move := List.filter_map
  unfold positionsFirst
  dsimp only
  rw [numbered, others, sorted, List.map_append, List.map_map, List.map_map]
  rfl

theorem has_iff {table : Table κ α} : has table key = true ↔ key ∈ keys table := by
  unfold has keys
  induction table with
  | nil => simp [get?]
  | cons entry rest ih =>
    obtain ⟨first, held⟩ := entry
    rw [get?, List.map_cons, List.mem_cons]
    by_cases here : first = key
    · simp [here]
    · rw [if_neg here, ih]
      simp [Ne.symm here]

theorem mem_keys_of_get? {table : Table κ α} (found : get? table key = some value) :
    key ∈ keys table := by
  rw [← has_iff, has, found]
  rfl

theorem get?_eq_none_iff {table : Table κ α} : get? table key = none ↔ key ∉ keys table := by
  rw [← has_iff, has]
  cases get? table key <;> simp

theorem get?_of_mem {table : Table κ α} (single : (keys table).Nodup)
    (listed : (key, value) ∈ table) : get? table key = some value := by
  induction table with
  | nil => cases listed
  | cons entry rest ih =>
    obtain ⟨fresh, single⟩ := List.nodup_cons.1 single
    rw [get?]
    obtain rfl | later := List.mem_cons.1 listed
    · exact if_pos rfl
    · rw [if_neg, ih single later]
      rintro rfl
      exact fresh (List.mem_map.2 ⟨_, later, rfl⟩)

/-- The order of the entries does not matter to a key that stands once. -/
theorem get?_perm {first second : Table κ α} (perm : first.Perm second)
    (single : (keys second).Nodup) (key : κ) : get? first key = get? second key := by
  have same : (keys first).Perm (keys second) := perm.map _
  cases held : get? second key with
  | some value => exact get?_of_mem (same.nodup_iff.2 single) (perm.mem_iff.2 (mem_of_get? held))
  | none =>
    rw [get?_eq_none_iff] at held ⊢
    exact fun listed => held (same.mem_iff.1 listed)

theorem get?_set (table : Table κ α) (key : κ) (value : α) (other : κ) :
    get? (set table key value) other = if key = other then some value else get? table other := by
  induction table with
  | nil => rfl
  | cons entry rest ih =>
    obtain ⟨first, held⟩ := entry
    rw [set]
    by_cases here : first = key
    · subst here
      rw [if_pos rfl, get?, get?]
      by_cases same : first = other
      · rw [if_pos same, if_pos same]
      · rw [if_neg same, if_neg same, if_neg same]
    · rw [if_neg here, get?, get?, ih]
      by_cases same : first = other
      · rw [if_pos same, if_pos same, if_neg fun h => here (same.trans h.symm)]
      · rw [if_neg same, if_neg same]

/-- A new key stands at the end. -/
theorem set_of_not_mem {table : Table κ α} (fresh : key ∉ keys table) (value : α) :
    set table key value = table ++ [(key, value)] := by
  induction table with
  | nil => rfl
  | cons entry rest ih =>
    obtain ⟨differs, later⟩ := not_or.1 fun inside => fresh (List.mem_cons.2 inside)
    rw [set, if_neg (Ne.symm differs), ih later]
    rfl

theorem keys_set_of_mem {table : Table κ α} (present : key ∈ keys table) (value : α) :
    keys (set table key value) = keys table := by
  induction table with
  | nil => cases present
  | cons entry rest ih =>
    obtain ⟨first, held⟩ := entry
    rw [set]
    by_cases here : first = key
    · rw [if_pos here]
      rfl
    · rw [if_neg here]
      exact congrArg (first :: ·) (ih ((List.mem_cons.1 present).resolve_left (Ne.symm here)))

/-- A key stands once in a table that is set. -/
theorem nodup_keys_set {table : Table κ α} (single : (keys table).Nodup) (key : κ) (value : α) :
    (keys (set table key value)).Nodup := by
  by_cases present : key ∈ keys table
  · rwa [keys_set_of_mem present]
  · rw [set_of_not_mem present, keys, List.map_append, List.nodup_append]
    refine ⟨single, List.pairwise_singleton _ _, fun other listed last own same => present ?_⟩
    have own : last = key := List.mem_singleton.1 own
    rwa [← own, ← same]

theorem get?_append (first second : Table κ α) (key : κ) :
    get? (first ++ second) key = (get? first key).or (get? second key) := by
  induction first with
  | nil => rfl
  | cons entry first ih =>
    rw [List.cons_append, get?, get?, ih]
    split <;> rfl

theorem ofList_concat (entries : List (κ × α)) (entry : κ × α) :
    ofList (entries ++ [entry]) = set (ofList entries) entry.1 entry.2 := by
  rw [ofList, List.foldl_append]
  rfl

/-- Of several settings of a key the last one counts. -/
theorem get?_ofList_eq_some_iff {entries : List (κ × α)} :
    get? (ofList entries) key = some value ↔
      ∃ before after, entries = before ++ (key, value) :: after ∧ key ∉ keys after := by
  constructor
  · intro found
    induction entries using List.reverseRecOn with
    | nil => cases found
    | append_singleton entries entry ih =>
      rw [ofList_concat, get?_set] at found
      split at found
      · next same =>
        cases found
        exact ⟨entries, [], by rw [← same], List.not_mem_nil⟩
      · next other =>
        obtain ⟨before, after, rfl, last⟩ := ih found
        refine ⟨before, after ++ [entry], by simp, ?_⟩
        rw [keys, List.map_append, List.mem_append, not_or]
        exact ⟨last, fun same => other (List.mem_singleton.1 same).symm⟩
  · rintro ⟨before, after, rfl, last⟩
    induction after using List.reverseRecOn with
    | nil => rw [ofList_concat, get?_set, if_pos rfl]
    | append_singleton after entry ih =>
      rw [keys, List.map_append, List.mem_append, not_or] at last
      rw [← List.cons_append, ← List.append_assoc, ofList_concat, get?_set, if_neg, ih last.1]
      exact fun same => last.2 (List.mem_singleton.2 same.symm)

theorem mem_keys_ofList {entries : List (κ × α)} :
    key ∈ keys (ofList entries) ↔ key ∈ keys entries := by
  induction entries using List.reverseRecOn with
  | nil => rfl
  | append_singleton entries entry ih =>
    rw [ofList_concat, ← has_iff, has, get?_set, keys, List.map_append, List.mem_append]
    split
    · next same => exact ⟨fun _ => .inr (List.mem_singleton.2 same.symm), fun _ => rfl⟩
    · next other =>
      have last : key ∉ [entry].map (·.1) := fun inside => other (List.mem_singleton.1 inside).symm
      rw [or_iff_left last, ← keys, ← ih, ← has_iff, has]

/-- Settings of different keys are the table itself. -/
theorem ofList_of_nodup {entries : List (κ × α)} (single : (keys entries).Nodup) :
    ofList entries = entries := by
  induction entries using List.reverseRecOn with
  | nil => rfl
  | append_singleton entries entry ih =>
    rw [keys, List.map_append, List.nodup_append] at single
    have fresh : entry.1 ∉ keys entries := fun inside =>
      single.2.2 entry.1 inside entry.1 List.mem_cons_self rfl
    rw [ofList_concat, ih single.1, set_of_not_mem fresh]

theorem nodup_keys_ofList (entries : List (κ × α)) :
    (keys (ofList entries)).Nodup := by
  induction entries using List.reverseRecOn with
  | nil => exact .nil
  | append_singleton entries entry ih =>
    rw [ofList_concat]
    exact nodup_keys_set ih _ _

theorem mem_of_mem_ofList {entries : List (κ × α)} {entry : κ × α}
    (listed : entry ∈ ofList entries) : entry ∈ entries := by
  obtain ⟨before, after, rfl, -⟩ :=
    get?_ofList_eq_some_iff.1 (get?_of_mem (nodup_keys_ofList entries) listed)
  simp

end Highlight.Table
