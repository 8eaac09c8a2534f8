import Highlight.Catalogue.LookupTable
import Highlight.Proofs.Table

/-!
# Who keeps a key

A language claims its name, its aliases and its extensions, each as it is and in lower case. Of
several languages that claim a key, the last one that is added keeps it
(`LookupTable.get?_addAll`).
-/

namespace Highlight.LookupTable

variable {table : LookupTable} {language : Language} {file key : Text}

/-- The keys that a language claims. -/
def claimed (language : Language) : List Text :=
  (keysOf language).flatMap fun key => [key, Text.lower key]

theorem get?_enter (table : LookupTable) (entered file key : Text) :
    Table.get? (enter table entered file) key =
      if key ∈ [entered, Text.lower entered] then some file else Table.get? table key := by
  rw [enter, Table.get?_set, Table.get?_set]
  by_cases lower : Text.lower entered = key
  · rw [if_pos lower, if_pos (by simp [lower])]
  · rw [if_neg lower]
    by_cases own : entered = key
    · rw [if_pos own, if_pos (by simp [own])]
    · rw [if_neg own, if_neg (by simp [Ne.symm own, Ne.symm lower])]

/-- A language that is added takes the keys that it claims. -/
theorem get?_add (table : LookupTable) (language : Language) (file key : Text) :
    Table.get? (add table language file) key =
      if key ∈ claimed language then some file else Table.get? table key := by
  unfold add claimed
  induction keysOf language generalizing table with
  | nil => rfl
  | cons entered keys ih =>
    rw [List.foldl_cons, ih, get?_enter, List.flatMap_cons]
    simp only [List.mem_append]
    by_cases later : key ∈ keys.flatMap fun key => [key, Text.lower key]
    · rw [if_pos later, if_pos (.inr later)]
    · rw [if_neg later]
      simp only [later, or_false]

/-- The table of languages that are added one after the other, each with its file. -/
def addAll (table : LookupTable) (entries : List (Language × Text)) : LookupTable :=
  entries.foldl (fun table entry => add table entry.1 entry.2) table

/-- The last language that claims a key keeps it. -/
theorem get?_addAll (table : LookupTable) (entries : List (Language × Text)) (key : Text) :
    Table.get? (addAll table entries) key =
      ((entries.reverse.find? fun entry => key ∈ claimed entry.1).map Prod.snd).or
        (Table.get? table key) := by
  induction entries generalizing table with
  | nil => rfl
  | cons entry entries ih =>
    rw [addAll, List.foldl_cons, ← addAll, ih, get?_add, List.reverse_cons, List.find?_append,
      List.find?_singleton]
    cases entries.reverse.find? fun entry => key ∈ claimed entry.1 with
    | some later => rfl
    | none =>
      by_cases own : key ∈ claimed entry.1
      · simp [own]
      · simp [own]

theorem name_mem_claimed (language : Language) : language.name ∈ claimed language :=
  List.mem_flatMap.2 ⟨language.name, List.mem_cons_self, List.mem_cons_self⟩

/-- A table is empty only if no language was added. -/
theorem addAll_eq_nil_iff {entries : List (Language × Text)} : addAll [] entries = [] ↔ entries = [] := by
  constructor
  · intro empty
    obtain rfl | ⟨entries, entry, rfl⟩ := entries.eq_nil_or_concat
    · rfl
    · have held := get?_addAll [] (entries ++ [entry]) entry.1.name
      have claims : decide (entry.1.name ∈ claimed entry.1) = true :=
        decide_eq_true (name_mem_claimed entry.1)
      rw [List.concat_eq_append] at empty
      rw [empty, List.reverse_append, List.reverse_singleton, List.singleton_append,
        List.find?_cons, claims] at held
      cases held
  · rintro rfl
    rfl

end Highlight.LookupTable
