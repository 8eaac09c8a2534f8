import Highlight.Catalogue.Registry
import Highlight.Proofs.Outcome
import Highlight.Proofs.Table
import Mathlib

/-!
# What a registry answers

A registry whose languages have distinct names answers to a name with the one language that has it
(`Registry.get?_eq_some_iff`), or else with the earliest one that has it for an alias
(`Registry.resolve_eq_some_iff`). A list of requests selects the languages that answer, each once
and in the order of the first requests (`Registry.select_selects`).
-/

namespace Highlight

namespace Registry

variable {registry registry' : Registry} {language : Language}

/-- No two languages have one name, letter case apart. -/
def Distinct (languages : List Language) : Prop :=
  (languages.map fun language => Text.lower language.name).Nodup

instance (languages : List Language) : Decidable (Distinct languages) :=
  inferInstanceAs (Decidable (List.Nodup _))

theorem get?_eq_none_iff {name : Text} : registry.get? name = none ↔
    ∀ language ∈ registry.languages, Text.lower language.name ≠ Text.lower name := by
  unfold get?
  rw [List.find?_eq_none]
  simp only [decide_eq_true_eq]

theorem add_eq_ok_iff : registry.add language = .ok registry' ↔
    registry' = ⟨registry.languages ++ [language]⟩ ∧
      ∀ other ∈ registry.languages, Text.lower other.name ≠ Text.lower language.name := by
  rw [← get?_eq_none_iff, add]
  cases registry.get? language.name with
  | none =>
    constructor
    · intro same
      cases same
      exact ⟨rfl, rfl⟩
    · rintro ⟨rfl, -⟩
      rfl
  | some existing => exact ⟨nofun, fun ⟨_, free⟩ => nomatch free⟩

theorem distinct_concat (distinct : Distinct registry.languages) :
    Distinct (registry.languages ++ [language]) ↔
      ∀ other ∈ registry.languages, Text.lower other.name ≠ Text.lower language.name := by
  unfold Distinct
  rw [List.map_append, List.map_singleton, List.nodup_append]
  simp only [List.nodup_singleton, List.mem_singleton, forall_eq, true_and, List.forall_mem_map]
  exact and_iff_right distinct

theorem addAll_eq_ok_iff {languages : List Language} (distinct : Distinct registry.languages) :
    languages.foldlM add registry = .ok registry' ↔
      registry' = ⟨registry.languages ++ languages⟩ ∧ Distinct (registry.languages ++ languages) := by
  induction languages generalizing registry with
  | nil =>
    rw [List.append_nil]
    constructor
    · intro same
      cases same
      exact ⟨rfl, distinct⟩
    · rintro ⟨rfl, -⟩
      rfl
  | cons language languages ih =>
    rw [List.foldlM_cons, except_bind_eq_ok_iff, List.append_cons]
    constructor
    · rintro ⟨next, added, rest⟩
      obtain ⟨rfl, differs⟩ := add_eq_ok_iff.1 added
      exact (ih ((distinct_concat distinct).2 differs)).1 rest
    · rintro ⟨rfl, all⟩
      have front : Distinct (registry.languages ++ [language]) := by
        unfold Distinct at all ⊢
        rw [List.map_append] at all
        exact (List.nodup_append.1 all).1
      exact ⟨_, add_eq_ok_iff.2 ⟨rfl, (distinct_concat distinct).1 front⟩, (ih front).2 ⟨rfl, all⟩⟩

/-- A registry takes languages together if no two of them have one name, letter case apart. -/
theorem ofLanguages_eq_ok_iff {languages : List Language} :
    ofLanguages languages = .ok registry ↔ registry = ⟨languages⟩ ∧ Distinct languages :=
  addAll_eq_ok_iff List.nodup_nil

/-- Languages that a registry took together are told apart by their names, whatever the case. -/
theorem Distinct.eq_of_lower {languages : List Language} (distinct : Distinct languages)
    {first second : Language} (listed : first ∈ languages) (listed' : second ∈ languages)
    (same : Text.lower first.name = Text.lower second.name) : first = second :=
  List.inj_on_of_nodup_map distinct listed listed' same

/-! ## Names and aliases -/

variable {name : Text}

/-- The language has the name for an alias, without regard to case. -/
def HasAlias (language : Language) (name : Text) : Prop :=
  ∃ a ∈ language.aliases, Text.lower a = Text.lower name

/-- A language has the name for an alias, and no language before it in the list has. -/
def EarliestAlias (languages : List Language) (name : Text) (language : Language) : Prop :=
  ∃ before after, languages = before ++ language :: after ∧ HasAlias language name ∧
    ∀ other ∈ before, ¬HasAlias other name

theorem name_of_get? (found : registry.get? name = some language) :
    Text.lower language.name = Text.lower name := by
  have named := List.find?_some found
  rwa [decide_eq_true_eq] at named

/-- The language of a name is the one that has it. -/
theorem get?_eq_some_iff (distinct : Distinct registry.languages) :
    registry.get? name = some language ↔
      language ∈ registry.languages ∧ Text.lower language.name = Text.lower name := by
  constructor
  · intro found
    exact ⟨List.mem_of_find?_eq_some found, name_of_get? found⟩
  · rintro ⟨listed, same⟩
    cases found : registry.get? name with
    | none => exact absurd same (get?_eq_none_iff.1 found language listed)
    | some other =>
      rw [distinct.eq_of_lower listed (List.mem_of_find?_eq_some found)
        (same.trans (name_of_get? found).symm)]

theorem byAlias?_eq_some_iff :
    registry.byAlias? name = some language ↔ EarliestAlias registry.languages name language := by
  have aliased (other : Language) :
      other.aliases.any (fun a => Text.lower a = Text.lower name) = true ↔ HasAlias other name := by
    rw [List.any_eq_true]
    simp only [decide_eq_true_eq]
    rfl
  unfold byAlias?
  rw [List.find?_eq_some_iff_append, aliased]
  constructor
  · rintro ⟨own, before, after, same, none⟩
    refine ⟨before, after, same, own, fun other listed has => ?_⟩
    have differs := none other listed
    rw [(aliased other).2 has] at differs
    cases differs
  · rintro ⟨before, after, same, own, none⟩
    refine ⟨own, before, after, same, fun other listed => ?_⟩
    rw [Bool.not_eq_true', Bool.eq_false_iff, Ne, aliased]
    exact none other listed

/-- A name is that of a language, or else an alias of the earliest one. -/
theorem resolve_eq_some_iff : registry.resolve name = some language ↔
    registry.get? name = some language ∨
      registry.get? name = none ∧ EarliestAlias registry.languages name language := by
  rw [← byAlias?_eq_some_iff, resolve]
  cases registry.get? name with
  | some own => exact ⟨.inl, fun found => found.resolve_right nofun⟩
  | none => exact ⟨fun found => .inr ⟨rfl, found⟩, fun found => (found.resolve_left nofun).2⟩

theorem mem_of_resolve (found : registry.resolve name = some language) :
    language ∈ registry.languages := by
  obtain own | ⟨-, before, after, same, -⟩ := resolve_eq_some_iff.1 found
  · exact List.mem_of_find?_eq_some own
  · rw [same]
    exact List.mem_append_right _ List.mem_cons_self

/-! ## Selections -/

variable {names : List Text}

/-- One language is asked for before the other one is. -/
def AskedBefore (registry : Registry) (names : List Text) (first second : Language) : Prop :=
  ∃ front back, names = front ++ back ∧ (∃ name ∈ front, registry.resolve name = some first) ∧
    ∀ name ∈ front, registry.resolve name ≠ some second

theorem AskedBefore.append {first second : Language}
    (asked : registry.AskedBefore names first second) (more : List Text) :
    registry.AskedBefore (names ++ more) first second := by
  obtain ⟨front, back, rfl, asks, absent⟩ := asked
  exact ⟨front, back ++ more, List.append_assoc _ _ _, asks, absent⟩

/-- What a list of requests selects: the languages that answer, in the order of the first requests,
and the names that nothing answers to, as often as they were asked for. -/
structure Selects (registry : Registry) (names : List Text) (selection : Selection) : Prop where
  mem_iff : ∀ language, language ∈ selection.languages ↔
    ∃ name ∈ names, registry.resolve name = some language
  nodup : selection.languages.Nodup
  order : selection.languages.Pairwise (registry.AskedBefore names)
  missing : selection.missing = names.filter fun name => (registry.resolve name).isNone

/-- One more request. -/
theorem Selects.request {selection : Selection} (distinct : Distinct registry.languages)
    (selects : registry.Selects names selection) (name : Text) :
    registry.Selects (names ++ [name]) (registry.request selection name) := by
  have earlier := selects.order.imp fun asked => asked.append [name]
  unfold Registry.request
  cases found : registry.resolve name with
  | none =>
    refine ⟨fun language => ?_, selects.nodup, earlier, ?_⟩
    · rw [selects.mem_iff]
      simp [or_and_right, exists_or, found]
    · rw [selects.missing, List.filter_append, List.filter_singleton, found]
      rfl
  | some language =>
    have missing : selection.missing =
        (names ++ [name]).filter fun name => (registry.resolve name).isNone := by
      rw [selects.missing, List.filter_append, List.filter_singleton, found]
      exact (List.append_nil _).symm
    have present : (selection.languages.any fun other => other.name = language.name) = true ↔
        language ∈ selection.languages := by
      rw [List.any_eq_true]
      constructor
      · rintro ⟨other, listed, same⟩
        obtain ⟨asked, -, answers⟩ := (selects.mem_iff other).1 listed
        have own := congrArg Text.lower (of_decide_eq_true same)
        rwa [← distinct.eq_of_lower (mem_of_resolve answers) (mem_of_resolve found) own]
      · exact fun listed => ⟨language, listed, decide_eq_true rfl⟩
    dsimp only
    split
    · next old =>
      refine ⟨fun other => ?_, selects.nodup, earlier, missing⟩
      rw [selects.mem_iff]
      constructor
      · rintro ⟨asked, listed, answers⟩
        exact ⟨asked, List.mem_append_left _ listed, answers⟩
      · rintro ⟨asked, listed, answers⟩
        obtain listed | last := List.mem_append.1 listed
        · exact ⟨asked, listed, answers⟩
        · rw [List.mem_singleton.1 last, found] at answers
          cases answers
          exact (selects.mem_iff _).1 (present.1 old)
    · next fresh =>
      rw [present] at fresh
      refine ⟨fun other => ?_, ?_, ?_, missing⟩
      · rw [List.mem_append, List.mem_singleton, selects.mem_iff]
        simp [or_and_right, exists_or, found, eq_comm]
      · exact selects.nodup.append (List.nodup_singleton _)
          (List.disjoint_singleton.2 fresh)
      · refine List.pairwise_append.2 ⟨earlier, List.pairwise_singleton _ _, ?_⟩
        intro first listed second last
        rw [List.mem_singleton.1 last]
        -- All requests so far come before the one that the fresh language answers.
        refine ⟨names, [name], rfl, (selects.mem_iff first).1 listed, fun asked listed' answers => ?_⟩
        exact fresh ((selects.mem_iff _).2 ⟨asked, listed', answers⟩)

/-- A list of requests selects what it asks for. -/
theorem select_selects (distinct : Distinct registry.languages) (names : List Text) :
    registry.Selects names (registry.select names) := by
  induction names using List.reverseRecOn with
  | nil => exact ⟨fun _ => ⟨nofun, nofun⟩, List.nodup_nil, .nil, rfl⟩
  | append_singleton names name ih =>
    rw [select, List.foldl_append]
    exact ih.request distinct name

end Registry

end Highlight
