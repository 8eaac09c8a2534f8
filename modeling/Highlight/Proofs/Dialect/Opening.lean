import Highlight.Compilation.Region
import Highlight.Proofs.Outcome

/-!
# Openings of groups that do not capture

What is left of the unsupported openings when a pattern is converted. A converted pattern holds
none of them (`convert_free`). The delimiters of a region are converted one by one and joined
afterwards, each in a group of its own: the joined text holds an opening exactly when a delimiter
goes on as that opening does behind its parenthesis (`opening_infix_alternatives`), and the
conversion neither makes nor unmakes such a beginning (`mark_prefix_converted`).
-/

namespace Highlight

section Infix

variable {α : Type} {needle front back : List α} {u : α}

/-- What begins a text and does not hold a unit ends before that unit. -/
theorem prefix_of_prefix_append_cons (h : needle <+: front ++ u :: back) (avoids : u ∉ needle) :
    needle <+: front := by
  induction front generalizing needle with
  | nil =>
    cases needle with
    | nil => exact List.nil_prefix
    | cons v needle =>
      obtain ⟨rfl, -⟩ := List.cons_prefix_cons.1 h
      exact absurd List.mem_cons_self avoids
  | cons w front ih =>
    cases needle with
    | nil => exact List.nil_prefix
    | cons v needle =>
      obtain ⟨rfl, rest⟩ := List.cons_prefix_cons.1 h
      have further := ih rest fun inside => avoids (List.mem_cons_of_mem _ inside)
      exact List.cons_prefix_cons.2 ⟨rfl, further⟩

/-- A part of a text that does not hold a unit stands on one side of it. -/
theorem infix_of_infix_append_cons (h : needle <:+: front ++ u :: back) (avoids : u ∉ needle) :
    needle <:+: front ∨ needle <:+: back := by
  induction front with
  | nil =>
    rcases List.infix_cons_iff.1 h with begins | later
    · have none : needle <+: [] := prefix_of_prefix_append_cons begins avoids
      exact .inl none.isInfix
    · exact .inr later
  | cons w front ih =>
    rcases List.infix_cons_iff.1 h with begins | later
    · have front : needle <+: w :: front := prefix_of_prefix_append_cons begins avoids
      exact .inl front.isInfix
    · rcases ih later with inside | inside
      · exact .inl (List.infix_cons_iff.2 (.inr inside))
      · exact .inr inside

end Infix

namespace Text

theorem indexOf?_isSome_iff {needle t : Text} : (indexOf? needle t).isSome ↔ needle <:+: t := by
  induction t with
  | nil => cases needle <;> simp [indexOf?]
  | cons u r ih =>
    rw [indexOf?, List.infix_cons_iff, ← List.isPrefixOf_iff_prefix]
    split
    · next begins => simp [begins]
    · next begins => simp [begins, ih]

/-- Texts of which a begin is looked for stay where nothing that is replaced, or written instead,
begins like one of their units. -/
theorem prefix_replace_iff {old new mark t : Text} (replaced : ∀ u ∈ mark, old.head? ≠ some u)
    (written : ∀ u ∈ mark, new.head? ≠ some u) (old_ne : old ≠ []) (new_ne : new ≠ []) :
    mark <+: replace old new t ↔ mark <+: t := by
  induction mark generalizing t with
  | nil => simp
  | cons v mark ih =>
    have first : old.head? ≠ some v := replaced v List.mem_cons_self
    have second : new.head? ≠ some v := written v List.mem_cons_self
    have rest : ∀ t, mark <+: replace old new t ↔ mark <+: t := fun t =>
      ih (fun u inside => replaced u (List.mem_cons_of_mem _ inside))
        (fun u inside => written u (List.mem_cons_of_mem _ inside))
    cases t with
    | nil => simp [replace, replaceFrom]
    | cons u r =>
      obtain ⟨o, old, rfl⟩ := List.exists_cons_of_ne_nil old_ne
      obtain ⟨n, new, rfl⟩ := List.exists_cons_of_ne_nil new_ne
      rw [replace, replaceFrom]
      split
      · next begins =>
        have same : o = u := by
          simp only [List.isPrefixOf, Bool.and_eq_true, beq_iff_eq] at begins
          exact begins.1
        have differs : v ≠ u := fun h => first (by simp [same, h])
        have differs' : v ≠ n := fun h => second (by simp [h])
        simp [List.cons_prefix_cons, differs, differs']
      · rw [List.cons_prefix_cons, List.cons_prefix_cons]
        exact and_congr_right fun _ => rest r

end Text

namespace Dialect

/-- Nothing in the text opens a group that does not capture. -/
def Free (pattern : Text) : Prop := ∀ opening ∈ unsupportedOpenings, ¬ opening <:+: pattern

theorem findUnsupported_eq_none_iff {pattern : Text} :
    findUnsupported pattern = none ↔ Free pattern := by
  simp [findUnsupported, Free, List.findSome?_eq_none_iff, ← Text.indexOf?_isSome_iff]

theorem convert_eq_ok_iff {source pattern : Text} :
    convert source = .ok pattern ↔ pattern = respelled source ∧ Free pattern := by
  rw [← findUnsupported_eq_none_iff]
  unfold convert
  dsimp only
  split
  · next none =>
    constructor
    · intro h
      cases h
      exact ⟨rfl, none⟩
    · rintro ⟨rfl, -⟩
      rfl
  · next opening offset found =>
    constructor
    · intro h
      cases h
    · rintro ⟨rfl, none⟩
      rw [found] at none
      cases none

theorem convert_free {source pattern : Text} (h : convert source = .ok pattern) : Free pattern :=
  (convert_eq_ok_iff.1 h).2

/-- What follows the parenthesis in the openings of groups that do not capture. -/
def marks : List Text := unsupportedOpenings.map List.tail

theorem openings_eq : unsupportedOpenings = marks.map (unit '(' :: ·) := by decide

/-- A mark holds none of the units with which alternatives are joined. -/
theorem mark_avoids {mark : Text} (listed : mark ∈ marks) :
    unit '(' ∉ mark ∧ unit ')' ∉ mark ∧ unit '|' ∉ mark ∧ unit '[' ∉ mark := by
  have all : ∀ mark ∈ marks,
      unit '(' ∉ mark ∧ unit ')' ∉ mark ∧ unit '|' ∉ mark ∧ unit '[' ∉ mark := by
    decide
  exact all mark listed

theorem idiom_heads {idiom : Idiom} (listed : idiom ∈ idioms) :
    idiom.source.head? = some (unit '(') ∧
      (idiom.target.head? = some (unit '(') ∨ idiom.target.head? = some (unit '[')) := by
  have all : ∀ idiom ∈ idioms, idiom.source.head? = some (unit '(') ∧
      (idiom.target.head? = some (unit '(') ∨ idiom.target.head? = some (unit '[')) := by
    decide
  exact all idiom listed

/-- No idiom changes whether a pattern begins with a mark. -/
theorem mark_prefix_replaceIn {mark pattern : Text} {idiom : Idiom} (listed : mark ∈ marks)
    (known : idiom ∈ idioms) : mark <+: idiom.replaceIn pattern ↔ mark <+: pattern := by
  obtain ⟨open_, -, -, bracket⟩ := mark_avoids listed
  obtain ⟨source, target⟩ := idiom_heads known
  apply Text.prefix_replace_iff
  · intro u inside same
    rw [source] at same
    cases same
    exact open_ inside
  · intro u inside same
    rcases target with target | target
    · rw [target] at same
      cases same
      exact open_ inside
    · rw [target] at same
      cases same
      exact bracket inside
  · intro none
    rw [none] at source
    cases source
  · intro none
    rw [none] at target
    rcases target with target | target <;> cases target

/-- A converted pattern begins with a mark just if the pattern without its anchor does. -/
theorem mark_prefix_converted {mark source pattern : Text} (listed : mark ∈ marks)
    (h : convert source = .ok pattern) : mark <+: pattern ↔ mark <+: stripAnchor source := by
  have fold : ∀ (list : List Idiom) (t : Text), (∀ idiom ∈ list, idiom ∈ idioms) →
      (mark <+: list.foldl (fun pattern idiom => idiom.replaceIn pattern) t ↔ mark <+: t) := by
    intro list
    induction list with
    | nil => intro t _; exact Iff.rfl
    | cons idiom list ih =>
      intro t known
      rw [List.foldl_cons, ih _ fun idiom inside => known idiom (List.mem_cons_of_mem _ inside)]
      exact mark_prefix_replaceIn listed (known idiom List.mem_cons_self)
  rw [(convert_eq_ok_iff.1 h).1]
  exact fold idioms (stripAnchor source) fun _ inside => inside

end Dialect

namespace Region

open Dialect

/-- Patterns as alternatives, each in a group. -/
def alternatives (patterns : List Text) : Text := "(" ++ Text.join ")|(" patterns ++ ")"

theorem alternatives_singleton (pattern : Text) :
    alternatives [pattern] = (unit '(' :: pattern) ++ unit ')' :: [] := by
  simp [alternatives, Text.join, Text.ofString, unit, CodeUnit.ofScalar]

theorem alternatives_cons (first second : Text) (rest : List Text) :
    alternatives (first :: second :: rest) =
      (unit '(' :: first) ++ unit ')' :: unit '|' :: alternatives (second :: rest) := by
  simp [alternatives, Text.join, Text.ofString, unit, CodeUnit.ofScalar,
    List.intercalate_cons_cons]

/-- An opening in a list of alternatives is inside one of them, or one of them goes on as the
opening does. -/
theorem opening_infix_alternatives {mark : Text} {patterns : List Text} (listed : mark ∈ marks)
    (some_pattern : patterns ≠ []) : unit '(' :: mark <:+: alternatives patterns ↔
      ∃ pattern ∈ patterns, mark <+: pattern ∨ unit '(' :: mark <:+: pattern := by
  obtain ⟨-, close, bar, -⟩ := mark_avoids listed
  have close : unit ')' ∉ unit '(' :: mark := by
    rw [List.mem_cons, not_or]
    exact ⟨by decide, close⟩
  have bar : unit '|' ∉ unit '(' :: mark := by
    rw [List.mem_cons, not_or]
    exact ⟨by decide, bar⟩
  have group : ∀ pattern : Text, unit '(' :: mark <:+: unit '(' :: pattern ↔
      mark <+: pattern ∨ unit '(' :: mark <:+: pattern := by
    intro pattern
    rw [List.infix_cons_iff, List.cons_prefix_cons]
    simp
  induction patterns with
  | nil => exact absurd rfl some_pattern
  | cons first rest ih =>
    cases rest with
    | nil =>
      rw [alternatives_singleton]
      simp only [List.mem_singleton, exists_eq_left]
      constructor
      · intro h
        rcases infix_of_infix_append_cons h close with inside | inside
        · exact (group first).1 inside
        · simp at inside
      · intro h
        exact ((group first).2 h).trans (List.prefix_append _ _).isInfix
    | cons second rest =>
      have later : unit '(' :: mark <:+: alternatives (second :: rest) ↔
          ∃ pattern ∈ second :: rest, mark <+: pattern ∨ unit '(' :: mark <:+: pattern :=
        ih (List.cons_ne_nil second rest)
      have split : (∃ pattern ∈ first :: second :: rest,
          mark <+: pattern ∨ unit '(' :: mark <:+: pattern) ↔
          unit '(' :: mark <:+: unit '(' :: first ∨
            unit '(' :: mark <:+: alternatives (second :: rest) := by
        rw [later, group first]
        simp only [List.mem_cons, exists_eq_or_imp]
      rw [alternatives_cons, split]
      constructor
      · intro h
        rcases infix_of_infix_append_cons h close with inside | inside
        · exact .inl inside
        · have inside : unit '(' :: mark <:+: [] ++ unit '|' :: alternatives (second :: rest) :=
            inside
          rcases infix_of_infix_append_cons inside bar with none | inside
          · simp at none
          · exact .inr inside
      · rintro (inside | inside)
        · exact inside.trans (List.prefix_append _ _).isInfix
        · exact inside.trans ⟨(unit '(' :: first) ++ [unit ')', unit '|'], [], by simp⟩

end Region

end Highlight
