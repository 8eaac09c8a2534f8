import Highlight.Proofs.Compilation.Blocks
import Highlight.Proofs.Dialect.Opening
import Highlight.Proofs.Table

/-!
# The patterns of a compiled language

Which patterns reach a definition file, and what groups they open. Every pattern that a rule binds
is checked as it is written. The delimiters of a region are checked before they are joined, so a
region with several delimiters on one side is the one place where a group that does not capture
can come up: it does just if one of them begins with a question mark as such a group does
(`delimiterOf_free_iff`). `compile_free_iff` says this of all statements of a language.
-/

namespace Highlight

open Compilation Statement Dialect

/-- The patterns of a binding, those of its delimiters included. -/
def Binding.patterns : Binding → List Text
  | single _ pattern | lineStart _ pattern | groups _ pattern => [pattern]
  | lineEnd _ => []
  | region _ entering leaving _ => [entering, leaving]

theorem Binding.BoundTo.free {source pattern : Text} {token : TokenSpec} {binding : Binding}
    (h : BoundTo source token binding) (emitted : pattern ∈ binding.patterns) : Free pattern := by
  cases h with
  | lineEnd line => cases emitted
  | single whole convert =>
    obtain rfl := List.mem_singleton.1 emitted
    exact convert_free convert
  | lineStart front convert =>
    obtain rfl := List.mem_singleton.1 emitted
    exact convert_free convert
  | groups convert _ _ =>
    obtain rfl := List.mem_singleton.1 emitted
    exact convert_free convert

namespace Region

/-- Several rules stand together, and the pattern of one, behind its anchor, begins with the mark
of a group that does not capture. -/
def OpensGroup (rules : List Rule) : Prop :=
  2 ≤ rules.length ∧ ∃ source ∈ rules.filterMap Rule.pattern?,
    ∃ mark ∈ marks, mark <+: stripAnchor source

instance (rules : List Rule) : Decidable (OpensGroup rules) :=
  inferInstanceAs (Decidable (_ ∧ _))

/-- A single delimiter is the converted pattern, and several are alternatives of such patterns. -/
theorem delimiter_cases {sources : List Text} {pattern : Text}
    (h : delimiter sources = .ok pattern) :
    ∃ converted, List.Forall₂ (fun source pattern => convert source = .ok pattern)
      sources converted ∧
      (converted = [pattern] ∨ converted.length ≠ 1 ∧ pattern = alternatives converted) := by
  obtain ⟨converted, mapped, joined⟩ := except_bind_eq_ok_iff.1 h
  refine ⟨converted, forall₂_of_mapM_eq_ok mapped, ?_⟩
  split at joined
  · cases joined
    exact .inl rfl
  · next several =>
    cases joined
    refine .inr ⟨fun one => ?_, rfl⟩
    obtain ⟨only, rfl⟩ := List.length_eq_one_iff.1 one
    exact several only rfl

/-- Alternatives of converted patterns open a group that does not capture just if a source begins
with the mark of one. -/
theorem alternatives_free_iff {sources converted : List Text} (some_source : sources ≠ [])
    (each : List.Forall₂ (fun source pattern => convert source = .ok pattern) sources converted) :
    Free (alternatives converted) ↔
      ∀ source ∈ sources, ∀ mark ∈ marks, ¬ mark <+: stripAnchor source := by
  have some_pattern : converted ≠ [] := by
    intro none
    rw [none] at each
    exact some_source (List.forall₂_nil_right_iff.1 each)
  have inside : ∀ mark ∈ marks, (unit '(' :: mark <:+: alternatives converted ↔
      ∃ source ∈ sources, mark <+: stripAnchor source) := by
    intro mark listed
    rw [opening_infix_alternatives listed some_pattern]
    clear some_source some_pattern
    induction each with
    | nil => simp
    | @cons source pattern sources converted first _ ih =>
      have here : mark <+: pattern ∨ unit '(' :: mark <:+: pattern ↔
          mark <+: stripAnchor source := by
        have none : ¬ unit '(' :: mark <:+: pattern := by
          apply convert_free first
          rw [openings_eq]
          exact List.mem_map_of_mem listed
        rw [mark_prefix_converted listed first]
        exact or_iff_left none
      simp only [List.mem_cons, exists_eq_or_imp, here, ih]
  constructor
  · intro free source held mark listed begins
    have opening : unit '(' :: mark ∈ unsupportedOpenings := by
      rw [openings_eq]
      exact List.mem_map_of_mem listed
    exact free _ opening ((inside mark listed).2 ⟨source, held, begins⟩)
  · intro none opening known part
    rw [openings_eq] at known
    obtain ⟨mark, listed, rfl⟩ := List.mem_map.1 known
    obtain ⟨source, held, begins⟩ := (inside mark listed).1 part
    exact none source held mark listed begins

/-- What keeps a delimiter drawn from rules from opening a group that does not capture. -/
theorem delimiterOf_free_iff {rules : List Rule} {pattern : Text} (some_rule : rules ≠ [])
    (patterns : ∀ rule ∈ rules, rule.pattern?.isSome) (h : delimiterOf rules = .ok pattern) :
    Free pattern ↔ ¬ OpensGroup rules := by
  have count : (rules.filterMap Rule.pattern?).length = rules.length :=
    List.filterMap_length_eq_length.2 patterns
  obtain ⟨converted, each, one | ⟨several, rfl⟩⟩ := delimiter_cases h
  · subst one
    have alone : rules.length = 1 := by rw [← count, each.length_eq, List.length_singleton]
    obtain ⟨source, _, convert, _⟩ := List.forall₂_cons_right_iff.1 each
    refine iff_of_true (convert_free convert) fun opens => ?_
    have two := opens.1
    omega
  · have some_source : rules.filterMap Rule.pattern? ≠ [] := by
      intro none
      rw [none] at count
      exact some_rule (List.length_eq_zero_iff.1 count.symm)
    have two : 2 ≤ rules.length := by
      have length := each.length_eq
      have pos := List.length_pos_iff.2 some_rule
      omega
    rw [alternatives_free_iff some_source each]
    constructor
    · rintro none ⟨-, source, held, mark, listed, begins⟩
      exact none source held mark listed begins
    · intro closed source held mark listed begins
      exact closed ⟨two, source, held, mark, listed, begins⟩

/-- The delimiters of a region that is bound come from its entering and its leaving rules. -/
theorem binding_delimiters {state : Text} {rules : RegionRules} {token : TokenType}
    {entering leaving : Text} {multiline : Bool}
    (h : binding state rules = .ok (.region token entering leaving multiline)) :
    rules.entering ≠ [] ∧ rules.leaving ≠ [] ∧ delimiterOf rules.entering = .ok entering ∧
      delimiterOf rules.leaving = .ok leaving := by
  unfold binding at h
  split at h
  · next first_in _ first_out _ _ => 
    obtain ⟨token, -, h⟩ := except_bind_eq_ok_iff.1 h
    obtain ⟨entering, enters, h⟩ := except_bind_eq_ok_iff.1 h
    obtain ⟨leaving, leaves, h⟩ := except_bind_eq_ok_iff.1 h
    cases h
    exact ⟨by simp_all, by simp_all, enters, leaves⟩
  · cases h

theorem pattern?_isSome_of_entering {list : List Rule} {rule : Rule}
    (h : rule ∈ (RegionRules.ofRules list).entering) : rule.pattern?.isSome := by
  obtain ⟨-, push⟩ := List.mem_filter.1 h
  cases rule <;> first | rfl | cases push

theorem pattern?_isSome_of_leaving {list : List Rule} {rule : Rule}
    (h : rule ∈ (RegionRules.ofRules list).leaving) : rule.pattern?.isSome := by
  obtain ⟨-, pop⟩ := List.mem_filter.1 h
  cases rule <;> first | rfl | cases pop

/-- The delimiters of a region are free unless one of its sides opens a group. -/
theorem binding_free_iff {state : Text} {list : List Rule} {found : Binding}
    (h : binding state (.ofRules list) = .ok found) :
    (∀ pattern ∈ found.patterns, Free pattern) ↔
      ¬ OpensGroup (RegionRules.ofRules list).entering ∧
        ¬ OpensGroup (RegionRules.ofRules list).leaving := by
  obtain ⟨token, entering, leaving, multiline, rfl⟩ := binding_eq_region h
  obtain ⟨some_in, some_out, enters, leaves⟩ := binding_delimiters h
  have front := delimiterOf_free_iff some_in (fun _ => pattern?_isSome_of_entering) enters
  have back := delimiterOf_free_iff some_out (fun _ => pattern?_isSome_of_leaving) leaves
  rw [← front, ← back]
  simp [Binding.patterns]

end Region

namespace Body

variable {ctx : Context} {σ σ' : Session}

/-- What a statement binds comes from a rule of a state, or is the region of one. -/
theorem origin_of_stands {before after : List Statement} {e : Nat} {s : Statement}
    (h : Stands (Line ctx) (Block ctx) before e s after) {binding : Binding}
    (binds : s.binding? = some binding) :
    (∃ state rule source token, HasRule ctx.language.graph state rule ∧
      rule.pattern? = some source ∧ Binding.BoundTo source token binding) ∨
      ∃ state rules, Table.get? ctx.language.graph state = some rules ∧
        Region.binding state (.ofRules rules) = .ok binding := by
  cases h with
  | rule line =>
    cases Option.some.inj binds
    cases line with
    | rule own bound => exact .inl ⟨_, _, _, _, own, rfl, bound⟩
    | region own drawn => exact .inr ⟨_, _, own, drawn⟩
  | leave line =>
    cases Option.some.inj binds
    cases line with
    | leave own bound => exact .inl ⟨_, _, _, _, own, rfl, bound⟩
  | comment => cases binds
  | blockStart front rest head inside =>
    cases Option.some.inj binds
    cases head with
    | entered own bound => exact .inl ⟨_, _, _, _, own, rfl, bound⟩
    | region own drawn _ => exact .inr ⟨_, _, own, drawn⟩
  | blockEnd => cases binds

end Body

namespace Language

variable {language : Language} {limits : Limits} {lookup : Text → Option Language}
  {compiled : CompiledLanguage}

/-- A language compiles to the statements of its root state. -/
theorem compile_eq_ok_iff :
    language.compile limits lookup = .ok compiled ↔ compiled.language = language ∧
      ∃ σ, Yields (Body.ofState ⟨language, limits, lookup⟩ rootState 0) []
        compiled.statements σ := by
  unfold compile
  rw [except_map_eq_ok_iff]
  constructor
  · rintro ⟨lines, given, rfl⟩
    obtain ⟨σ, yields⟩ := outcome_eq_ok_iff.1 given
    exact ⟨rfl, σ, yields_within_iff.1 yields⟩
  · rintro ⟨rfl, σ, yields⟩
    exact ⟨compiled.statements, outcome_eq_ok_iff.2 ⟨σ, yields_within_iff.2 yields⟩, rfl⟩

/-- A compiled language opens no group that does not capture, in whatever pattern of whatever
statement, just if no region of it stands between several delimiters one of which begins, behind
its anchor, as such a group does behind its parenthesis. -/
theorem compile_free_iff (h : language.compile limits lookup = .ok compiled) :
    (∀ s ∈ compiled.statements, ∀ binding, s.binding? = some binding →
      ∀ pattern ∈ binding.patterns, ∀ opening ∈ unsupportedOpenings, ¬ opening <:+: pattern) ↔
    ∀ s ∈ compiled.statements, ∀ binding, s.binding? = some binding →
      ∀ state rules, Table.get? language.graph state = some rules →
        Region.binding state (.ofRules rules) = .ok binding →
        ¬ Region.OpensGroup (RegionRules.ofRules rules).entering ∧
          ¬ Region.OpensGroup (RegionRules.ofRules rules).leaving := by
  obtain ⟨-, σ, yields⟩ := compile_eq_ok_iff.1 h
  obtain ⟨rules, σ₁, known, inside⟩ := yields_bind_iff.1 yields
  have own := Context.rulesOf_eq_ok_iff.1 (yields_ofExcept_iff.1 known).1
  have blocks := Body.ofList_blocks ⟨rules, own, .inl rfl⟩ inside
  constructor
  · intro free s held binding binds state rules own drawn
    exact (Region.binding_free_iff drawn).1 (free s held binding binds)
  · intro closed s held binding binds pattern emitted
    obtain ⟨before, after, same⟩ := List.append_of_mem held
    obtain ⟨e, -, -, stands⟩ := blocks.stands same
    rcases Body.origin_of_stands stands binds with
      ⟨state, rule, source, token, own, bears, bound⟩ | ⟨state, rules, own, drawn⟩
    · exact bound.free emitted
    · exact (Region.binding_free_iff drawn).2 (closed s held binding binds state rules own drawn)
        pattern emitted

/-- A language with a region between several delimiters on both sides, one of them anchored, and a
list of groups inside it. -/
def fences : Language where
  name := "fences"
  aliases := []
  filenames := []
  aliasFilenames := []
  graph := [
    ("root", [
      .push "^<" (.literal "Token.A"),
      .literal "(x)(?!:)" (.compound [.literal "Token.X"]),
      .pop ">" (.literal "Token.A") (.integer 1),
      .push "\\(" (.literal "Token.B"),
      .pop "\\)" (.literal "Token.B") (.integer 2)])]
  sourceFile := none

theorem compile_fences :
    let inner (depth : Nat) : Statement := .rule depth (.groups ["Token.X"] "(x)[^:]")
    let lines : List Statement := [
      .comment 0 "nested root state",
      .blockStart 0 (.region "Token.A" "(<)|(\\()" "(>)|(\\))" false), inner 1, .blockEnd 0, inner 0]
    fences.compile .standard (fun _ => none) = .ok ⟨fences, lines⟩ ∧
      ∀ s ∈ lines, ∀ binding, s.binding? = some binding →
        ∀ pattern ∈ binding.patterns, ∀ opening ∈ unsupportedOpenings, ¬ opening <:+: pattern := by
  intro inner lines
  have h : fences.compile .standard (fun _ => none) = .ok ⟨fences, lines⟩ := by
    cbv
  refine ⟨h, (compile_free_iff h).2 ?_⟩
  intro s held binding binds state rules own drawn
  obtain ⟨-, rfl⟩ := Prod.mk.inj (List.mem_singleton.1 (Table.mem_of_get? own))
  decide

/-- A language of which one delimiter begins like a group that does not capture. -/
def marked : Language where
  name := "marked"
  aliases := []
  filenames := []
  aliasFilenames := []
  graph := [
    ("root", [
      .push "?:a" (.literal "T"),
      .push "b" (.literal "T"),
      .pop "c" (.literal "T") (.integer 1)])]
  sourceFile := none

/-- The joined delimiters of `marked` open a group that does not capture. -/
theorem compile_marked :
    marked.compile .standard (fun _ => none) =
      .ok ⟨marked, [.rule 0 (.region "T" "(?:a)|(b)" "c" false)]⟩ ∧
    Text.ofString "(?:" ∈ unsupportedOpenings ∧
    Text.ofString "(?:" <:+: Text.ofString "(?:a)|(b)" := by
  refine ⟨by cbv, by decide, ?_⟩
  exact ⟨[], "a)|(b)", by decide⟩

end Language

end Highlight
