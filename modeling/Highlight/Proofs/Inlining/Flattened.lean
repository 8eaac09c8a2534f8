import Highlight.Proofs.Inlining.Levels

/-!
# What a sub-lexer makes of splices

A sub-lexer expands each state at most once for each state that it runs. In the inlined language a
state that is spliced in twice stands there twice. What is repeated stands behind its first
occurrence, so that a search that goes from the first rule to the last finds the same in both
(`findSome?_flatten_inlined`).
-/

namespace Highlight

namespace SubLexer

variable {graph : Graph} {seen last last' : List Text} {rules out out' : List Rule}

/-- The expansion of some rules is determined by the states that were expanded before. -/
theorem Expands.unique (left : Expands graph seen rules out last)
    (right : Expands graph seen rules out' last') : out = out' ∧ last = last' := by
  induction left generalizing out' last' with
  | nil seen =>
    cases right
    exact ⟨rfl, rfl⟩
  | keep own _ ih =>
    cases right with
    | keep _ rest =>
      obtain ⟨rfl, rfl⟩ := ih rest
      exact ⟨rfl, rfl⟩
    | again => cases own
    | enter => cases own
  | again before _ ih =>
    cases right with
    | keep own => cases own
    | again _ rest => exact ih rest
    | enter fresh => exact absurd before fresh
  | enter fresh _ _ inside rest =>
    cases right with
    | keep own => cases own
    | again before => exact absurd before fresh
    | enter _ inside' rest' =>
      obtain ⟨rfl, rfl⟩ := inside inside'
      obtain ⟨rfl, rfl⟩ := rest rest'
      exact ⟨rfl, rfl⟩

/-- Splices without a target vanish. -/
theorem exists_expands_of_absent (absent : ∀ target, .splice target ∈ rules →
    rulesAt graph target = []) (seen : List Text) :
    ∃ last, Expands graph seen rules (rules.filter fun rule => !rule.isSplice) last := by
  induction rules generalizing seen with
  | nil => exact ⟨seen, .nil seen⟩
  | cons rule rules ih =>
    have others : ∀ target, .splice target ∈ rules → rulesAt graph target = [] :=
      fun target listed => absent target (List.mem_cons_of_mem _ listed)
    cases own : rule.isSplice with
    | false =>
      obtain ⟨last, rest⟩ := ih others seen
      rw [List.filter_cons_of_pos (by rw [own]; rfl)]
      exact ⟨last, .keep own rest⟩
    | true =>
      obtain ⟨target, rfl⟩ := Rule.exists_of_isSplice own
      rw [List.filter_cons_of_neg (by rw [own]; exact Bool.false_ne_true)]
      by_cases before : target ∈ seen
      · obtain ⟨last, rest⟩ := ih others seen
        exact ⟨last, .again before rest⟩
      · obtain ⟨last, rest⟩ := ih others (target :: seen)
        have inside :
            Expands graph (target :: seen) (rulesAt graph target) [] (target :: seen) := by
          rw [absent target List.mem_cons_self]
          exact .nil _
        exact ⟨last, .enter before inside rest⟩

end SubLexer

namespace Graph

open SubLexer

variable {graph : Graph} {state target : Text} {rule : Rule} {rules rest : List Rule}

/-- What is left of some rules for a sub-lexer when their splices are replaced. -/
def visible (graph : Graph) (rules : List Rule) : List Rule :=
  (graph.inline rules).filter fun rule => !rule.isSplice

theorem Inlines.unrolls {out : List Rule} (inlines : Inlines graph rules out) :
    Unrolls graph rules (out.filter fun rule => !rule.isSplice) := by
  induction inlines with
  | nil => exact .nil
  | keep own _ ih =>
    rw [List.filter_cons_of_pos (by rw [own]; rfl)]
    exact .keep own ih
  | @absent target rules out unknown _ ih =>
    have inside : Unrolls graph (rulesAt graph target) [] := by
      rw [rulesAt_of_unknown unknown]
      exact .nil
    rw [List.filter_cons_of_neg Bool.false_ne_true]
    exact .splice inside ih
  | splice known _ _ ihInside ihRest =>
    rw [List.filter_append]
    rw [← rulesAt_of_get? known] at ihInside
    exact .splice ihInside ihRest

theorem unrolls_visible (acyclic : graph.Acyclic) :
    Unrolls graph (rulesAt graph state) (graph.visible (rulesAt graph state)) :=
  (inlines acyclic (List.Subset.refl _)).unrolls

theorem flatten_inlined {language : Language} (acyclic : language.graph.Acyclic) (state : Text) :
    flatten language.inlined.graph state =
      language.graph.visible (rulesAt language.graph state) := by
  obtain ⟨last, expands⟩ := flatten_expands language.inlined.graph state
  rw [rulesAt_inlined] at expands
  have absent : ∀ target, .splice target ∈ language.graph.inline (rulesAt language.graph state) →
      rulesAt language.inlined.graph target = [] := by
    intro target listed
    have inlines := inlines acyclic (List.Subset.refl (rulesAt language.graph state))
    have unknown := inlines.absent_of_mem listed
    rw [rulesAt_inlined, rulesAt, unknown]
    exact inline_nil _
  obtain ⟨last', filtered⟩ := exists_expands_of_absent absent [state]
  exact (expands.unique filtered).1

/-- A search from the first rule on finds the same in the rules that a state runs and in those that
it runs in the inlined language. -/
theorem findSome?_flatten_inlined {β : Type} {language : Language}
    (acyclic : language.graph.Acyclic) (state : Text) (f : Rule → Option β) :
    (flatten language.inlined.graph state).findSome? f =
      (flatten language.graph state).findSome? f := by
  rw [flatten_inlined acyclic]
  exact (findSome?_flatten acyclic.endsFrom (unrolls_visible acyclic) f).symm

/-- Both run the same rules, but for how often. -/
theorem mem_flatten_inlined {language : Language} (acyclic : language.graph.Acyclic) :
    rule ∈ flatten language.inlined.graph state ↔ rule ∈ flatten language.graph state := by
  classical
  have found (rules : List Rule) :
      rule ∈ rules ↔ rules.findSome? (fun other => if other = rule then some other else none) ≠
        none := by
    rw [Ne, List.findSome?_eq_none_iff, not_forall]
    constructor
    · intro listed
      exact ⟨rule, fun missed => by simp [listed] at missed⟩
    · rintro ⟨other, missed⟩
      obtain ⟨listed, hit⟩ := Classical.not_imp.1 missed
      by_cases same : other = rule
      · exact same ▸ listed
      · exact absurd (if_neg same) hit
  rw [found, found, findSome?_flatten_inlined acyclic]

end Graph

end Highlight
