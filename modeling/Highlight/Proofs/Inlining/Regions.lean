import Highlight.Compilation.Region
import Highlight.Proofs.Inlining.Levels

/-!
# Regions of an inlined language

Which rules enter or leave a state is read off its rule list, where a splice is neither. A list is
`Graph.Tidy` if replacing its splices moves nothing into its region or out of it: the region then
has the same delimiters (`Graph.Tidy.entering`, `Graph.Tidy.leaving`), and the rules that fill it
are those that filled it before, with their splices replaced (`Graph.Tidy.others`).
-/

namespace Highlight

namespace Graph

open SubLexer

variable {graph : Graph} {state target : Text} {rule : Rule} {rules rest : List Rule}

/-! ## Rules that stay and rules that arrive -/

theorem inline_eq_self (own : ∀ rule ∈ rules, rule.isSplice = false) :
    graph.inline rules = rules := by
  induction rules with
  | nil => exact inline_nil graph
  | cons rule rules ih =>
    rw [inline_keep (own rule List.mem_cons_self),
      ih fun other listed => own other (List.mem_cons_of_mem _ listed)]

/-- One rule is replaced by itself or by the rules of the state that it splices in. -/
theorem inline_singleton (acyclic : graph.Acyclic) (listed : rule ∈ rulesAt graph state) :
    graph.inline [rule] = [rule] ∨ ∃ target inner, rule = .splice target ∧
      Table.get? graph target = some inner ∧ graph.inline [rule] = graph.inline inner := by
  cases own : rule.isSplice with
  | false =>
    rw [inline_keep own, inline_nil]
    exact .inl rfl
  | true =>
    obtain ⟨target, rfl⟩ := Rule.exists_of_isSplice own
    cases known : Table.get? graph target with
    | none =>
      rw [inline_absent known, inline_nil]
      exact .inl rfl
    | some inner =>
      refine .inr ⟨target, inner, rfl, known, ?_⟩
      rw [inline_splice acyclic listed known, inline_nil, List.append_nil]

/-- A rule and those behind it are replaced one after the other. -/
theorem inline_cons (acyclic : graph.Acyclic) (listed : rule ∈ rulesAt graph state) :
    graph.inline (rule :: rest) = graph.inline [rule] ++ graph.inline rest := by
  cases own : rule.isSplice with
  | false =>
    rw [inline_keep own, inline_keep own, inline_nil]
    rfl
  | true =>
    obtain ⟨target, rfl⟩ := Rule.exists_of_isSplice own
    cases known : Table.get? graph target with
    | none =>
      rw [inline_absent known, inline_absent known, inline_nil]
      rfl
    | some inner =>
      rw [inline_splice acyclic listed known, inline_splice acyclic listed known, inline_nil,
        List.append_nil]

/-- What a rule is replaced by stands where the rule stood. -/
theorem inline_singleton_subset (acyclic : graph.Acyclic) (subset : rules ⊆ rulesAt graph state)
    (listed : rule ∈ rules) : graph.inline [rule] ⊆ graph.inline rules := by
  induction rules with
  | nil => cases listed
  | cons first rules ih =>
    rw [inline_cons acyclic (subset List.mem_cons_self)]
    cases listed with
    | head => exact List.subset_append_left _ _
    | tail _ listed =>
      have rest := ih (fun _ held => subset (List.mem_cons_of_mem _ held)) listed
      exact List.Subset.trans rest (List.subset_append_right _ _)

/-- A rule that splices nothing stays. -/
theorem mem_inline (acyclic : graph.Acyclic) (subset : rules ⊆ rulesAt graph state)
    (listed : rule ∈ rules) (own : rule.isSplice = false) : rule ∈ graph.inline rules := by
  apply inline_singleton_subset acyclic subset listed
  rw [inline_keep own]
  exact List.mem_cons_self

/-- The rules of a state that is spliced in arrive. -/
theorem inline_subset_of_splice (acyclic : graph.Acyclic) (subset : rules ⊆ rulesAt graph state)
    (listed : .splice target ∈ rules) :
    graph.inline (rulesAt graph target) ⊆ graph.inline rules := by
  cases known : Table.get? graph target with
  | none =>
    rw [rulesAt_of_unknown known, inline_nil]
    exact List.nil_subset _
  | some inner =>
    have arrives := inline_singleton_subset acyclic subset listed
    rw [inline_splice acyclic (subset listed) known, inline_nil, List.append_nil] at arrives
    rwa [rulesAt_of_get? known]

/-- Rules may be picked before or after their splices are replaced, if what arrives by a splice is
picked where the splice is. -/
theorem filter_inline (acyclic : graph.Acyclic) (subset : rules ⊆ rulesAt graph state)
    {picks : Rule → Bool} (arrives : ∀ target, .splice target ∈ rules →
      ∀ rule ∈ graph.inline (rulesAt graph target), picks rule = picks (.splice target)) :
    (graph.inline rules).filter picks = graph.inline (rules.filter picks) := by
  induction rules with
  | nil =>
    rw [inline_nil]
    exact (inline_nil graph).symm
  | cons rule rules ih =>
    have listed : rule ∈ rulesAt graph state := subset List.mem_cons_self
    have rest := ih (fun _ held => subset (List.mem_cons_of_mem _ held))
      fun target held => arrives target (List.mem_cons_of_mem _ held)
    have same : ∀ other ∈ graph.inline [rule], picks other = picks rule := by
      intro other held
      obtain kept | ⟨target, inner, rfl, known, arrived⟩ := inline_singleton acyclic listed
      · rw [kept] at held
        rw [List.mem_singleton.1 held]
      · rw [arrived, ← rulesAt_of_get? known] at held
        exact arrives target List.mem_cons_self other held
    rw [inline_cons acyclic listed, List.filter_append, rest]
    cases picked : picks rule with
    | false =>
      have none : (graph.inline [rule]).filter picks = [] :=
        List.filter_eq_nil_iff.2 fun other held => by
          rw [same other held, picked]
          exact Bool.false_ne_true
      rw [none, List.filter_cons_of_neg (by rw [picked]; exact Bool.false_ne_true), List.nil_append]
    | true =>
      have all : (graph.inline [rule]).filter picks = graph.inline [rule] :=
        List.filter_eq_self.2 fun other held => (same other held).trans picked
      rw [all, List.filter_cons_of_pos picked]
      exact (inline_cons acyclic listed).symm

/-! ## Tidy lists -/

/-- Replacing the splices keeps the region of the list, if it has one then: no rule that enters or
leaves arrives by a splice, and what fills the region does not vanish. -/
def Tidy (graph : Graph) (rules : List Rule) : Prop :=
  (graph.inline rules).any Rule.isPush = true →
    (∀ target, .splice target ∈ rules → ∀ rule ∈ graph.inline (rulesAt graph target),
      rule.isPush = false ∧ rule.isPop = false) ∧
    ((RegionRules.ofRules rules).others ≠ [] →
      (RegionRules.ofRules (graph.inline rules)).others ≠ [])

namespace Tidy

variable (tidy : graph.Tidy rules) (acyclic : graph.Acyclic) (subset : rules ⊆ rulesAt graph state)
  (drawn : (graph.inline rules).any Rule.isPush = true)

include tidy acyclic subset drawn

theorem entering :
    (RegionRules.ofRules (graph.inline rules)).entering = (RegionRules.ofRules rules).entering := by
  have picked : (graph.inline rules).filter Rule.isPush = graph.inline (rules.filter Rule.isPush) :=
    filter_inline acyclic subset fun target held rule arrives =>
      ((tidy drawn).1 target held rule arrives).1
  exact picked.trans (inline_eq_self fun rule held =>
    Rule.isSplice_of_isPush (List.mem_filter.1 held).2)

theorem leaving :
    (RegionRules.ofRules (graph.inline rules)).leaving = (RegionRules.ofRules rules).leaving := by
  have picked : (graph.inline rules).filter Rule.isPop = graph.inline (rules.filter Rule.isPop) :=
    filter_inline acyclic subset fun target held rule arrives =>
      ((tidy drawn).1 target held rule arrives).2
  exact picked.trans (inline_eq_self fun rule held =>
    Rule.isSplice_of_isPop (List.mem_filter.1 held).2)

theorem others :
    (RegionRules.ofRules (graph.inline rules)).others =
      graph.inline (RegionRules.ofRules rules).others := by
  refine filter_inline acyclic subset fun target held rule arrives => ?_
  obtain ⟨push, pop⟩ := (tidy drawn).1 target held rule arrives
  rw [push, pop]
  rfl

/-- The region is drawn in both lists. -/
theorem any_isPush : rules.any Rule.isPush = true := by
  obtain ⟨rule, listed, push⟩ := List.any_eq_true.1 drawn
  have picked : rule ∈ (RegionRules.ofRules (graph.inline rules)).entering :=
    List.mem_filter.2 ⟨listed, push⟩
  rw [entering tidy acyclic subset drawn] at picked
  exact List.any_eq_true.2 ⟨rule, List.mem_filter.1 picked⟩

theorem isEmpty_others :
    (RegionRules.ofRules (graph.inline rules)).others.isEmpty =
      (RegionRules.ofRules rules).others.isEmpty := by
  cases empty : (RegionRules.ofRules rules).others.isEmpty with
  | true =>
    rw [others tidy acyclic subset drawn, List.isEmpty_iff.1 empty, inline_nil]
    rfl
  | false =>
    exact List.isEmpty_eq_false_iff.2 ((tidy drawn).2 (List.isEmpty_eq_false_iff.1 empty))

/-- The region is bound in the same way. -/
theorem binding (name : Text) :
    Region.binding name (.ofRules (graph.inline rules)) = Region.binding name (.ofRules rules) := by
  unfold Region.binding
  rw [entering tidy acyclic subset drawn, leaving tidy acyclic subset drawn]

end Tidy

end Graph

end Highlight
