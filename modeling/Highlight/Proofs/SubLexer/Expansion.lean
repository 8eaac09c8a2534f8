import Highlight.Proofs.Table
import Highlight.SubLexer.Basic

/-!
# Splices expanded in place

What `flatten` gives, without the depth that bounds it: `Expands` goes through the rules of a state
from first to last, keeps every rule that splices nothing, and puts in the place of a splice the
rules of its target, unless that state has been expanded before (`flatten_expands`). The depth is
never what ends it, since each level takes one more state off those that are still to be expanded.
-/

namespace Highlight

/-- The rule stands for the rules of another state. -/
def Rule.isSplice : Rule → Bool
  | splice _ => true
  | _ => false

theorem Rule.exists_of_isSplice {rule : Rule} (splices : rule.isSplice = true) :
    ∃ target, rule = .splice target := by
  cases rule with
  | splice target => exact ⟨target, rfl⟩
  | _ => cases splices

theorem Rule.isSplice_of_isPush {rule : Rule} (push : rule.isPush = true) :
    rule.isSplice = false := by
  cases rule with
  | push pattern token => rfl
  | _ => cases push

theorem Rule.isSplice_of_isPop {rule : Rule} (pop : rule.isPop = true) :
    rule.isSplice = false := by
  cases rule with
  | pop pattern token count => rfl
  | _ => cases pop

/-- The state whose rules the rule brings in or enters. -/
def Rule.target? : Rule → Option Text
  | splice target | nested _ _ target => some target
  | _ => none

namespace SubLexer

/-- The rules of a state, none if there is no such state. -/
def rulesAt (graph : Graph) (state : Text) : List Rule := (Table.get? graph state).getD []

/-- Some rules with their splices expanded, given the states that are expanded no more before and
after. -/
inductive Expands (graph : Graph) : List Text → List Rule → List Rule → List Text → Prop
  | nil (seen : List Text) : Expands graph seen [] [] seen
  | keep {seen last : List Text} {rule : Rule} {rules out : List Rule}
    (own : rule.isSplice = false) (rest : Expands graph seen rules out last) :
    Expands graph seen (rule :: rules) (rule :: out) last
  | again {seen last : List Text} {target : Text} {rules out : List Rule}
    (before : target ∈ seen) (rest : Expands graph seen rules out last) :
    Expands graph seen (.splice target :: rules) out last
  | enter {seen middle last : List Text} {target : Text} {rules inner out : List Rule}
    (fresh : target ∉ seen)
    (inside : Expands graph (target :: seen) (rulesAt graph target) inner middle)
    (rest : Expands graph middle rules out last) :
    Expands graph seen (.splice target :: rules) (inner ++ out) last

variable {graph : Graph} {seen last : List Text} {rules out : List Rule} {rule : Rule} {depth : Nat}

theorem rulesAt_of_get? {state : Text} (known : Table.get? graph state = some rules) :
    rulesAt graph state = rules := by
  rw [rulesAt, known]
  rfl

theorem rulesAt_of_unknown {state : Text} (unknown : Table.get? graph state = none) :
    rulesAt graph state = [] := by
  rw [rulesAt, unknown]
  rfl

/-- A state with a rule stands in the graph. -/
theorem entry_of_mem_rulesAt {state : Text} (held : rule ∈ rulesAt graph state) :
    (state, rulesAt graph state) ∈ graph := by
  unfold rulesAt at held ⊢
  cases found : Table.get? graph state with
  | none =>
    rw [found] at held
    cases held
  | some rules => exact Table.mem_of_get? found

theorem exists_of_mem_rulesAt {state : Text} (held : rule ∈ rulesAt graph state) :
    ∃ entry ∈ graph, rule ∈ entry.2 :=
  ⟨_, entry_of_mem_rulesAt held, held⟩

namespace Expands

theorem seen_subset (expands : Expands graph seen rules out last) : seen ⊆ last := by
  induction expands with
  | nil seen => exact List.Subset.refl seen
  | keep _ _ ih => exact ih
  | again _ _ ih => exact ih
  | enter _ _ _ inside rest =>
    exact fun state listed => rest (inside (List.mem_cons_of_mem _ listed))

/-- What comes out stands in the list itself or in a state of the graph, and splices nothing. -/
theorem mem_out (expands : Expands graph seen rules out last) (listed : rule ∈ out) :
    rule.isSplice = false ∧ (rule ∈ rules ∨ ∃ entry ∈ graph, rule ∈ entry.2) := by
  induction expands with
  | nil => cases listed
  | keep own _ ih =>
    cases listed with
    | head => exact ⟨own, .inl List.mem_cons_self⟩
    | tail _ listed =>
      obtain ⟨kept, held⟩ := ih listed
      exact ⟨kept, held.imp_left (List.mem_cons_of_mem _)⟩
  | again _ _ ih =>
    obtain ⟨kept, held⟩ := ih listed
    exact ⟨kept, held.imp_left (List.mem_cons_of_mem _)⟩
  | @enter _ _ _ target _ _ _ _ _ _ inside rest =>
    obtain listed | listed := List.mem_append.1 listed
    · obtain ⟨kept, held | held⟩ := inside listed
      · exact ⟨kept, .inr (exists_of_mem_rulesAt held)⟩
      · exact ⟨kept, .inr held⟩
    · obtain ⟨kept, held⟩ := rest listed
      exact ⟨kept, held.imp_left (List.mem_cons_of_mem _)⟩

end Expands

/-! ## The depth is enough -/

/-- How many states of the graph are still to be expanded. -/
def unseen (graph : Graph) (seen : List Text) : Nat :=
  (graph.filter fun entry => !seen.contains entry.1).length

theorem unseen_le {more : List Text} (subset : seen ⊆ more) :
    unseen graph more ≤ unseen graph seen := by
  unfold unseen
  rw [← List.countP_eq_length_filter, ← List.countP_eq_length_filter]
  refine List.countP_mono_left fun entry _ other => ?_
  simp only [Bool.not_eq_true', List.contains_eq_mem, decide_eq_false_iff_not] at other ⊢
  exact fun listed => other (subset listed)

theorem unseen_cons {state : Text} (fresh : state ∉ seen)
    (known : Table.get? graph state = some rules) :
    unseen graph (state :: seen) < unseen graph seen := by
  have fewer : ((graph.filter fun entry => !seen.contains entry.1).filter
      fun entry => entry.1 ≠ state).length < unseen graph seen := by
    refine List.length_filter_lt_length_iff_exists.2 ⟨(state, rules), ?_, by simp⟩
    exact List.mem_filter.2 ⟨Table.mem_of_get? known, by simpa using fresh⟩
  rw [List.filter_filter] at fewer
  refine Nat.lt_of_le_of_lt (Nat.le_of_eq ?_) fewer
  unfold unseen
  congr 2
  funext entry
  simp

/-- One rule of an expansion, given what expands the states that are met. -/
def expandRule (deeper : Text → List Text → List Rule × List Text) :
    List Rule × List Text → Rule → List Rule × List Text
  | (rules, seen), .splice target =>
    let (more, seen) := deeper target seen
    (rules ++ more, seen)
  | (rules, seen), rule => (rules ++ [rule], seen)

theorem expandRule_keep {deeper : Text → List Text → List Rule × List Text}
    (own : rule.isSplice = false) :
    expandRule deeper (rules, seen) rule = (rules ++ [rule], seen) := by
  cases rule with
  | splice target => cases own
  | _ => rfl

theorem flattenFrom_seen {state : Text} (before : state ∈ seen) :
    flattenFrom graph depth state seen = ([], seen) := by
  cases depth with
  | zero => rfl
  | succ depth =>
    rw [flattenFrom]
    exact if_pos (List.contains_iff_mem.2 before)

/-- One level of the expansion, where a splice goes one level deeper. -/
theorem flattenFrom_fresh {state : Text} (fresh : state ∉ seen) :
    flattenFrom graph (depth + 1) state seen =
      (rulesAt graph state).foldl (expandRule (flattenFrom graph depth)) ([], state :: seen) := by
  rw [flattenFrom, if_neg fun before => fresh (List.contains_iff_mem.1 before)]
  unfold rulesAt
  congr 1
  funext ⟨rules, seen⟩ rule
  cases rule <;> rfl

/-- The rules of a list come out one after the other, if the states that are met do. -/
theorem foldl_expandRule {deeper : Text → List Text → List Rule × List Text}
    (known : ∀ target seen', seen ⊆ seen' → target ∈ seen' → deeper target seen' = ([], seen'))
    (inner : ∀ target seen', seen ⊆ seen' → target ∉ seen' →
      Expands graph (target :: seen') (rulesAt graph target) (deeper target seen').1
        (deeper target seen').2)
    (rules before : List Rule) :
    ∃ out last, rules.foldl (expandRule deeper) (before, seen) = (before ++ out, last) ∧
      Expands graph seen rules out last := by
  induction rules generalizing before seen with
  | nil => exact ⟨[], seen, by rw [List.append_nil]; rfl, .nil seen⟩
  | cons rule rules ih =>
    rw [List.foldl_cons]
    cases rule with
    | splice target =>
      by_cases met : target ∈ seen
      · obtain ⟨out, last, folded, expands⟩ := ih known inner before
        refine ⟨out, last, ?_, .again met expands⟩
        rw [← folded, expandRule, known target seen (List.Subset.refl seen) met]
        dsimp only
        rw [List.append_nil]
      · have inside := inner target seen (List.Subset.refl seen) met
        have more : seen ⊆ (deeper target seen).2 :=
          fun state listed => inside.seen_subset (List.mem_cons_of_mem _ listed)
        obtain ⟨out, last, folded, expands⟩ :=
          ih (fun target seen' subset => known target seen' (List.Subset.trans more subset))
            (fun target seen' subset => inner target seen' (List.Subset.trans more subset))
            (before ++ (deeper target seen).1)
        refine ⟨(deeper target seen).1 ++ out, last, ?_, .enter met inside expands⟩
        rw [← List.append_assoc, ← folded, expandRule]
    | _ =>
      obtain ⟨out, last, folded, expands⟩ := ih known inner (before ++ [_])
      refine ⟨_ :: out, last, ?_, .keep rfl expands⟩
      rw [expandRule_keep rfl, folded, List.append_assoc]
      rfl

theorem flattenFrom_expands {state : Text} (fresh : state ∉ seen)
    (enough : unseen graph seen < depth) :
    Expands graph (state :: seen) (rulesAt graph state) (flattenFrom graph depth state seen).1
      (flattenFrom graph depth state seen).2 := by
  induction depth generalizing state seen with
  | zero => cases enough
  | succ depth ih =>
    rw [flattenFrom_fresh fresh]
    cases known : Table.get? graph state with
    | none =>
      rw [rulesAt_of_unknown known]
      exact .nil _
    | some rules =>
      have left {seen' : List Text} (subset : state :: seen ⊆ seen') :
          unseen graph seen' < depth := by
        have fewer := unseen_cons fresh known
        have others : unseen graph seen' ≤ unseen graph (state :: seen) := unseen_le subset
        omega
      obtain ⟨out, last, folded, expands⟩ :=
        foldl_expandRule (fun target seen' _ met => flattenFrom_seen met)
          (fun target seen' subset fresh => ih fresh (left subset)) (rulesAt graph state) []
      rw [folded]
      exact expands

/-- The rules that a state runs are its own with their splices expanded in place, each state at
most once. -/
theorem flatten_expands (graph : Graph) (state : Text) :
    ∃ last, Expands graph [state] (rulesAt graph state) (flatten graph state) last := by
  have start : unseen graph [] ≤ graph.length := List.length_filter_le _ _
  exact ⟨_, flattenFrom_expands List.not_mem_nil (by omega)⟩

/-- No splice is left, and each rule stands in a state of the graph. -/
theorem mem_flatten {state : Text} (listed : rule ∈ flatten graph state) :
    rule.isSplice = false ∧ ∃ entry ∈ graph, rule ∈ entry.2 := by
  obtain ⟨last, expands⟩ := flatten_expands graph state
  obtain ⟨kept, held | held⟩ := expands.mem_out listed
  · exact ⟨kept, exists_of_mem_rulesAt held⟩
  · exact ⟨kept, held⟩

end SubLexer

end Highlight
