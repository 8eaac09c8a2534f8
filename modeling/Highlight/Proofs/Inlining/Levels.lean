import Highlight.Proofs.SubLexer.Unrolled
import Mathlib.Data.Finset.Card

/-!
# Splices replaced by the rules they stand for

`Language.inlined` is the language with every splice replaced, recursively, by the rules of its
target. Where no state leads back to itself, the states that a state can come to are fewer with
each step (`Graph.level_lt`), so that the depth of the replacement is never what ends it and
replacing goes rule by rule (`Graph.inline_splice`).
-/

namespace Highlight

namespace Graph

open SubLexer

variable {graph : Graph} {state target : Text} {rule : Rule} {rules rest : List Rule}

/-- A rule of the state brings in or enters the other state. -/
def Leads (graph : Graph) (state target : Text) : Prop :=
  ∃ rule ∈ rulesAt graph state, rule.target? = some target

/-- No state leads back to itself. -/
def Acyclic (graph : Graph) : Prop := ∀ state, ¬ Relation.TransGen graph.Leads state state

/-- One rule with what it splices in, given what the rules of a state are replaced by. An undefined
target leaves the splice as it is. -/
def inlineRule (graph : Graph) (deeper : List Rule → List Rule) : Rule → List Rule
  | .splice target =>
    match Table.get? graph target with
    | some rules => deeper rules
    | none => [.splice target]
  | rule => [rule]

/-- Rules with their splices replaced, down to a depth. -/
def inlineFrom (graph : Graph) : Nat → List Rule → List Rule
  | 0, rules => rules
  | depth + 1, rules => rules.flatMap (inlineRule graph (inlineFrom graph depth))

/-- Rules with their splices replaced by the rules of the target, recursively. -/
def inline (graph : Graph) (rules : List Rule) : List Rule := inlineFrom graph graph.length rules

end Graph

/-- The language with every splice replaced by the rules of its target, recursively. -/
def Language.inlined (language : Language) : Language :=
  { language with
    graph := language.graph.map fun entry => (entry.1, language.graph.inline entry.2) }

namespace Graph

open SubLexer

variable {graph : Graph} {state target : Text} {rule : Rule} {rules rest : List Rule}

/-! ## Levels -/

open Classical in
/-- How many states can be come to from a state, with the state itself. -/
noncomputable def level (graph : Graph) (state : Text) : Nat :=
  ((Table.keys graph).toFinset.filter (Relation.ReflTransGen graph.Leads state)).card

theorem mem_keys_of_leads (leads : graph.Leads state target) : state ∈ Table.keys graph := by
  obtain ⟨rule, listed, -⟩ := leads
  exact List.mem_map_of_mem (entry_of_mem_rulesAt listed)

theorem level_le (graph : Graph) (state : Text) : graph.level state ≤ graph.length := by
  classical
  calc graph.level state
      ≤ (Table.keys graph).toFinset.card := Finset.card_filter_le _ _
    _ ≤ (Table.keys graph).length := List.toFinset_card_le _
    _ = graph.length := List.length_map _

theorem level_pos (known : state ∈ Table.keys graph) : 0 < graph.level state := by
  classical
  apply Finset.card_pos.2
  exact ⟨state, Finset.mem_filter.2 ⟨List.mem_toFinset.2 known, .refl⟩⟩

/-- Each step comes to fewer states. -/
theorem level_lt (acyclic : graph.Acyclic) (leads : graph.Leads state target) :
    graph.level target < graph.level state := by
  classical
  apply Finset.card_lt_card
  refine (Finset.ssubset_iff_of_subset ?_).2 ⟨state, ?_, ?_⟩
  · intro other held
    obtain ⟨known, reached⟩ := Finset.mem_filter.1 held
    exact Finset.mem_filter.2 ⟨known, .head leads reached⟩
  · exact Finset.mem_filter.2 ⟨List.mem_toFinset.2 (mem_keys_of_leads leads), .refl⟩
  · intro held
    obtain ⟨-, reached⟩ := Finset.mem_filter.1 held
    exact acyclic state (.head' leads reached)

/-- A graph has no cycle if something grows less along every rule. -/
theorem acyclic_of_rank (rank : Text → Nat)
    (falls : ∀ entry ∈ graph, ∀ rule ∈ entry.2, ∀ target ∈ rule.target?,
      rank target < rank entry.1) : graph.Acyclic := by
  have less (state target : Text) (leads : graph.Leads state target) :
      rank target < rank state := by
    obtain ⟨rule, listed, leads⟩ := leads
    exact falls _ (entry_of_mem_rulesAt listed) rule listed target leads
  exact fun _ cycle => Nat.lt_irrefl _ (lt_of_transGen less cycle)

/-- In a graph without cycles splices come to an end. -/
theorem Acyclic.endsFrom (acyclic : graph.Acyclic) : graph.EndsFrom state := by
  have leads : graph.Brings ≤ graph.Leads := fun state target brings => ⟨_, brings, rfl⟩
  exact fun other _ cycle => acyclic other (Relation.TransGen.mono leads other other cycle)

/-! ## One rule at a time -/

theorem inlineFrom_nil (graph : Graph) (depth : Nat) : inlineFrom graph depth [] = [] := by
  cases depth <;> rfl

theorem inlineRule_known {deeper : List Rule → List Rule}
    (known : Table.get? graph target = some rules) :
    inlineRule graph deeper (.splice target) = deeper rules := by
  simp only [inlineRule, known]

theorem inlineRule_absent {deeper : List Rule → List Rule}
    (unknown : Table.get? graph target = none) :
    inlineRule graph deeper (.splice target) = [.splice target] := by
  simp only [inlineRule, unknown]

theorem inlineRule_keep {deeper : List Rule → List Rule} (own : rule.isSplice = false) :
    inlineRule graph deeper rule = [rule] := by
  cases rule with
  | splice => cases own
  | _ => rfl

theorem subset_rulesAt (known : Table.get? graph target = some rules) :
    rules ⊆ rulesAt graph target := by
  rw [rulesAt_of_get? known]
  exact List.Subset.refl rules

theorem eq_nil_of_level (subset : rules ⊆ rulesAt graph state) (bottom : graph.level state = 0) :
    rules = [] := by
  have unknown : state ∉ Table.keys graph := fun known => by
    have positive := level_pos known
    omega
  rw [rulesAt_of_unknown (Table.get?_eq_none_iff.2 unknown)] at subset
  exact List.eq_nil_of_subset_nil subset

/-- A depth that is not below the level of the state is enough. -/
theorem inlineFrom_stable (acyclic : graph.Acyclic) {depth depth' : Nat}
    (subset : rules ⊆ rulesAt graph state) (enough : graph.level state ≤ depth)
    (enough' : graph.level state ≤ depth') :
    inlineFrom graph depth rules = inlineFrom graph depth' rules := by
  induction depth generalizing depth' state rules with
  | zero =>
    rw [eq_nil_of_level subset (Nat.le_zero.1 enough), inlineFrom_nil, inlineFrom_nil]
  | succ depth ih =>
    cases depth' with
    | zero => rw [eq_nil_of_level subset (Nat.le_zero.1 enough'), inlineFrom_nil, inlineFrom_nil]
    | succ depth' =>
      unfold inlineFrom
      refine List.flatMap_congr fun rule listed => ?_
      cases own : rule.isSplice with
      | false => rw [inlineRule_keep own, inlineRule_keep own]
      | true =>
        obtain ⟨target, rfl⟩ := Rule.exists_of_isSplice own
        cases known : Table.get? graph target with
        | none => rw [inlineRule_absent known, inlineRule_absent known]
        | some inner =>
          have lower : graph.level target < graph.level state :=
            level_lt acyclic ⟨_, subset listed, rfl⟩
          rw [inlineRule_known known, inlineRule_known known]
          exact ih (subset_rulesAt known) (by omega) (by omega)

theorem inline_nil (graph : Graph) : graph.inline [] = [] := inlineFrom_nil graph _

theorem inline_keep (own : rule.isSplice = false) :
    graph.inline (rule :: rest) = rule :: graph.inline rest := by
  unfold inline
  cases graph.length with
  | zero => rfl
  | succ depth =>
    rw [inlineFrom, inlineFrom, List.flatMap_cons, inlineRule_keep own]
    rfl

theorem inline_absent (unknown : Table.get? graph target = none) :
    graph.inline (.splice target :: rest) = .splice target :: graph.inline rest := by
  unfold inline
  cases graph.length with
  | zero => rfl
  | succ depth =>
    rw [inlineFrom, inlineFrom, List.flatMap_cons, inlineRule_absent unknown]
    rfl

/-- A splice of a state of the graph is replaced by the rules of its target, whose own splices are
replaced in turn. -/
theorem inline_splice (acyclic : graph.Acyclic) (listed : .splice target ∈ rulesAt graph state)
    (known : Table.get? graph target = some rules) :
    graph.inline (.splice target :: rest) = graph.inline rules ++ graph.inline rest := by
  have lower : graph.level target < graph.level state := level_lt acyclic ⟨_, listed, rfl⟩
  have most := level_le graph state
  obtain ⟨depth, depths⟩ : ∃ depth, graph.length = depth + 1 := ⟨graph.length - 1, by omega⟩
  have stable : inlineFrom graph (depth + 1) rules = inlineFrom graph depth rules :=
    inlineFrom_stable acyclic (subset_rulesAt known) (by omega) (by omega)
  unfold inline
  rw [depths, stable, inlineFrom, inlineFrom, List.flatMap_cons, inlineRule_known known]

/-- Rules and what is left of them when each splice of a state is replaced. -/
inductive Inlines (graph : Graph) : List Rule → List Rule → Prop
  | nil : Inlines graph [] []
  | keep {rule : Rule} {rules out : List Rule} (own : rule.isSplice = false)
    (rest : Inlines graph rules out) : Inlines graph (rule :: rules) (rule :: out)
  | absent {target : Text} {rules out : List Rule} (unknown : Table.get? graph target = none)
    (rest : Inlines graph rules out) :
    Inlines graph (.splice target :: rules) (.splice target :: out)
  | splice {target : Text} {inner rules out out' : List Rule}
    (known : Table.get? graph target = some inner) (inside : Inlines graph inner out)
    (rest : Inlines graph rules out') : Inlines graph (.splice target :: rules) (out ++ out')

/-- Replacing goes rule by rule. The induction is on the level of the state, and for each level on
the rules. -/
theorem inlines (acyclic : graph.Acyclic) (subset : rules ⊆ rulesAt graph state) :
    Inlines graph rules (graph.inline rules) := by
  generalize height : graph.level state = level
  induction level using Nat.strong_induction_on generalizing state rules with
  | _ level below =>
    subst height
    induction rules with
    | nil =>
      rw [inline_nil]
      exact .nil
    | cons rule rules ih =>
      have listed : rule ∈ rulesAt graph state := subset List.mem_cons_self
      have rest := ih fun other held => subset (List.mem_cons_of_mem _ held)
      cases own : rule.isSplice with
      | false =>
        rw [inline_keep own]
        exact .keep own rest
      | true =>
        obtain ⟨target, rfl⟩ := Rule.exists_of_isSplice own
        cases known : Table.get? graph target with
        | none =>
          rw [inline_absent known]
          exact .absent known rest
        | some inner =>
          rw [inline_splice acyclic listed known]
          have lower : graph.level target < graph.level state := level_lt acyclic ⟨_, listed, rfl⟩
          exact .splice known (below _ lower (subset_rulesAt known) rfl) rest

/-- A splice that is left has no target. -/
theorem Inlines.absent_of_mem {out : List Rule} (inlines : Inlines graph rules out)
    (listed : .splice target ∈ out) : Table.get? graph target = none := by
  induction inlines with
  | nil => cases listed
  | keep own _ ih =>
    cases listed with
    | head => cases own
    | tail _ listed => exact ih listed
  | absent unknown _ ih =>
    cases listed with
    | head => exact unknown
    | tail _ listed => exact ih listed
  | splice _ _ _ inside rest =>
    obtain listed | listed := List.mem_append.1 listed
    · exact inside listed
    · exact rest listed

/-! ## The inlined language -/

theorem keys_inlined (language : Language) :
    Table.keys language.inlined.graph = Table.keys language.graph := by
  unfold Table.keys Language.inlined
  rw [List.map_map]
  rfl

theorem get?_inlined (language : Language) (state : Text) :
    Table.get? language.inlined.graph state =
      (Table.get? language.graph state).map language.graph.inline := by
  unfold Language.inlined
  dsimp only
  generalize language.graph.inline = inline
  induction language.graph with
  | nil => rfl
  | cons entry rest ih =>
    rw [List.map_cons, Table.get?, Table.get?, ih]
    split <;> rfl

theorem rulesAt_inlined (language : Language) (state : Text) :
    rulesAt language.inlined.graph state =
      language.graph.inline (rulesAt language.graph state) := by
  unfold rulesAt
  rw [get?_inlined]
  cases Table.get? language.graph state with
  | none => exact (inline_nil _).symm
  | some rules => rfl

end Graph

end Highlight
