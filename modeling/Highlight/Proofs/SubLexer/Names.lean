import Highlight.Proofs.Outcome
import Highlight.Proofs.SubLexer.Stream
import Highlight.Proofs.Table

/-!
# Names of states in a run

No rule of a lexer that was built enters a state by an empty name (`SubLexer.build_named`). A run
that starts in a state with a name therefore only comes to such states and never breaks down
(`Run.take_total`).
-/

namespace Highlight

/-- No rule enters a state by an empty name. -/
def SubLexer.Named (lexer : SubLexer) : Prop :=
  ∀ entry ∈ lexer.states, ∀ active ∈ entry.2, ∀ target, active.rule.move = .enter target →
    target ≠ []

/-- The state and all that are saved have a name. -/
structure Machine.Named (m : Machine) : Prop where
  state : m.state ≠ []
  saved : ∀ state ∈ m.saved, state ≠ []

namespace SubLexer

theorem moveOf_named {state target : Text} {rule : Rule}
    (enters : moveOf state rule = .enter target) : target ≠ [] := by
  unfold moveOf at enters
  split at enters
  · split at enters
    · cases enters
    · rename_i named
      cases enters
      exact fun none => named (List.isEmpty_iff.2 none)
  · split at enters
    · cases enters
    · rename_i named
      cases enters
      exact fun none => named (List.isEmpty_iff.2 none)
  · cases enters
  · cases enters

theorem compileRule_ready {state pattern : Text} {index : Nat} {token : Option TokenSpec}
    {move : Move} {ready : LexRule}
    (compiled : compileRule state index pattern token move = .ok (some ready)) :
    ready.index = index ∧ ready.move = move := by
  unfold compileRule at compiled
  dsimp only at compiled
  split at compiled
  · cases compiled
  · split at compiled
    · cases compiled
    · split at compiled
      · cases compiled
      · cases compiled
        exact ⟨rfl, rfl⟩
      · cases compiled
        exact ⟨rfl, rfl⟩
      · split at compiled
        · cases compiled
        · cases compiled
          exact ⟨rfl, rfl⟩

/-- A rule that is ready was compiled from the one at its index, splices expanded. -/
theorem exists_of_compileState {graph : Graph} {state : Text} {rules : List LexRule}
    {ready : LexRule} (compiled : compileState graph state = .ok rules) (inside : ready ∈ rules) :
    ∃ rule pattern, (flatten graph state)[ready.index]? = some rule ∧
      rule.pattern? = some pattern ∧
      compileRule state ready.index pattern rule.token? (moveOf state rule) = .ok (some ready) := by
  obtain ⟨results, mapped, kept⟩ := except_bind_eq_ok_iff.1 compiled
  cases kept
  obtain ⟨result, listed, same⟩ := List.mem_filterMap.1 inside
  cases same
  obtain ⟨⟨rule, index⟩, placed, made⟩ := exists_of_mapM_eq_ok mapped listed
  cases spelled : rule.pattern? with
  | none =>
    simp only [spelled] at made
    cases made
  | some pattern =>
    simp only [spelled] at made
    obtain ⟨rfl, -⟩ := compileRule_ready made
    exact ⟨rule, pattern, List.mem_zipIdx_iff_getElem?.1 placed, spelled, made⟩

theorem compileState_named {graph : Graph} {state target : Text} {rules : List LexRule}
    {rule : LexRule} (compiled : compileState graph state = .ok rules) (inside : rule ∈ rules)
    (enters : rule.move = .enter target) : target ≠ [] := by
  obtain ⟨rule', pattern, -, -, made⟩ := exists_of_compileState compiled inside
  rw [(compileRule_ready made).2] at enters
  exact moveOf_named enters

/-- The states of a lexer are compiled from states of its language. -/
theorem states_of_build {language : Language} {start : Text} {lexer : SubLexer}
    (built : build language start = .ok lexer) {entry : Text × List ActiveRule}
    (inside : entry ∈ lexer.states) :
    ∃ rules, compileState language.graph entry.1 = .ok rules ∧ entry.2 = activate rules := by
  unfold build at built
  dsimp only at built
  split at built
  · cases built
  · obtain ⟨states, mapped, joined⟩ := except_bind_eq_ok_iff.1 built
    split at joined
    · cases joined
    · cases joined
      obtain ⟨⟨name, rules⟩, listed, rfl⟩ := List.mem_map.1 inside
      have listed := Table.mem_of_positionsFirst (List.mem_filter.1 listed).1
      obtain ⟨state, _, made⟩ := exists_of_mapM_eq_ok mapped listed
      split at made
      · rename_i compiled
        cases made
        exact ⟨rules, compiled, rfl⟩
      · cases made

/-- No rule of a lexer that was built enters a state by an empty name. -/
theorem build_named {language : Language} {start : Text} {lexer : SubLexer}
    (built : build language start = .ok lexer) : lexer.Named := by
  intro entry inside active listed target enters
  obtain ⟨rules, compiled, same⟩ := states_of_build built inside
  rw [same] at listed
  obtain ⟨rule, held, rfl⟩ := List.mem_map.1 listed
  exact compileState_named compiled held enters

theorem mem_of_firstMatch {rules : List ActiveRule} {text : Array CodeUnit} {position stop : Nat}
    {rule : LexRule} (found : firstMatch rules text position = some (rule, stop)) :
    ∃ active ∈ rules, active.rule = rule := by
  obtain ⟨active, listed, found⟩ := List.exists_of_findSome?_eq_some found
  obtain ⟨last, _, same⟩ := Option.map_eq_some_iff.1 found
  cases same
  exact ⟨active, listed, rfl⟩

theorem entry_of_rulesOf {lexer : SubLexer} {state : Text} {active : ActiveRule}
    (listed : active ∈ lexer.rulesOf state) : ∃ entry ∈ lexer.states, active ∈ entry.2 := by
  unfold rulesOf at listed
  cases found : Table.get? lexer.states state with
  | none =>
    rw [found] at listed
    cases listed
  | some rules =>
    rw [found] at listed
    exact ⟨(state, rules), Table.mem_of_get? found, listed⟩

end SubLexer

theorem Machine.Named.follow {m : Machine} {move : Move} (named : m.Named)
    (entered : ∀ target, move = .enter target → target ≠ []) : (m.follow move).Named := by
  cases move with
  | stay => exact named
  | enter target =>
    refine ⟨entered target rfl, fun state saved => ?_⟩
    cases saved with
    | head => exact named.state
    | tail _ saved => exact named.saved state saved
  | leave =>
    simp only [Machine.follow]
    split
    · exact named
    · rename_i state saved stack
      have all := named.saved
      rw [stack] at all
      exact ⟨all state List.mem_cons_self, fun state inside => all state (.tail _ inside)⟩

theorem SubLexer.Named.step {lexer : SubLexer} {m : Machine} (named : lexer.Named)
    (stands : m.Named) (text : Array CodeUnit) : (lexer.step text m).2.Named := by
  unfold SubLexer.step
  split
  · exact ⟨stands.state, stands.saved⟩
  · rename_i rule stop found
    obtain ⟨active, listed, rfl⟩ := mem_of_firstMatch found
    obtain ⟨entry, inside, listed⟩ := entry_of_rulesOf listed
    apply Machine.Named.follow
    · exact ⟨stands.state, stands.saved⟩
    · exact named entry inside active listed

/-- From a state with a name, a run of a lexer gives as many tokens as are asked for, or ends. -/
theorem Run.take_total {run : Run} (named : run.lexer.Named) (stands : run.machine.Named) (count : Nat) :
    ∃ tokens last, run.take count = .ok (tokens, last) := by
  induction count generalizing run with
  | zero => exact ⟨[], run, rfl⟩
  | succ count ih =>
    by_cases left : run.machine.position < run.text.size
    · have next := Run.next_named left stands.state
      have named' : run.stepped.lexer.Named := named
      have stands' : run.stepped.machine.Named := named.step stands run.text
      obtain ⟨tokens, last, taken⟩ := ih named' stands'
      rw [Run.take_next next, taken]
      exact ⟨_, _, rfl⟩
    · rw [Run.take_ended (Run.next_ended (by omega))]
      exact ⟨[], run, rfl⟩

end Highlight
