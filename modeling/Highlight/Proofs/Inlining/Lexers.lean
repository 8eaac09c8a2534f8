import Highlight.Proofs.Compilation.Session
import Highlight.Proofs.Inlining.Flattened
import Highlight.Proofs.SubLexer.Pushdown

/-!
# Sub-lexers of an inlined language

Whether the rules of a state can be compiled, and what keeps the states from being joined, is found
by a search from the first rule on, which goes the same way in the inlined language. So the lexer of
a language and that of the inlined language are both built, or fail for causes of one kind
(`build_inlined`). A rule that is ready shows its source and its move (`Shows`); its index is left
to the lexers that run.
-/

namespace Highlight

namespace SubLexer

variable {graph : Graph} {state : Text} {rule : Rule} {rules : List LexRule} {ready : LexRule}
  {index index' : Nat}

/-! ## The rules of one state -/

/-- Compiles a rule at its place among the rules of a state. -/
def compileAt (state : Text) (index : Nat) (rule : Rule) : Except RuleFault (Option LexRule) :=
  match rule.pattern? with
  | none => .error ⟨.breakdown (.missingValue "startsWith"), state, []⟩
  | some pattern => compileRule state index pattern rule.token? (moveOf state rule)

theorem compileState_eq (graph : Graph) (state : Text) :
    compileState graph state =
      ((flatten graph state).zipIdx.mapM fun entry => compileAt state entry.2 entry.1).map
        (·.filterMap id) := by
  unfold compileState compileAt
  rfl

/-- The place of a rule shows only in its index. -/
theorem compileAt_index (state : Text) (index index' : Nat) (rule : Rule) :
    compileAt state index' rule =
      (compileAt state index rule).map
        (Option.map fun ready => { ready with index := index' }) := by
  unfold compileAt
  split
  · rfl
  · unfold compileRule
    dsimp only
    split
    · rfl
    · split
      · rfl
      · split
        · rfl
        · rfl
        · rfl
        · split <;> rfl

/-- A state fails with its first rule that does. -/
theorem failure?_compileState (graph : Graph) (state : Text) :
    failure? (compileState graph state) =
      (flatten graph state).findSome? fun rule => failure? (compileAt state 0 rule) := by
  have placeless : (fun entry : Rule × Nat => failure? (compileAt state entry.2 entry.1)) =
      (fun rule => failure? (compileAt state 0 rule)) ∘ Prod.fst := by
    funext entry
    rw [compileAt_index state 0, failure?_map]
    rfl
  rw [compileState_eq, failure?_map, failure?_mapM, placeless, ← List.findSome?_map,
    List.zipIdx_map_fst]

/-- The source and the move of a rule that is ready, which do not show its place. -/
def Shows (rules : List LexRule) (source : Text) (move : Move) : Prop :=
  ∃ ready ∈ rules, ready.source = source ∧ ready.move = move

theorem shows_iff (compiled : compileState graph state = .ok rules) (source : Text) (move : Move) :
    Shows rules source move ↔ ∃ rule ∈ flatten graph state, ∃ ready,
      compileAt state 0 rule = .ok (some ready) ∧ ready.source = source ∧ ready.move = move := by
  rw [compileState_eq] at compiled
  cases mapped : (flatten graph state).zipIdx.mapM fun entry => compileAt state entry.2 entry.1 with
  | error e =>
    rw [mapped] at compiled
    cases compiled
  | ok results =>
    rw [mapped] at compiled
    cases compiled
    constructor
    · rintro ⟨ready, held, rfl, rfl⟩
      obtain ⟨result, listed, rfl⟩ := List.mem_filterMap.1 held
      obtain ⟨⟨rule, index⟩, inside, made⟩ := exists_of_mapM_eq_ok mapped listed
      refine ⟨rule, List.fst_mem_of_mem_zipIdx inside, { ready with index := 0 }, ?_, rfl, rfl⟩
      dsimp only at made
      rw [compileAt_index state index, made]
      rfl
    · rintro ⟨rule, listed, ready, made, rfl, rfl⟩
      rw [← List.zipIdx_map_fst 0 (flatten graph state)] at listed
      obtain ⟨⟨rule', index⟩, inside, rfl⟩ := List.mem_map.1 listed
      obtain ⟨result, held, made'⟩ := mem_of_mapM_eq_ok mapped inside
      dsimp only at made made'
      rw [compileAt_index state 0, made] at made'
      cases made'
      exact ⟨_, List.mem_filterMap.2 ⟨_, held, rfl⟩, rfl, rfl⟩

/-! ## States joined -/

/-- The rules of a state that are ready, none if it cannot be compiled. -/
def readied (graph : Graph) (state : Text) : List LexRule :=
  ((compileState graph state).toOption).getD []

/-- The names of the states that can be entered, in their order. -/
def enterableNames (names : List Text) : List Text :=
  ((Table.positionsFirst (names.map fun name => (name, ()))).map (·.1)).filter fun name =>
    name ≠ sharedState && name ≠ unreachableState

/-- Which states can be entered does not depend on their rules. -/
theorem enterable_map (names : List Text) (rulesOf : Text → List LexRule) :
    enterable (names.map fun name => (name, rulesOf name)) =
      (enterableNames names).map fun name => (name, rulesOf name) := by
  have mapped : (names.map fun name => (name, rulesOf name)) =
      (names.map fun name => (name, ())).map fun entry => (entry.1, rulesOf entry.1) := by
    rw [List.map_map]
    rfl
  unfold enterable enterableNames
  rw [mapped, Table.positionsFirst_map _ fun name _ => rulesOf name, List.filter_map,
    List.filter_map, List.map_map]
  rfl

/-- The error of a language for a rule that cannot be compiled. -/
def RuleFault.located (language : Language) (e : RuleFault) : LexerError :=
  ⟨e.fault, language.name, some e.state, some e.pattern⟩

/-- The states of a language with their rules. -/
def readiedStates (graph : Graph) : Table Text (List LexRule) :=
  (Table.keys graph).map fun state => (state, readied graph state)

/-- A state compiled as part of its language. -/
def compileNamed (language : Language) (state : Text) :
    Except LexerError (Text × List LexRule) :=
  match compileState language.graph state with
  | .ok rules => .ok (state, rules)
  | .error e => .error (e.located language)

theorem failure?_compileNamed (language : Language) (state : Text) :
    failure? (compileNamed language state) =
      (failure? (compileState language.graph state)).map (RuleFault.located language) := by
  unfold compileNamed
  cases compileState language.graph state <;> rfl

theorem eq_of_compileNamed {language : Language} {entry : Text × List LexRule}
    (compiled : compileNamed language state = .ok entry) :
    entry = (state, readied language.graph state) := by
  unfold compileNamed at compiled
  unfold readied
  cases known : compileState language.graph state with
  | error e =>
    rw [known] at compiled
    cases compiled
  | ok rules =>
    rw [known] at compiled
    cases compiled
    rfl

/-- A lexer is built if each state can be compiled and the states can be joined. -/
theorem build_eq (language : Language) {start : Text} (known : start ∈ Table.keys language.graph) :
    build language start =
      match (Table.keys language.graph).findSome? fun state =>
        failure? (compileState language.graph state) with
      | some e => .error (e.located language)
      | none =>
        match joinFault? (readiedStates language.graph) start with
        | some fault => .error ⟨fault, language.name, some start, none⟩
        | none =>
          let states := enterable (readiedStates language.graph)
          .ok ⟨states.map fun (name, rules) => (name, activate rules),
            (startOf? states start).getD start⟩ := by
  have present : Table.has language.graph start = true := Table.has_iff.2 known
  have parts : build language start =
      (Table.keys language.graph).mapM (compileNamed language) >>= fun states =>
        match joinFault? states start with
        | some fault => .error ⟨fault, language.name, some start, none⟩
        | none =>
          let states := enterable states
          .ok ⟨states.map fun (name, rules) => (name, activate rules),
            (startOf? states start).getD start⟩ := by
    unfold build
    rw [present]
    rfl
  have failing : failure? ((Table.keys language.graph).mapM (compileNamed language)) =
      ((Table.keys language.graph).findSome? fun state =>
        failure? (compileState language.graph state)).map (RuleFault.located language) := by
    rw [failure?_mapM, List.map_findSome?]
    congr 1
    funext state
    exact failure?_compileNamed language state
  rw [parts]
  cases mapped : (Table.keys language.graph).mapM (compileNamed language) with
  | error e =>
    rw [mapped] at failing
    obtain ⟨fault, found, rfl⟩ := Option.map_eq_some_iff.1 failing.symm
    rw [found]
    rfl
  | ok states =>
    rw [mapped] at failing
    rw [Option.map_eq_none_iff.1 failing.symm]
    obtain rfl : states = readiedStates language.graph :=
      eq_map_of_mapM_eq_ok mapped fun state entry made => eq_of_compileNamed made
    rfl

/-! ## Building both lexers -/

section Both

variable {language : Language} {start : Text}

theorem failure?_inlined (acyclic : language.graph.Acyclic) (state : Text) :
    failure? (compileState language.inlined.graph state) =
      failure? (compileState language.graph state) := by
  rw [failure?_compileState, failure?_compileState, Graph.findSome?_flatten_inlined acyclic]

theorem shows_readied (acyclic : language.graph.Acyclic) (state source : Text) (move : Move) :
    Shows (readied language.inlined.graph state) source move ↔
      Shows (readied language.graph state) source move := by
  have same := failure?_inlined acyclic state
  unfold readied
  cases compiled : compileState language.graph state with
  | error e =>
    rw [compiled] at same
    cases compiled' : compileState language.inlined.graph state with
    | error e' => exact Iff.rfl
    | ok rules' =>
      rw [compiled'] at same
      cases same
  | ok rules =>
    rw [compiled] at same
    cases compiled' : compileState language.inlined.graph state with
    | error e' =>
      rw [compiled'] at same
      cases same
    | ok rules' =>
      change Shows rules' source move ↔ Shows rules source move
      rw [shows_iff compiled', shows_iff compiled]
      simp only [Graph.mem_flatten_inlined acyclic]

theorem keys_map (names : List Text) (rulesOf : Text → List LexRule) :
    Table.keys (names.map fun name => (name, rulesOf name)) = names := by
  unfold Table.keys
  rw [List.map_map]
  exact List.map_id names

/-- In which state a run starts does not depend on the rules. -/
theorem startOf?_congr {states states' : Table Text (List LexRule)}
    (same : Table.keys states = Table.keys states') (start : Text) :
    startOf? states start = startOf? states' start := by
  have known : Table.has states start = Table.has states' start := by
    rw [Bool.eq_iff_iff, Table.has_iff, Table.has_iff, same]
  unfold startOf?
  rw [known, same]

/-- States can be joined if others with the same names can whose rules show all that theirs do. -/
theorem joinFault?_of_shows {names : List Text} {rulesOf rulesOf' : Text → List LexRule}
    (shown : ∀ name source move, Shows (rulesOf' name) source move →
      Shows (rulesOf name) source move)
    (sound : joinFault? (names.map fun name => (name, rulesOf name)) start = none) :
    joinFault? (names.map fun name => (name, rulesOf' name)) start = none := by
  obtain ⟨captureless, closed, starts⟩ := joinFault?_eq_none_iff.1 sound
  rw [enterable_map] at captureless closed starts
  rw [joinFault?_eq_none_iff, enterable_map]
  refine ⟨fun entry held => ?_, fun entry held rule listed target enters => ?_, ?_⟩
  · obtain ⟨name, inside, rfl⟩ := List.mem_map.1 held
    obtain ⟨all, unshared⟩ := captureless _ (List.mem_map.2 ⟨name, inside, rfl⟩)
    constructor
    · intro rule listed
      obtain ⟨rule', listed', same, -⟩ := shown name _ _ ⟨rule, listed, rfl, rfl⟩
      rw [← same]
      exact all rule' listed'
    · rwa [Table.get?_eq_none_iff, keys_map] at unshared ⊢
  · obtain ⟨name, inside, rfl⟩ := List.mem_map.1 held
    obtain ⟨rule', listed', -, same⟩ := shown name _ _ ⟨rule, listed, rfl, rfl⟩
    have entered :=
      closed _ (List.mem_map.2 ⟨name, inside, rfl⟩) rule' listed' target (same.trans enters)
    rwa [keys_map] at entered ⊢
  · have same : Table.keys ((enterableNames names).map fun name => (name, rulesOf' name)) =
        Table.keys ((enterableNames names).map fun name => (name, rulesOf name)) :=
      (keys_map ..).trans (keys_map ..).symm
    rwa [startOf?_congr same]

theorem joinFault?_inlined (acyclic : language.graph.Acyclic) (start : Text) :
    joinFault? (readiedStates language.inlined.graph) start = none ↔
      joinFault? (readiedStates language.graph) start = none := by
  unfold readiedStates
  rw [Graph.keys_inlined]
  constructor
  · exact joinFault?_of_shows fun name source move => (shows_readied acyclic name source move).2
  · exact joinFault?_of_shows fun name source move => (shows_readied acyclic name source move).1

/-- States that cannot be joined are no breakdown. -/
theorem kind_of_joinFault? {states : Table Text (List LexRule)} {fault : LexerFault}
    (found : joinFault? states start = some fault) (language : Language) (name : Text)
    (state pattern : Option Text) :
    (Context.buildError language ⟨fault, name, state, pattern⟩).fault.kind =
      .malformedGroupSample := by
  unfold joinFault? at found
  dsimp only at found
  split at found
  · rename_i unjoined
    cases found
    obtain ⟨entry, -, unjoined⟩ := List.exists_of_findSome?_eq_some unjoined
    unfold stateFault? at unjoined
    dsimp only at unjoined
    split at unjoined
    · rename_i capturing
      cases unjoined
      obtain ⟨rule, -, rfl⟩ := Option.map_eq_some_iff.1 capturing
      rfl
    · split at unjoined
      · cases unjoined
      · rename_i shared known
        cases unjoined
        cases capturingRule? shared <;> rfl
  · split at found
    · rename_i missing
      cases found
      obtain ⟨entry, -, missing⟩ := List.exists_of_findSome?_eq_some missing
      obtain ⟨rule, -, missing⟩ := List.exists_of_findSome?_eq_some missing
      split at missing
      · split at missing
        · cases missing
        · cases missing
          rfl
      · cases missing
    · split at found
      · cases found
        rfl
      · cases found

/-- Both lexers are built, and start in one state, or both are not, for causes of one kind. -/
theorem build_inlined (acyclic : language.graph.Acyclic)
    (known : start ∈ Table.keys language.graph) :
    (∃ e e', build language start = .error e ∧ build language.inlined start = .error e' ∧
      (Context.buildError language e).fault.kind =
        (Context.buildError language.inlined e').fault.kind) ∨
      ∃ lexer lexer', build language start = .ok lexer ∧
        build language.inlined start = .ok lexer' ∧ lexer.start = lexer'.start := by
  have known' : start ∈ Table.keys language.inlined.graph := by rwa [Graph.keys_inlined]
  have joins := joinFault?_inlined acyclic start
  rw [build_eq language known, build_eq language.inlined known', Graph.keys_inlined]
  simp only [failure?_inlined acyclic]
  cases (Table.keys language.graph).findSome? fun state =>
      failure? (compileState language.graph state) with
  | some e => exact .inl ⟨_, _, rfl, rfl, rfl⟩
  | none =>
    dsimp only
    cases unjoined : joinFault? (readiedStates language.graph) start with
    | none =>
      rw [joins.2 unjoined]
      refine .inr ⟨_, _, rfl, rfl, ?_⟩
      dsimp only
      unfold readiedStates
      rw [Graph.keys_inlined, enterable_map, enterable_map]
      rw [startOf?_congr ((keys_map ..).trans (keys_map ..).symm)]
    | some fault =>
      cases unjoined' : joinFault? (readiedStates language.inlined.graph) start with
      | none =>
        rw [joins.1 unjoined'] at unjoined
        cases unjoined
      | some fault' =>
        refine .inl ⟨_, _, rfl, rfl, ?_⟩
        rw [kind_of_joinFault? unjoined, kind_of_joinFault? unjoined']

end Both

end SubLexer

end Highlight
