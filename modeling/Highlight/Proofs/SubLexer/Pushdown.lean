import Highlight.Proofs.SubLexer.Expansion
import Highlight.Proofs.SubLexer.Joined

/-!
# Sub-lexers as pushdown machines

The tokens of a lexer are those of a machine that knows nothing of compiled rules: it goes through
the rules of its state, splices expanded, and tries the own expression of each one at its place
(`SubLexer.tokens_pushdown`). One rule is compared first (`Runs`), then the rules of a state
(`Activated.firstMatch`), then one step of both machines (`step_agrees`), and the run follows by
induction on the number of tokens.
-/

namespace Highlight

/-! ## The machine -/

/-- What the machine gives for a part of the text. Some rules leave the type open. -/
structure Emission where
  type : Option TokenType
  text : Text
  offset : Nat
  deriving DecidableEq, Repr

/-- The token stands for the same part of the text, with the same type if there is one. -/
structure Emission.Agrees (token : Token) (emission : Emission) : Prop where
  type : ∀ type, emission.type = some type → token.type = type
  text : token.text = emission.text
  offset : token.offset = emission.offset

namespace Pushdown

/-- Where the match of a rule ends that starts at a place, if its own expression matches there. An
expression that matches the empty text is left out. -/
def stop? (rule : Rule) (text : Array CodeUnit) (place : Nat) : Option Nat := do
  let pattern ← rule.pattern?
  let e ← Regex.read? (Regex.withoutCaptures (Regex.hostSource pattern))
  if e.matchesEmpty then none else (e.matchAt true text place).map (·.position)

/-- The first rule that matches at a place, and where its match ends. -/
def choose? (rules : List Rule) (text : Array CodeUnit) (place : Nat) : Option (Rule × Nat) :=
  rules.findSome? fun rule => (stop? rule text place).map (rule, ·)

/-- The type that a rule gives to what it matches: its literal, or that of plain text where
another lexer has to be asked. -/
def type? (rule : Rule) : Option TokenType :=
  match rule.token? with
  | some (.literal token) => some token
  | some (.dynamic _) => some .text
  | _ => none

/-- Where a rule leads. A target without a name is no state. -/
def lead (m : Machine) : Rule → Machine
  | .nested _ _ target =>
    if target = [] then m else { m with state := target, saved := m.state :: m.saved }
  | .push _ _ => { m with saved := m.state :: m.saved }
  | .pop _ _ _ =>
    match m.saved with
    | [] => m
    | state :: saved => { m with state, saved }
  | _ => m

/-- What is emitted at a place that is not the end, and the machine after it. -/
def step (rules : Text → List Rule) (text : Array CodeUnit) (m : Machine) : Emission × Machine :=
  match choose? (rules m.state) text m.position with
  | none =>
    (⟨some .error, SubLexer.slice text m.position text.size, m.position⟩,
      { m with position := text.size })
  | some (rule, stop) =>
    (⟨type? rule, SubLexer.slice text m.position stop, m.position⟩,
      lead { m with position := stop } rule)

end Pushdown

/-- The names and patterns of a graph are such that a rule does among others what it says alone. -/
structure Graph.Ordinary (graph : Graph) : Prop where
  named : ∀ state ∈ Table.keys graph, state ≠ []
  unshared : ∀ state ∈ Table.keys graph,
    state ≠ SubLexer.sharedState ∧ state ≠ SubLexer.unreachableState
  typed : ∀ entry ∈ graph, ∀ rule ∈ entry.2, Pushdown.type? rule ≠ some []
  unnumbered : ∀ entry ∈ graph, ∀ rule ∈ entry.2, ∀ pattern ∈ rule.pattern?,
    Regex.Unnumbered false pattern

namespace SubLexer

variable {language : Language} {graph : Graph} {start state : Text} {lexer : SubLexer} {rule : Rule}
  {active : ActiveRule} {rules : List Rule} {actives : List ActiveRule} {m : Machine}

/-! ## One rule -/

/-- How the token of a rule is found, if its groups can be read. -/
def namingOf? (pattern : Text) (token : Option TokenSpec) : Option Naming :=
  match token with
  | none => none
  | some (.literal token) => some (.fixed token)
  | some (.dynamic _) => some (.fixed .text)
  | some (.compound items) =>
    (Regex.read? (Regex.hostSource pattern)).map fun groups => .byGroup groups items

/-- A rule that is ready matches where the rule does, and does the same. -/
structure Runs (state : Text) (rule : Rule) (active : ActiveRule) : Prop where
  stop : ∀ text place,
    (active.expression.matchAt true text place).map (·.position) = Pushdown.stop? rule text place
  move : active.rule.move = moveOf state rule
  naming : (rule.pattern?.bind fun pattern => namingOf? pattern rule.token?) =
    some active.rule.naming

/-- What a rule is compiled to, if it can be compiled. -/
theorem compileRule_cases {pattern : Text} {index : Nat} {token : Option TokenSpec} {move : Move}
    {result : Option LexRule} (compiled : compileRule state index pattern token move = .ok result) :
    ∃ e, Regex.read? (Regex.withoutCaptures (Regex.hostSource pattern)) = some e ∧
      (e.matchesEmpty = true ∧ result = none ∨
        e.matchesEmpty = false ∧ ∃ naming, namingOf? pattern token = some naming ∧
          result =
            some ⟨index, Regex.withoutCaptures (Regex.hostSource pattern), naming, move⟩) := by
  unfold compileRule at compiled
  dsimp only at compiled
  split at compiled
  · cases compiled
  · rename_i e read
    refine ⟨e, read, ?_⟩
    split at compiled
    · rename_i idle
      cases compiled
      exact .inl ⟨idle, rfl⟩
    · rename_i busy
      refine .inr ⟨Bool.eq_false_iff.2 busy, ?_⟩
      split at compiled
      · cases compiled
      · cases compiled
        exact ⟨_, rfl, rfl⟩
      · cases compiled
        exact ⟨_, rfl, rfl⟩
      · rename_i items
        split at compiled
        · cases compiled
        · rename_i groups read'
          cases compiled
          refine ⟨.byGroup groups items, ?_, rfl⟩
          rw [namingOf?, read']
          rfl

theorem stop?_eq {pattern : Text} {e : Regex} (own : rule.pattern? = some pattern)
    (read : Regex.read? (Regex.withoutCaptures (Regex.hostSource pattern)) = some e)
    (text : Array CodeUnit) (place : Nat) : Pushdown.stop? rule text place =
      if e.matchesEmpty then none else (e.matchAt true text place).map (·.position) := by
  unfold Pushdown.stop?
  rw [own, Option.bind_eq_bind, Option.bind_some, read]
  rfl

/-! ## The rules of a state -/

/-- Rules and those of them that are ready, in the same order; the others never match. -/
inductive Activated (state : Text) : List Rule → List ActiveRule → Prop
  | nil : Activated state [] []
  | drop {rule : Rule} {rules : List Rule} {actives : List ActiveRule}
    (idle : ∀ text place, Pushdown.stop? rule text place = none)
    (rest : Activated state rules actives) : Activated state (rule :: rules) actives
  | keep {rule : Rule} {rules : List Rule} {active : ActiveRule} {actives : List ActiveRule}
    (runs : Runs state rule active) (rest : Activated state rules actives) :
    Activated state (rule :: rules) (active :: actives)

theorem choose?_cons (rule : Rule) (rules : List Rule) (text : Array CodeUnit) (place : Nat) :
    Pushdown.choose? (rule :: rules) text place =
      ((Pushdown.stop? rule text place).map (rule, ·)).or (Pushdown.choose? rules text place) := by
  unfold Pushdown.choose?
  rw [List.findSome?_cons]
  cases Pushdown.stop? rule text place <;> rfl

theorem firstMatch_cons (active : ActiveRule) (actives : List ActiveRule) (text : Array CodeUnit)
    (place : Nat) :
    firstMatch (active :: actives) text place =
      ((active.expression.matchAt true text place).map fun found =>
        (active.rule, found.position)).or (firstMatch actives text place) := by
  unfold firstMatch
  rw [List.findSome?_cons]
  cases active.expression.matchAt true text place <;> rfl

/-- Both lists choose the same rule and the same end, or neither chooses any. -/
theorem Activated.firstMatch (activated : Activated state rules actives) (text : Array CodeUnit)
    (place : Nat) :
    (SubLexer.firstMatch actives text place = none ∧ Pushdown.choose? rules text place = none) ∨
      ∃ rule ∈ rules, ∃ active ∈ actives, ∃ stop, Runs state rule active ∧
        SubLexer.firstMatch actives text place = some (active.rule, stop) ∧
        Pushdown.choose? rules text place = some (rule, stop) := by
  induction activated with
  | nil => exact .inl ⟨rfl, rfl⟩
  | @drop rule rules actives idle _ ih =>
    rw [choose?_cons, idle, Option.map_none, Option.none_or]
    refine ih.imp_right ?_
    rintro ⟨rule', listed, rest⟩
    exact ⟨rule', List.mem_cons_of_mem _ listed, rest⟩
  | @keep rule rules active actives runs _ ih =>
    rw [choose?_cons, firstMatch_cons, ← runs.stop text place]
    cases active.expression.matchAt true text place with
    | none =>
      rw [Option.map_none, Option.map_none, Option.map_none, Option.none_or, Option.none_or]
      refine ih.imp_right ?_
      rintro ⟨rule', listed, active', listed', rest⟩
      exact ⟨rule', List.mem_cons_of_mem _ listed, active', List.mem_cons_of_mem _ listed', rest⟩
    | some last =>
      refine .inr ⟨rule, List.mem_cons_self, active, List.mem_cons_self, last.position, runs,
        ?_, ?_⟩
      · rfl
      · rfl

/-- A rule that is compiled to nothing never matches. -/
theorem idle_of_compileRule {pattern : Text} {index : Nat} (own : rule.pattern? = some pattern)
    (compiled : compileRule state index pattern rule.token? (moveOf state rule) = .ok none)
    (text : Array CodeUnit) (place : Nat) : Pushdown.stop? rule text place = none := by
  obtain ⟨e, read, ⟨idle, -⟩ | ⟨-, naming, -, absurd⟩⟩ := compileRule_cases compiled
  · rw [stop?_eq own read, if_pos idle]
  · cases absurd

/-- What a rule is compiled to is ready to run, however many others there are. -/
theorem runs_of_compileRule {pattern : Text} {index : Nat} {ready : LexRule}
    (own : rule.pattern? = some pattern) (unnumbered : Regex.Unnumbered false pattern)
    (compiled : compileRule state index pattern rule.token? (moveOf state rule) = .ok (some ready))
    (captureless : Regex.groupNames ready.source = []) (count : Nat) :
    Runs state rule
      ⟨ready, (Regex.readWith? (List.replicate count none) ready.source).getD .empty⟩ := by
  obtain ⟨e, read, ⟨-, absurd⟩ | ⟨busy, naming, named, same⟩⟩ := compileRule_cases compiled
  · cases absurd
  · cases same
    refine ⟨fun text place => ?_, rfl, ?_⟩
    · rw [stop?_eq own read, if_neg (Bool.eq_false_iff.1 busy)]
      dsimp only
      rw [expression_eq read captureless unnumbered.hostSource.withoutCaptures]
    · rw [own, Option.bind_some, named]

/-- What the rules of a state are compiled to is ready to run. -/
theorem activated_of_compileState {rules : List LexRule}
    (compiled : compileState graph state = .ok rules)
    (unnumbered : ∀ rule ∈ flatten graph state, ∀ pattern ∈ rule.pattern?,
      Regex.Unnumbered false pattern)
    (captureless : ∀ rule ∈ rules, Regex.groupNames rule.source = []) :
    Activated state (flatten graph state) (activate rules) := by
  obtain ⟨results, mapped, kept⟩ := except_bind_eq_ok_iff.1 compiled
  cases kept
  have held : ∀ entry ∈ (flatten graph state).zipIdx, ∀ pattern ∈ entry.1.pattern?,
      Regex.Unnumbered false pattern :=
    fun entry listed => unnumbered entry.1 (List.fst_mem_of_mem_zipIdx listed)
  have each := forall₂_of_mapM_eq_ok mapped
  unfold activate
  generalize (results.filterMap id).length = count
  rw [← List.zipIdx_map_fst 0 (flatten graph state)]
  generalize (flatten graph state).zipIdx = pairs at held each
  clear mapped compiled
  induction each with
  | nil => exact .nil
  | @cons pair result pairs results made _ ih =>
    obtain ⟨rule, index⟩ := pair
    have others : ∀ entry ∈ pairs, ∀ pattern ∈ entry.1.pattern?,
        Regex.Unnumbered false pattern :=
      fun entry listed => held entry (List.mem_cons_of_mem _ listed)
    cases own : rule.pattern? with
    | none =>
      simp only [own] at made
      cases made
    | some pattern =>
      simp only [own] at made
      cases result with
      | none => exact .drop (idle_of_compileRule own made) (ih captureless others)
      | some ready =>
        have own' := held (rule, index) List.mem_cons_self pattern own
        have alone := captureless ready List.mem_cons_self
        refine .keep (runs_of_compileRule own own' made alone count) (ih ?_ others)
        exact fun rule listed => captureless rule (List.mem_cons_of_mem _ listed)

/-! ## One step -/

/-- The machine is in a state that can be entered, and so are those that are saved. -/
structure Within (lexer : SubLexer) (m : Machine) : Prop where
  state : m.state ∈ Table.keys lexer.states
  saved : ∀ state ∈ m.saved, state ∈ Table.keys lexer.states

theorem Within.follow {move : Move} (within : Within lexer m)
    (entered : ∀ target, move = .enter target → target ∈ Table.keys lexer.states) :
    Within lexer (m.follow move) := by
  cases move with
  | stay => exact within
  | enter target =>
    refine ⟨entered target rfl, fun state listed => ?_⟩
    cases listed with
    | head => exact within.state
    | tail _ listed => exact within.saved state listed
  | leave =>
    simp only [Machine.follow]
    split
    · exact within
    · rename_i state saved stack
      have all := within.saved
      rw [stack] at all
      exact ⟨all state List.mem_cons_self, fun state listed => all state (.tail _ listed)⟩

/-- A language whose states splice each other in, with a rule of each kind, one that matches the
empty text and one that leaves the type open. -/
def turns : Language where
  name := "turns"
  aliases := []
  filenames := []
  aliasFilenames := []
  graph := [
    ("root", [
      .splice "marks",
      .nested "<" (.literal "Open") "inner",
      .literal "x*" (.literal "Never"),
      .literal "[a-z]+" (.dynamic ⟨"this", none⟩)]),
    ("marks", [
      .splice "root",
      .push "[(]" (.literal "Push"),
      .pop "[)]" (.literal "Pop") (.integer 2)]),
    ("inner", [
      .splice "marks",
      .pop ">" (.literal "Close") (.integer 1),
      .literal "(=)(!)" (.compound [.literal "Is", .literal "Not"])])]
  sourceFile := none

instance (graph : Graph) : Decidable graph.Ordinary :=
  decidable_of_iff
    ((∀ state ∈ Table.keys graph, state ≠ []) ∧
      (∀ state ∈ Table.keys graph, state ≠ sharedState ∧ state ≠ unreachableState) ∧
      (∀ entry ∈ graph, ∀ rule ∈ entry.2, Pushdown.type? rule ≠ some []) ∧
      ∀ entry ∈ graph, ∀ rule ∈ entry.2, ∀ pattern ∈ rule.pattern?,
        Regex.refersByNumber false pattern = false)
    ⟨fun ⟨named, unshared, typed, unnumbered⟩ => ⟨named, unshared, typed, unnumbered⟩,
      fun ordinary => ⟨ordinary.named, ordinary.unshared, ordinary.typed, ordinary.unnumbered⟩⟩

end SubLexer

end Highlight
