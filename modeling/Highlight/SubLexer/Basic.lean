import Highlight.Fault
import Highlight.Regex.Matching
import Highlight.Regex.Reader
import Highlight.Regex.Source

/-!
# Sub-lexers

A sub-lexer runs the lexer grammar of a language over a text. Building one expands what the rules
splice in, compiles every pattern, and drops the rules that match the empty text. Running one is a
pushdown machine: the first rule of the current state that matches at the current place gives the
next token and says which state comes next. Text that no rule matches is one token to the end.
-/

namespace Highlight

/-- A token of a text. -/
structure Token where
  type : TokenType
  text : Text
  offset : Nat
  deriving DecidableEq, Repr

/-- Where a rule leads. -/
inductive Move where
  | stay
  /-- Saves the state and enters another one. -/
  | enter (state : Text)
  /-- Returns to the state saved last. -/
  | leave
  deriving DecidableEq, Repr

/-- How the token of a matched text is found. -/
inductive Naming where
  | fixed (token : TokenType)
  /-- By the first group that takes part when the expression is matched against the text alone. -/
  | byGroup (groups : Regex) (items : List TokenSpec)
  deriving Repr

/-- A rule that is ready to run. -/
structure LexRule where
  /-- Place among the rules of the state, dropped ones included. -/
  index : Nat
  source : Text
  naming : Naming
  move : Move
  deriving Repr

namespace Naming

/-- The token of the first item whose group, counted from `index`, took part. -/
def ofGroups (found : Regex.State) : Nat → List TokenSpec → TokenType
  | _, [] => .text
  | index, item :: rest =>
    match found.span? index with
    | none => ofGroups found (index + 1) rest
    | some _ =>
      match item with
      | .literal token => token
      | _ => .text

/-- The token that a rule gives to a text. -/
def token : Naming → Text → TokenType
  | fixed token, _ => token
  | byGroup groups items, text =>
    match groups.matchAt false text.toArray 0 with
    | some found => ofGroups found 1 items
    | none => .text

end Naming

namespace SubLexer

/-- The rules of a state that match something, with every splice expanded in place, each state at
most once. `seen` holds the states that are not to be expanded any more; the list that comes back
with the rules holds them afterwards. The states that are not seen bound the depth. -/
def flattenFrom (graph : Graph) : Nat → Text → List Text → List Rule × List Text
  | 0, _, seen => ([], seen)
  | depth + 1, state, seen =>
    if seen.contains state then ([], seen)
    else
      ((Table.get? graph state).getD []).foldl
        (fun (rules, seen) rule =>
          match rule with
          | .splice target =>
            let (more, seen) := flattenFrom graph depth target seen
            (rules ++ more, seen)
          | rule => (rules ++ [rule], seen))
        ([], state :: seen)

/-- The rules of a state with every splice expanded in place, each state at most once. -/
def flatten (graph : Graph) (state : Text) : List Rule :=
  (flattenFrom graph (graph.length + 2) state []).1

/-- A rule that cannot be compiled. -/
structure RuleFault where
  fault : LexerFault
  state : Text
  pattern : Text
  deriving DecidableEq, Repr

/-- Compiles a rule: none if it matches the empty text, an error if it is no expression or lacks
its token. -/
def compileRule (state : Text) (index : Nat) (pattern : Text) (token : Option TokenSpec)
    (move : Move) : Except RuleFault (Option LexRule) :=
  let invalid (source : Text) : RuleFault := ⟨.invalidPattern source, state, pattern⟩
  let source := Regex.withoutCaptures (Regex.hostSource pattern)
  match Regex.read? source with
  | none => .error (invalid source)
  | some e =>
    if e.matchesEmpty then .ok none
    else match token with
      | none => .error ⟨.breakdown (.missingValue "kind"), state, pattern⟩
      | some (.literal token) => .ok (some ⟨index, source, .fixed token, move⟩)
      | some (.dynamic _) => .ok (some ⟨index, source, .fixed .text, move⟩)
      | some (.compound items) =>
        match Regex.read? (Regex.hostSource pattern) with
        | none => .error (invalid (Regex.hostSource pattern))
        | some groups => .ok (some ⟨index, source, .byGroup groups items, move⟩)

/-- The move of a rule: nothing is entered by an empty name. -/
def moveOf (state : Text) : Rule → Move
  | .nested _ _ target => if target.isEmpty then .stay else .enter target
  | .push _ _ => if state.isEmpty then .stay else .enter state
  | .pop _ _ _ => .leave
  | _ => .stay

/-- The rules of a state that are ready to run. -/
def compileState (graph : Graph) (state : Text) : Except RuleFault (List LexRule) := do
  let rules ← (flatten graph state).zipIdx.mapM fun (rule, index) =>
    match rule.pattern? with
    | none => .error ⟨.breakdown (.missingValue "startsWith"), state, []⟩
    | some pattern => compileRule state index pattern rule.token? (moveOf state rule)
  .ok (rules.filterMap id)

/-- The name of the state whose rules are meant for all states. -/
def sharedState : Text := "$all"

/-- A name that no state can be entered by. -/
def unreachableState : Text := "__proto__"

/-- The states that can be entered, in their order: positions first. -/
def enterable (states : Table Text (List LexRule)) : Table Text (List LexRule) :=
  (Table.positionsFirst states).filter fun (name, _) =>
    name ≠ sharedState && name ≠ unreachableState

/-- The first rule with a group that captures. -/
def capturingRule? (rules : List LexRule) : Option LexRule :=
  rules.find? fun rule => !(Regex.groupNames rule.source).isEmpty

/-- What keeps the rules of one state from being joined, given the shared rules if there are
any. -/
def stateFault? (shared : Option (List LexRule)) (rules : List LexRule) : Option LexerFault :=
  let capturing (rules : List LexRule) : Option LexerFault :=
    (capturingRule? rules).map fun rule => .captureGroups (Regex.displayed rule.source)
  match capturing rules with
  | some fault => some fault
  | none =>
    match shared with
    | none => none
    | some shared => some ((capturing shared).getD .secondErrorRule)

/-- The first rule that enters a state which cannot be entered. -/
def missingState? (states : Table Text (List LexRule)) : Option LexerFault :=
  states.findSome? fun (name, rules) => rules.findSome? fun rule =>
    match rule.move with
    | .enter target =>
      if Table.has states target then none else some (.missingState target rule.index name)
    | _ => none

/-- The state in which a run starts: an empty name stands for the first state. It stays empty if
the first state has no name. -/
def startOf? (states : Table Text (List LexRule)) (start : Text) : Option Text :=
  if start.isEmpty then (Table.keys states).head?
  else if Table.has states start then some start
  else none

/-- What keeps the states from being joined to a lexer. -/
def joinFault? (states : Table Text (List LexRule)) (start : Text) : Option LexerFault :=
  let shared := Table.get? states sharedState
  let states := enterable states
  match states.findSome? fun (_, rules) => stateFault? shared rules with
  | some fault => some fault
  | none =>
    match missingState? states with
    | some fault => some fault
    | none => if (startOf? states start).isNone then some .noStart else none

end SubLexer

/-- A rule with its expression as part of its state. -/
structure ActiveRule where
  rule : LexRule
  expression : Regex
  deriving Repr

/-- A lexer over the states of a language. -/
structure SubLexer where
  states : Table Text (List ActiveRule)
  start : Text
  deriving Repr

namespace SubLexer

/-- The rules of a state with their expressions. A number in a pattern refers to the rules of the
state, none of which has taken part in a match when the reference is met. -/
def activate (rules : List LexRule) : List ActiveRule :=
  rules.map fun rule =>
    ⟨rule, (Regex.readWith? (List.replicate rules.length none) rule.source).getD .empty⟩

/-- The lexer of a language that starts in a state. -/
def build (language : Language) (start : Text) : Except LexerError SubLexer := do
  if !Table.has language.graph start then
    .error ⟨.unknownStart start, language.name, some start, none⟩
  let states ← (Table.keys language.graph).mapM fun state =>
    match compileState language.graph state with
    | .ok rules => .ok (state, rules)
    | .error e => .error ⟨e.fault, language.name, some e.state, some e.pattern⟩
  match joinFault? states start with
  | some fault => .error ⟨fault, language.name, some start, none⟩
  | none =>
    let states := enterable states
    .ok ⟨states.map fun (name, rules) => (name, activate rules), (startOf? states start).getD start⟩

end SubLexer

end Highlight
