import Highlight.SubLexer.Basic

/-!
# Running a sub-lexer

One step of the pushdown machine takes one token off the text. A run is a machine at a text; a run
that is asked for a token at the end of its text has none. Rules may match without taking a unit,
so a run need not come to the end. No state is entered by an empty name, so a machine that starts
with one breaks down at the first unit that it meets.
-/

namespace Highlight

/-- Where a run stands: the place in its text, the state, and the states saved on the way, the
latest first. -/
structure Machine where
  position : Nat
  state : Text
  saved : List Text
  deriving DecidableEq, Repr

namespace Machine

/-- The machine after a rule has led it on. Nothing happens when nothing is saved. -/
def follow (m : Machine) : Move → Machine
  | .stay => m
  | .enter state => { m with state, saved := m.state :: m.saved }
  | .leave =>
    match m.saved with
    | [] => m
    | state :: saved => { m with state, saved }

end Machine

namespace SubLexer

/-- The units of a text from one place to another. -/
def slice (text : Array CodeUnit) (start stop : Nat) : Text := (text.extract start stop).toList

/-- The rules of a state. -/
def rulesOf (lexer : SubLexer) (state : Text) : List ActiveRule :=
  (Table.get? lexer.states state).getD []

/-- The first rule that matches at a place, and where its match ends. -/
def firstMatch (rules : List ActiveRule) (text : Array CodeUnit) (position : Nat) :
    Option (LexRule × Nat) :=
  rules.findSome? fun active =>
    (active.expression.matchAt true text position).map fun found => (active.rule, found.position)

/-- The token that a rule gives to what it matched. A rule without a token name gives its own. -/
def tokenOf (rule : LexRule) (text : Text) (offset : Nat) : Token :=
  let type := rule.naming.token text
  ⟨if type.isEmpty then LexerFault.ruleName rule.index else type, text, offset⟩

/-- The token at a place that is not the end, and the machine after it. -/
def step (lexer : SubLexer) (text : Array CodeUnit) (m : Machine) : Token × Machine :=
  match firstMatch (lexer.rulesOf m.state) text m.position with
  | none =>
    (⟨.error, slice text m.position text.size, m.position⟩, { m with position := text.size })
  | some (rule, stop) =>
    (tokenOf rule (slice text m.position stop) m.position,
      { m with position := stop }.follow rule.move)

/-- The next token, and the machine after it. -/
def next (lexer : SubLexer) (text : Array CodeUnit) (m : Machine) :
    Except Breakdown (Option (Token × Machine)) :=
  match text[m.position]? with
  | none => .ok none
  | some unit =>
    if m.state.isEmpty then .error (.missingValue (Text.ofNat unit.toNat))
    else .ok (some (lexer.step text m))

/-- The machine at the start of a text. -/
def initial (lexer : SubLexer) : Machine := ⟨0, lexer.start, []⟩

end SubLexer

/-- A sub-lexer at work on a text. -/
structure Run where
  lexer : SubLexer
  text : Array CodeUnit
  machine : Machine
  deriving Repr

namespace Run

/-- A run at the start of a text. -/
def start (lexer : SubLexer) (text : Text) : Run := ⟨lexer, text.toArray, lexer.initial⟩

/-- The next token of a run, and the run after it. -/
def next (run : Run) : Except Breakdown (Option (Token × Run)) :=
  (run.lexer.next run.text run.machine).map fun found =>
    found.map fun (token, machine) => (token, { run with machine })

/-- At most `count` tokens, and the run after them. -/
def take : Nat → Run → Except Breakdown (List Token × Run)
  | 0, run => .ok ([], run)
  | count + 1, run => do
    match ← run.next with
    | none => .ok ([], run)
    | some (token, run) =>
      let (tokens, run) ← take count run
      .ok (token :: tokens, run)

end Run

namespace SubLexer

/-- At most `count` tokens of a text. -/
def tokens (lexer : SubLexer) (text : Text) (count : Nat) : Except Breakdown (List Token) :=
  ((Run.start lexer text).take count).map Prod.fst

end SubLexer

end Highlight
