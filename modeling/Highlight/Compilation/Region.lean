import Highlight.Statement
import Highlight.Compilation.Session

/-!
# Regions

A state that enters itself on a delimiter becomes one region between two delimiters. The rules
that enter and leave give the delimiters; the other rules of the state, if there are any, fill a
block around which the region is drawn.
-/

namespace Highlight

/-- The rules of a region by what they do. -/
structure RegionRules where
  entering : List Rule
  leaving : List Rule
  others : List Rule
  deriving Repr

namespace RegionRules

/-- The rules of a state, split. -/
def ofRules (rules : List Rule) : RegionRules :=
  ⟨rules.filter Rule.isPush, rules.filter Rule.isPop,
    rules.filter fun rule => !rule.isPush && !rule.isPop⟩

end RegionRules

namespace Region

/-- One pattern for the delimiters of several rules: a single one stands alone, several become
alternative groups. -/
def delimiter (patterns : List Text) : Except GrammarError Text := do
  let converted ← patterns.mapM Dialect.convert
  match converted with
  | [pattern] => .ok pattern
  | patterns => .ok ("(" ++ Text.join ")|(" patterns ++ ")")

/-- The delimiter of a list of rules. -/
def delimiterOf (rules : List Rule) : Except GrammarError Text :=
  delimiter (rules.filterMap Rule.pattern?)

/-- The token of a region: that of its first entering rule, which must be a single one. -/
def tokenOf (state : Text) (first : Rule) : Except GrammarError TokenType :=
  match first.token? with
  | some (.literal token) => .ok token
  | _ =>
    .error ((GrammarError.ofFault .regionToken).within
      { Site.unknown with pattern := first.pattern?, state := some state })

/-- The binding of a region. -/
def binding (state : Text) (rules : RegionRules) : Except GrammarError Binding :=
  match rules.entering, rules.leaving with
  | first :: _, _ :: _ => do
    let token ← tokenOf state first
    let entering ← delimiterOf rules.entering
    let leaving ← delimiterOf rules.leaving
    .ok (.region token entering leaving
      (Dialect.spansLines entering || Dialect.spansLines leaving))
  | entering, leaving =>
    .error (.atState (.openRegion entering.length leaving.length) state)

/-- The statements of a region. The other rules are compiled one block deeper. -/
def compile {m : Type → Type} [Monad m] (lift : Except GrammarError Binding → m Binding)
    (inner : List Rule → Nat → m (List Statement)) (state : Text) (rules : List Rule)
    (depth : Nat) : m (List Statement) := do
  let rules := RegionRules.ofRules rules
  let binding ← lift (binding state rules)
  if rules.others.isEmpty then pure [.rule depth binding]
  else
    let lines ← inner rules.others (depth + 1)
    pure (.comment depth ("nested " ++ state ++ " state") :: .blockStart depth binding ::
      lines ++ [.blockEnd depth])

end Region

end Highlight
