import Highlight.Compilation.Binding
import Highlight.Compilation.Region

/-!
# The body of a state

The statements of a state are those of its rules in order. A splice is replaced by the statements
of its target, a rule that enters a state opens a block for it, and the rules that enter and leave
the state itself become one region at the place of the first. Every rule list at work counts
against the limit on depth, which is what the recursion runs on, so a cycle ends in an error.
-/

namespace Highlight

namespace Body

/-- The binding of a rule, with its errors placed at the rule. -/
def bindAt (ctx : Context) (state pattern : Text) (token : TokenSpec) (leaves : Bool) :
    Compilation (Option Binding) :=
  Compilation.within { Site.unknown with pattern := some pattern, state := some state }
    (Binding.ofPattern ctx pattern token leaves)

section Rules

variable {m : Type → Type} [Monad m]

/-- The statements of one rule, given those of another state and those of the region of this one.
`hasRegion` tells whether the state has a region, and `first` whether no rule before has drawn
it. -/
def ofRule [MonadLiftT Compilation m] (ctx : Context) (other : Text → Nat → m (List Statement))
    (region : m (List Statement)) (state : Text) (hasRegion first : Bool) (depth : Nat) :
    Rule → m (List Statement)
  | .splice target => other target depth
  | .literal pattern token => do
    let binding ← bindAt ctx state pattern token false
    pure (binding.toList.map (.rule depth))
  | .nested pattern token target => do
    match ← bindAt ctx state pattern token false with
    | none => other target depth
    | some binding =>
      let lines ← other target (depth + 1)
      pure (.comment depth (target ++ " state") :: .blockStart depth binding ::
        lines ++ [.blockEnd depth])
  | .push _ _ => if first then region else pure []
  | .pop pattern token count =>
    if hasRegion then pure []
    else do
      let binding ← bindAt ctx state pattern token true
      pure (binding.toList.map fun binding => .leave depth binding count)
  | .unknown raw _ _ => Compilation.ofExcept (.error (.ofFault (.unknownRule raw)))

/-- The statements of rules in order. `first` is whether the region is still to be drawn. -/
def ofRules (one : Bool → Rule → m (List Statement)) : Bool → List Rule → m (List Statement)
  | _, [] => pure []
  | first, rule :: rest => do
    let lines ← one first rule
    let more ← ofRules one (first && !rule.isPush) rest
    pure (lines ++ more)

end Rules

/-- The statements of a rule list of a state, with room for `room` rule lists at one time. -/
def ofList (ctx : Context) : Nat → Text → List Rule → Nat → Compilation (List Statement)
  | 0, state, _, _ => throw (.atState (.tooDeep ctx.limits.maxDepth) state)
  | room + 1, state, list, depth =>
    let other (target : Text) (depth : Nat) : Compilation (List Statement) := do
      let list ← Compilation.ofExcept (ctx.rulesOf target)
      ofList ctx room target list depth
    let region : Compilation (List Statement) :=
      Region.compile Compilation.ofExcept (ofList ctx room state) state list depth
    let hasRegion := list.any Rule.isPush
    ofRules (fun first => ofRule ctx other region state hasRegion first depth) true list

/-- The statements of a state, in blocks from `depth` on. -/
def ofState (ctx : Context) (name : Text) (depth : Nat) : Compilation (List Statement) := do
  let list ← Compilation.ofExcept (ctx.rulesOf name)
  ofList ctx ctx.limits.maxDepth.floorNat name list depth

end Body

/-- A language in the form of the destination. -/
structure CompiledLanguage where
  language : Language
  statements : List Statement
  deriving Repr

namespace CompiledLanguage

/-- The file that the definition goes into. -/
def fileName (t : CompiledLanguage) : Text := Definition.fileName t.language.name

/-- The text of the definition. -/
def source (t : CompiledLanguage) : Text := Definition.render t.language.name t.statements

end CompiledLanguage

namespace Language

/-- Compiles a language from its root state. Every error names the language. -/
def compile (language : Language) (limits : Limits) (lookup : Text → Option Language) :
    Except GrammarError CompiledLanguage :=
  let ctx : Context := ⟨language, limits, lookup⟩
  let body := Compilation.within { Site.unknown with language := some language.name }
    (Body.ofState ctx rootState 0)
  (body.run.run []).1.map fun statements => ⟨language, statements⟩

end Language

end Highlight
