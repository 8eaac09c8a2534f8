import Highlight.Compilation.Body

/-!
# A walker

A walker compiles states of one language, one call after the other. It counts the rule lists at
work: a list is counted when it is entered and no longer counted when it is left, whether its
statements were found or not. A list that is one too many is refused before it is entered.
-/

namespace Highlight

/-- What lasts from one call of a walker to the next: the session of its context, and the count of
the rule lists at work. -/
structure Walker where
  session : Session
  frames : Nat

/-- A step of a walker: it may fail, and what it does to the walker lasts even then. -/
abbrev Walker.Step (α : Type) := ExceptT GrammarError (StateM Walker) α

/-- A compilation is a step that leaves the count as it is. -/
instance : MonadLift Compilation Walker.Step where
  monadLift step := ExceptT.mk fun walker =>
    let (outcome, session) := step.run.run walker.session
    (outcome, { walker with session := session })

namespace Walker.Step

/-- Counts one rule list more, which is refused if it is one too many. The count is not taken back
then. -/
def enter (ctx : Context) (state : Text) : Walker.Step Unit := do
  modifyThe Walker fun walker => { walker with frames := walker.frames + 1 }
  if ctx.limits.maxDepth.floorNat < (← getThe Walker).frames then
    throw (.atState (.tooDeep ctx.limits.maxDepth) state)

/-- Counts one rule list less. -/
def leave : Walker.Step Unit :=
  modifyThe Walker fun walker => { walker with frames := walker.frames - 1 }

/-- The statements of a rule list of a state, where at most `room` more rule lists can be entered. -/
def ofList (ctx : Context) : Nat → Text → List Rule → Nat → Walker.Step (List Statement)
  | 0, state, _, _ => do
    enter ctx state
    pure []
  | room + 1, state, list, depth => do
    enter ctx state
    let other (target : Text) (depth : Nat) : Walker.Step (List Statement) := do
      let list ← Compilation.ofExcept (ctx.rulesOf target)
      ofList ctx room target list depth
    let region : Walker.Step (List Statement) :=
      Region.compile (fun e => Compilation.ofExcept e) (ofList ctx room state) state list depth
    let hasRegion := list.any Rule.isPush
    try
      Body.ofRules (fun first => Body.ofRule ctx other region state hasRegion first depth) true list
    finally
      leave

/-- The statements of a state, in blocks from `depth` on. -/
def ofState (ctx : Context) (name : Text) (depth : Nat) : Walker.Step (List Statement) := do
  let list ← Compilation.ofExcept (ctx.rulesOf name)
  ofList ctx ctx.limits.maxDepth.floorNat name list depth

end Walker.Step

namespace Walker

/-- A walker that has not been called. -/
def new (session : Session) : Walker := ⟨session, 0⟩

/-- A call of a walker: a state, and the depth at which its blocks begin. -/
structure Call where
  state : Text
  depth : Nat

/-- The outcome of a call, and the walker after it. -/
def call (ctx : Context) (walker : Walker) (c : Call) :
    Except GrammarError (List Statement) × Walker :=
  (Walker.Step.ofState ctx c.state c.depth).run.run walker

/-- The outcomes of calls one after the other, and the walker after them. -/
def calls (ctx : Context) (walker : Walker) :
    List Call → List (Except GrammarError (List Statement)) × Walker
  | [] => ([], walker)
  | c :: rest =>
    let (outcome, walker) := call ctx walker c
    let (outcomes, walker) := calls ctx walker rest
    (outcome :: outcomes, walker)

end Walker

end Highlight
