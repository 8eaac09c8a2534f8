import Highlight.Compilation.Walker
import Highlight.Proofs.Compilation.Errors

/-!
# Calls of a walker

A step of a walker does what a compilation does with the room that is left (`Walker.Step.Follows`), and
the count of rule lists is afterwards what it was before, unless the step ended for the depth: the
list that was refused stays counted. So a walker finds what a new one finds as long as no call of
it has ended for the depth, however else its calls have ended, and each call that did takes one
rule list from the room of all later ones (`Walker.calls_new`). With less room a call can still end
only in two ways: for the depth, or as on a new walker (`Body.ofTarget_upToDepth`).
-/

namespace Highlight

open Compilation

variable {α β : Type}

/-- The outcome is an error for the depth. -/
def TooDeep : Except GrammarError α → Prop
  | .ok _ => False
  | .error e => e.fault.kind = .recursionLimitExceeded

instance : DecidablePred (TooDeep (α := α))
  | .ok _ => inferInstanceAs (Decidable False)
  | .error e => inferInstanceAs (Decidable (e.fault.kind = .recursionLimitExceeded))

/-- The rule lists that stay counted after an outcome. -/
def refused (outcome : Except GrammarError α) : Nat := if TooDeep outcome then 1 else 0

namespace Compilation

/-- The step does not end for the depth. -/
def Shallow (y : Compilation α) : Prop :=
  ∀ σ e σ', Fails y σ e σ' → e.fault.kind ≠ .recursionLimitExceeded

theorem Shallow.not_tooDeep {y : Compilation α} (shallow : Shallow y) (σ : Session) :
    ¬ TooDeep (y.run.run σ).1 := by
  intro deep
  obtain ⟨a, σ', yields⟩ | ⟨e, σ', fails⟩ := yields_or_fails y σ
  · rw [yields] at deep
    exact deep
  · have fails' := fails
    rw [Fails] at fails'
    rw [fails'] at deep
    exact shallow σ e σ' fails deep

theorem shallow_ofExcept {result : Except GrammarError α}
    (shallow : ∀ e, result = .error e → e.fault.kind ≠ .recursionLimitExceeded) :
    Shallow (ofExcept result) :=
  fun _ e _ fails => shallow e (fails_ofExcept_iff.1 fails).1

end Compilation

/-! ## Steps of two kinds -/

/-- A relation between steps of another kind and compilations that holds of all steps that do not end
for the depth, and that sequencing keeps. -/
structure KeptBySteps {m : Type → Type} [Monad m] [MonadLiftT Compilation m]
    (R : ∀ {α : Type}, m α → Compilation α → Prop) : Prop where
  pure {α : Type} (a : α) : R (pure a) (pure a)
  bind {α β : Type} {x : m α} {y : Compilation α} {f : α → m β} {g : α → Compilation β} :
    R x y → (∀ a, R (f a) (g a)) → R (x >>= f) (y >>= g)
  shallow {α : Type} {y : Compilation α} : Shallow y → R (liftM y) y

namespace KeptBySteps

variable {m : Type → Type} [Monad m] [MonadLiftT Compilation m]
  {R : ∀ {α : Type}, m α → Compilation α → Prop} {ctx : Context} {state : Text}

theorem bindAt (kept : KeptBySteps R) (pattern : Text) (token : TokenSpec) (leaves : Bool) :
    R (liftM (Body.bindAt ctx state pattern token leaves))
      (Body.bindAt ctx state pattern token leaves) :=
  kept.shallow fun _ _ _ fails => (Body.bindAt_asks fails).bounded

/-- A relation that holds of the statements of other states and of a region holds of those of a
rule. -/
theorem ofRule (kept : KeptBySteps R) {other : Text → Nat → m (List Statement)}
    {other' : Text → Nat → Compilation (List Statement)}
    (others : ∀ target depth, R (other target depth) (other' target depth))
    {area : m (List Statement)} {area' : Compilation (List Statement)} (areas : R area area')
    (hasRegion first : Bool) (depth : Nat) (rule : Rule) :
    R (Body.ofRule ctx other area state hasRegion first depth rule)
      (Body.ofRule ctx other' area' state hasRegion first depth rule) := by
  cases rule with
  | splice target => exact others target depth
  | literal pattern token =>
    exact kept.bind (kept.bindAt pattern token false) fun binding => kept.pure _
  | nested pattern token target =>
    refine kept.bind (kept.bindAt pattern token false) fun binding => ?_
    cases binding with
    | none => exact others target depth
    | some binding => exact kept.bind (others target (depth + 1)) fun lines => kept.pure _
  | push pattern token =>
    cases first with
    | true => exact areas
    | false => exact kept.pure []
  | pop pattern token count =>
    cases hasRegion with
    | true => exact kept.pure []
    | false => exact kept.bind (kept.bindAt pattern token true) fun binding => kept.pure _
  | unknown raw pattern token =>
    refine kept.shallow (shallow_ofExcept ?_)
    rintro e ⟨⟩
    exact nofun

theorem ofRules (kept : KeptBySteps R) {one : Bool → Rule → m (List Statement)}
    {one' : Bool → Rule → Compilation (List Statement)}
    (each : ∀ first rule, R (one first rule) (one' first rule)) (first : Bool) (list : List Rule) :
    R (Body.ofRules one first list) (Body.ofRules one' first list) := by
  induction list generalizing first with
  | nil => exact kept.pure []
  | cons rule rest ih =>
    exact kept.bind (each first rule) fun lines => kept.bind (ih _) fun more => kept.pure _

theorem region (kept : KeptBySteps R) (ctx : Context) {inner : List Rule → Nat → m (List Statement)}
    {inner' : List Rule → Nat → Compilation (List Statement)}
    (inside : ∀ list depth, R (inner list depth) (inner' list depth)) (list : List Rule)
    (depth : Nat) :
    R (Region.compile (fun e => liftM (Compilation.ofExcept e)) inner state list depth)
      (Region.compile Compilation.ofExcept inner' state list depth) := by
  have drawn : Shallow (.ofExcept (Region.binding state (.ofRules list))) :=
    shallow_ofExcept fun e refused =>
      (Region.binding_asks refused : ctx.Asks [] e).bounded
  refine kept.bind (kept.shallow drawn) fun binding => ?_
  split
  · exact kept.pure _
  · exact kept.bind (inside _ _) fun lines => kept.pure _

/-- A relation that holds of the statements of all rule lists of states holds of those of states. -/
theorem target (kept : KeptBySteps R) {inner : List Rule → m (List Statement)}
    {inner' : List Rule → Compilation (List Statement)} (name : Text)
    (inside : ∀ list, R (inner list) (inner' list)) :
    R (liftM (Compilation.ofExcept (ctx.rulesOf name)) >>= inner)
      (Compilation.ofExcept (ctx.rulesOf name) >>= inner') := by
  refine kept.bind (kept.shallow (shallow_ofExcept ?_)) inside
  intro e unknown
  unfold Context.rulesOf at unknown
  split at unknown
  · cases unknown
  · cases unknown
    exact nofun

/-- A relation that holds of the statements of the rule lists inside of one holds of those of its
rules. -/
theorem rules (kept : KeptBySteps R) (ctx : Context) (state : Text)
    {inner : Text → List Rule → Nat → m (List Statement)}
    {inner' : Text → List Rule → Nat → Compilation (List Statement)}
    (inside : ∀ state list depth, R (inner state list depth) (inner' state list depth))
    (list : List Rule) (depth : Nat) :
    R (Body.ofRules (fun first => Body.ofRule ctx
        (fun target depth => do
          let list ← Compilation.ofExcept (ctx.rulesOf target)
          inner target list depth)
        (Region.compile (fun e => Compilation.ofExcept e) (inner state) state list depth)
        state (list.any Rule.isPush) first depth) true list)
      (Body.ofRules (fun first => Body.ofRule ctx
        (fun target depth => do
          let list ← Compilation.ofExcept (ctx.rulesOf target)
          inner' target list depth)
        (Region.compile Compilation.ofExcept (inner' state) state list depth)
        state (list.any Rule.isPush) first depth) true list) := by
  refine kept.ofRules (fun first rule => ?_) true list
  refine kept.ofRule (fun target depth => ?_) ?_ _ first depth rule
  · exact kept.target target fun list => inside target list depth
  · exact kept.region ctx (inside state) list depth

end KeptBySteps

/-! ## Less room -/

namespace Compilation

/-- The first step ends for the depth or does what the second one does. -/
def UpToDepth (x y : Compilation α) : Prop :=
  ∀ σ, TooDeep (x.run.run σ).1 ∨ x.run.run σ = y.run.run σ

theorem upToDepth_throw {e : GrammarError} (deep : e.fault.kind = .recursionLimitExceeded)
    (y : Compilation α) : UpToDepth (throw e) y := fun _ => .inl deep

theorem keptBySteps_upToDepth : KeptBySteps (m := Compilation) UpToDepth where
  pure _ _ := .inr rfl
  bind := by
    intro α β x y f g first next σ
    rw [run_bind, run_bind]
    obtain deep | same := first σ
    · left
      rcases run : x.run.run σ with ⟨e | a, σ₁⟩
      · rwa [run] at deep
      · rw [run] at deep
        exact deep.elim
    · rw [same]
      rcases y.run.run σ with ⟨e | a, σ₁⟩
      · exact .inr rfl
      · exact next a σ₁
  shallow _ _ := .inr rfl

end Compilation

namespace Body

variable {ctx : Context}

/-- With less room a rule list ends for the depth or comes to the same outcome. -/
theorem ofList_upToDepth {less room : Nat} (fewer : less ≤ room) (state : Text) (list : List Rule)
    (depth : Nat) : UpToDepth (ofList ctx less state list depth) (ofList ctx room state list depth) := by
  induction less generalizing room state list depth with
  | zero => exact upToDepth_throw rfl _
  | succ less ih =>
    cases room with
    | zero => exact absurd fewer (Nat.not_succ_le_zero less)
    | succ room =>
      have inside (state : Text) (list : List Rule) (depth : Nat) :=
        ih (Nat.le_of_succ_le_succ fewer) state list depth
      exact keptBySteps_upToDepth.rules ctx state inside list depth

theorem ofTarget_upToDepth {less room : Nat} (fewer : less ≤ room) (name : Text) (depth : Nat) :
    UpToDepth (ofTarget ctx less name depth) (ofTarget ctx room name depth) :=
  keptBySteps_upToDepth.target name fun list => ofList_upToDepth fewer name list depth

end Body

/-! ## Steps of a walker -/

namespace Walker.Step

variable {ctx : Context} {n : Nat}

/-- With `n` rule lists counted, the step of a walker does what the compilation does, and a list that
is refused stays counted. -/
def Follows (n : Nat) (x : Walker.Step α) (y : Compilation α) : Prop :=
  ∀ σ, x.run.run ⟨σ, n⟩ =
    ((y.run.run σ).1, ⟨(y.run.run σ).2, n + refused (y.run.run σ).1⟩)

theorem keptBySteps_follows (n : Nat) : KeptBySteps (m := Walker.Step) (Follows n) where
  pure _ _ := rfl
  bind := by
    intro α β x y f g first next σ
    rw [run_bind, run_bind, first σ]
    rcases y.run.run σ with ⟨e | a, σ₁⟩
    · rfl
    · exact next a σ₁
  shallow := by
    intro α y shallow σ
    have count : refused (y.run.run σ).1 = 0 := if_neg (shallow.not_tooDeep σ)
    rw [count]
    rfl

theorem enter_run (state : Text) (walker : Walker) : (enter ctx state).run.run walker =
    (if ctx.limits.maxDepth.floorNat < walker.frames + 1 then
        .error (.atState (.tooDeep ctx.limits.maxDepth) state) else .ok (),
      { walker with frames := walker.frames + 1 }) := by
  change ((if ctx.limits.maxDepth.floorNat < walker.frames + 1 then
      throw (.atState (.tooDeep ctx.limits.maxDepth) state) else pure () : Walker.Step Unit).run.run
    { walker with frames := walker.frames + 1 }) = _
  split <;> rfl

theorem finally_run (x : Walker.Step α) (walker : Walker) : (tryFinally x leave).run.run walker =
    ((x.run.run walker).1,
      { (x.run.run walker).2 with frames := (x.run.run walker).2.frames - 1 }) := by
  unfold ExceptT.run StateT.run
  simp only [tryFinally, tryFinally', Functor.map, ExceptT.map, ExceptT.mk, bind, StateT.bind]
  rcases x walker with ⟨e | a, after⟩ <;> rfl

/-- A walker that has counted `n` rule lists finds the statements of one more as a compilation does
that has room for the others. -/
theorem ofList_follows {room : Nat} (enough : ctx.limits.maxDepth.floorNat - n ≤ room) (state : Text)
    (list : List Rule) (depth : Nat) :
    Follows n (ofList ctx room state list depth)
      (Body.ofList ctx (ctx.limits.maxDepth.floorNat - n) state list depth) := by
  induction room generalizing n state list depth with
  | zero =>
    -- No room is left, so the list is one too many for both.
    intro σ
    have none : ctx.limits.maxDepth.floorNat - n = 0 := Nat.le_zero.1 enough
    have full : ctx.limits.maxDepth.floorNat < n + 1 := by omega
    rw [none, ofList, run_bind, enter_run, if_pos full]
    rfl
  | succ room ih =>
    intro σ
    obtain full | space := Nat.lt_or_ge ctx.limits.maxDepth.floorNat (n + 1)
    · have none : ctx.limits.maxDepth.floorNat - n = 0 := by omega
      rw [none, ofList, run_bind, enter_run, if_pos full]
      rfl
    · have one : ctx.limits.maxDepth.floorNat - n = ctx.limits.maxDepth.floorNat - (n + 1) + 1 := by
        omega
      have inside (state : Text) (list : List Rule) (depth : Nat) :
          Follows (n + 1) (ofList ctx room state list depth)
            (Body.ofList ctx (ctx.limits.maxDepth.floorNat - (n + 1)) state list depth) :=
        ih (by omega) state list depth
      have rules := (keptBySteps_follows (n + 1)).rules ctx state inside list depth
      rw [one, ofList, run_bind, enter_run, if_neg (Nat.not_lt.2 space)]
      dsimp only
      rw [finally_run, rules σ, Nat.add_right_comm, Nat.add_sub_cancel]
      rfl

theorem ofState_follows (name : Text) (depth : Nat) :
    Follows n (ofState ctx name depth)
      (Body.ofTarget ctx (ctx.limits.maxDepth.floorNat - n) name depth) :=
  (keptBySteps_follows n).target name fun list => ofList_follows (Nat.sub_le _ n) name list depth

end Walker.Step

/-! ## Calls one after the other -/

namespace Walker

variable {ctx : Context}

theorem call_eq (ctx : Context) (walker : Walker) (c : Call) :
    let room := ctx.limits.maxDepth.floorNat - walker.frames
    let found := (Body.ofTarget ctx room c.state c.depth).run.run walker.session
    call ctx walker c = (found.1, ⟨found.2, walker.frames + refused found.1⟩) :=
  Walker.Step.ofState_follows c.state c.depth walker.session

/-- A call leaves the count as it was, or counts one rule list more if it ends for the depth. -/
theorem frames_call (walker : Walker) (c : Call) :
    (call ctx walker c).2.frames = walker.frames + refused (call ctx walker c).1 := by
  rw [call_eq]

theorem frames_calls (walker : Walker) (cs : List Call) :
    (calls ctx walker cs).2.frames = walker.frames + (calls ctx walker cs).1.countP (TooDeep ·) := by
  induction cs generalizing walker with
  | nil => rfl
  | cons c rest ih =>
    have step : (call ctx walker c).2.frames = walker.frames + refused (call ctx walker c).1 :=
      frames_call walker c
    change (calls ctx (call ctx walker c).2 rest).2.frames = walker.frames +
      ((call ctx walker c).1 :: (calls ctx (call ctx walker c).2 rest).1).countP (TooDeep ·)
    rw [ih, step, List.countP_cons]
    simp only [refused, decide_eq_true_eq]
    omega

/-- After any calls of a new walker, its count is the number of those that ended for the depth. If
there was none, the next call does what it does on a new walker. In any case it ends for the depth
or as on a new walker: it does what a compilation does that has room for as many rule lists less. It
leaves the count as it was just if it does not end for the depth itself. -/
theorem calls_new (ctx : Context) (σ : Session) (earlier : List Call) (c : Call) :
    let past := calls ctx (new σ) earlier
    let used := call ctx past.2 c
    let fresh := call ctx (new past.2.session) c
    past.2.frames = past.1.countP (TooDeep ·) ∧
    ((∀ outcome ∈ past.1, ¬ TooDeep outcome) → used = fresh) ∧
    (TooDeep used.1 ∨ used.1 = fresh.1 ∧ used.2.session = fresh.2.session) ∧
    (used.1, used.2.session) =
      (Body.ofTarget ctx (ctx.limits.maxDepth.floorNat - past.2.frames) c.state c.depth).run.run
        past.2.session ∧
    (used.2.frames = past.2.frames ↔ ¬ TooDeep used.1) := by
  intro past used fresh
  have counted : past.2.frames = past.1.countP (TooDeep ·) :=
    (frames_calls (new σ) earlier).trans (Nat.zero_add _)
  have used_eq := call_eq ctx past.2 c
  have fresh_eq := call_eq ctx (new past.2.session) c
  refine ⟨counted, ?_, ?_, ?_, ?_⟩
  · intro shallow
    have none : past.2.frames = 0 := by
      rw [counted, List.countP_eq_zero]
      simpa using shallow
    have same : past.2 = new past.2.session := by
      rw [new, ← none]
    exact congrArg (call ctx · c) same
  · have less := Nat.sub_le ctx.limits.maxDepth.floorNat past.2.frames
    obtain deep | same := Body.ofTarget_upToDepth less c.state c.depth past.2.session
    · left
      rw [show used = _ from used_eq]
      exact deep
    · right
      rw [show used = _ from used_eq, show fresh = _ from fresh_eq, same]
      exact ⟨rfl, rfl⟩
  · rw [show used = _ from used_eq]
    rfl
  · have step : used.2.frames = past.2.frames + refused used.1 := frames_call past.2 c
    rw [step]
    unfold refused
    split
    · next deep => simp [deep]
    · next shallow => simp [shallow]

/-- A language with a state that includes itself, one with a pattern that cannot be converted, and one
that compiles. -/
def looping : Language where
  name := "looping"
  aliases := []
  filenames := []
  aliasFilenames := []
  graph := [
    ("flat", [.literal "a" (.literal "T")]),
    ("ahead", [.splice "flat", .literal "a(?=b)" (.literal "T")]),
    ("loop", [.splice "loop"])]
  sourceFile := none

/-- The context of `looping` with a limit on the depth. -/
def loopingContext (maxDepth : Nat) : Context :=
  ⟨looping, { Limits.standard with maxDepth := .integer maxDepth }, fun _ => none⟩

/-- What three calls of a walker for `looping` come to. -/
def loopingOutcomes : List (Except GrammarError (List Statement)) := [
  .error ⟨.uncaptured "(?=", ⟨some "a(?=b)", some "ahead", none⟩, some 1⟩,
  .error (.atState (.noSuchState "nowhere") "nowhere"),
  .ok [.rule 1 (.single "T" "a")]]

/-- Calls that fail otherwise leave the walker as it was: at the limit, a state with another one inside
is still come to. -/
theorem calls_new_looping :
    let past := calls (loopingContext 2) (new []) [⟨"ahead", 0⟩, ⟨"nowhere", 0⟩, ⟨"flat", 1⟩]
    past.1 = loopingOutcomes ∧
    call (loopingContext 2) past.2 ⟨"ahead", 0⟩ =
      call (loopingContext 2) (new past.2.session) ⟨"ahead", 0⟩ := by
  have outcomes : (calls (loopingContext 2) (new [])
      [⟨"ahead", 0⟩, ⟨"nowhere", 0⟩, ⟨"flat", 1⟩]).1 = loopingOutcomes := by
    cbv
  have shallow : ∀ outcome ∈ loopingOutcomes, ¬ TooDeep outcome := by decide
  refine ⟨outcomes, (calls_new (loopingContext 2) [] _ ⟨"ahead", 0⟩).2.1 ?_⟩
  rw [outcomes]
  exact shallow

/-- A list that was refused stays counted, so that the walker refuses a state that a new one
compiles. -/
theorem calls_loop :
    let past := calls (loopingContext 1) (new []) [⟨"loop", 0⟩]
    past.1 = [.error (.atState (.tooDeep (.integer 1)) "loop")] ∧ past.2.frames = 1 ∧
    (call (loopingContext 1) past.2 ⟨"flat", 0⟩).1 =
      .error (.atState (.tooDeep (.integer 1)) "flat") ∧
    (call (loopingContext 1) (new past.2.session) ⟨"flat", 0⟩).1 =
      .ok [.rule 0 (.single "T" "a")] := by
  refine ⟨by cbv, by cbv, by cbv, by cbv⟩

end Walker

end Highlight
