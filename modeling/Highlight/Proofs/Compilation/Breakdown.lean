import Highlight.Proofs.Compilation.Errors
import Highlight.Proofs.Compilation.History
import Highlight.Proofs.Compilation.Samples
import Highlight.Proofs.SubLexer.Joined

/-!
# When a compilation breaks down

A compilation that cannot go on ends in an error about the language. A breakdown is none of these,
and it has two causes only, which `CanBreak` lists: an expansion limit that is no length of a list,
and a lexer for a language that is not fit for one, because a state has no name or a rule lacks what
it is to match. A compilation starts from a session without lexers and comes to sessions only that
keep lexers of languages in reach; `Keeps` carries this along, together with what the errors on the
way are like (`Body.ofState_keeps`).
-/

namespace Highlight

open Compilation

/-- Lexers can be built for the language and can run: every state has a name, and every rule that is
no splice has a pattern and a token. -/
structure Language.Lexable (language : Language) : Prop where
  named : [] ∉ Table.keys language.graph
  whole : ∀ entry ∈ language.graph, ∀ rule ∈ entry.2, rule.isSplice = false →
    rule.pattern?.isSome = true ∧ rule.token?.isSome = true

namespace SubLexer

variable {language : Language} {graph : Graph} {start state : Text} {cause : Breakdown}

/-- A rule breaks a lexer down only if it lacks its token. -/
theorem compileRule_breakdown {index : Nat} {pattern : Text} {token : Option TokenSpec}
    {move : Move} {e : RuleFault}
    (failed : compileRule state index pattern token move = .error e)
    (broken : e.fault = .breakdown cause) :
    token = none ∧ ∃ property, cause = .missingValue property := by
  unfold compileRule at failed
  dsimp only at failed
  split at failed
  · cases failed
    cases broken
  · split at failed
    · cases failed
    · split at failed
      · cases failed
        cases broken
        exact ⟨rfl, _, rfl⟩
      · cases failed
      · cases failed
      · split at failed
        · cases failed
          cases broken
        · cases failed

theorem compileState_breakdown {e : RuleFault} (failed : compileState graph state = .error e)
    (broken : e.fault = .breakdown cause) :
    (∃ entry ∈ graph, ∃ rule ∈ entry.2, rule.isSplice = false ∧
      (rule.pattern? = none ∨ rule.token? = none)) ∧
      ∃ property, cause = .missingValue property := by
  obtain failed | ⟨compiled, -, absurd⟩ := except_bind_eq_error_iff.1 failed
  · obtain ⟨⟨rule, index⟩, listed, failed⟩ := exists_of_mapM_eq_error failed
    have held : rule ∈ flatten graph state := List.mem_of_getElem? (List.mem_zipIdx_iff_getElem?.1 listed)
    obtain ⟨own, entry, inside, stands⟩ := mem_flatten held
    cases spelled : rule.pattern? with
    | none =>
      simp only [spelled] at failed
      cases failed
      cases broken
      exact ⟨⟨entry, inside, rule, stands, own, .inl spelled⟩, _, rfl⟩
    | some pattern =>
      simp only [spelled] at failed
      obtain ⟨missing, property⟩ := compileRule_breakdown failed broken
      exact ⟨⟨entry, inside, rule, stands, own, .inr missing⟩, property⟩
  · cases absurd

/-- The join of the states never breaks a lexer down. -/
theorem joinFault?_ne_breakdown {states : Table Text (List LexRule)} :
    joinFault? states start ≠ some (.breakdown cause) := by
  intro found
  unfold joinFault? at found
  dsimp only at found
  split at found
  · next unjoined =>
    cases found
    obtain ⟨entry, -, unjoined⟩ := List.exists_of_findSome?_eq_some unjoined
    unfold stateFault? at unjoined
    dsimp only at unjoined
    split at unjoined
    · next capturing =>
      cases unjoined
      obtain ⟨rule, -, absurd⟩ := Option.map_eq_some_iff.1 capturing
      cases absurd
    · split at unjoined
      · cases unjoined
      · next shared known =>
        cases capturing : capturingRule? shared <;> rw [capturing] at unjoined <;> cases unjoined
  · split at found
    · next missing =>
      cases found
      obtain ⟨entry, -, missing⟩ := List.exists_of_findSome?_eq_some missing
      obtain ⟨rule, -, missing⟩ := List.exists_of_findSome?_eq_some missing
      split at missing
      · split at missing <;> cases missing
      · cases missing
    · split at found <;> cases found

/-- A lexer that breaks down while it is built is one of a language that is not fit for it. -/
theorem build_breakdown {e : LexerError} (failed : build language start = .error e)
    (broken : e.fault = .breakdown cause) :
    ¬ language.Lexable ∧ ∃ property, cause = .missingValue property := by
  unfold build at failed
  dsimp only at failed
  split at failed
  · cases failed
    cases broken
  obtain failed | ⟨states, -, unjoined⟩ := except_bind_eq_error_iff.1 failed
  · obtain ⟨state, -, failed⟩ := exists_of_mapM_eq_error failed
    split at failed
    · cases failed
    · next fault uncompiled =>
      cases failed
      obtain ⟨⟨entry, inside, rule, stands, own, lacks⟩, property⟩ :=
        compileState_breakdown uncompiled broken
      refine ⟨fun fit => ?_, property⟩
      obtain ⟨spelled, named⟩ := fit.whole entry inside rule stands own
      obtain missing | missing := lacks
      · rw [missing] at spelled
        cases spelled
      · rw [missing] at named
        cases named
  · split at unjoined
    · next fault found =>
      cases unjoined
      dsimp only at broken
      rw [broken] at found
      exact absurd found joinFault?_ne_breakdown
    · cases unjoined

/-- A run breaks down only in a state without a name. -/
theorem next_breakdown {run : Run} (broken : run.next = .error cause) :
    run.machine.state = [] ∧ ∃ property, cause = .missingValue property := by
  unfold Run.next SubLexer.next at broken
  split at broken
  · cases broken
  · split at broken
    · next nameless =>
      cases broken
      exact ⟨List.isEmpty_iff.1 nameless, _, rfl⟩
    · cases broken

/-- A lexer that was built breaks down at its first token only if its language has a state without a
name. -/
theorem firstToken_breakdown {lexer : SubLexer} {text : Text} {e : GrammarError}
    (built : build language start = .ok lexer) (failed : lexer.firstToken text = .error e) :
    ¬ language.Lexable ∧ ∃ property, e = .ofFault (.breakdown (.missingValue property)) := by
  unfold firstToken at failed
  split at failed
  · next broken =>
    cases failed
    obtain ⟨nameless, property, rfl⟩ := next_breakdown broken
    refine ⟨fun fit => fit.named ?_, property, rfl⟩
    obtain ⟨states, joined⟩ := joined_of_build built
    have listed := joined.start_mem
    have start : lexer.start = [] := nameless
    rw [start, joined.keys_eq] at listed
    obtain ⟨entry, held, same⟩ := List.mem_map.1 listed
    rw [← same]
    exact (joined.compiled entry (mem_enterable.1 held).1).1
  · cases failed

end SubLexer

/-- Samples of a pattern are missing because it is no pattern, or they break down under a limit that
is no length of a list. -/
theorem Sampling.samples_eq_error {pattern : Text} {candidates limit : Number} {e : GrammarError}
    (failed : samples pattern candidates limit = .error e) :
    (∃ met : PatternError, e = .atOffset (.unsampled met) pattern met.offset) ∨
      e = .ofFault (.breakdown .badLength) ∧
        (limit.isInteger = true → lengthBound ≤ limit.floorNat) := by
  unfold samples at failed
  split at failed
  · next met _ =>
    cases failed
    exact .inl ⟨met, rfl⟩
  · split at failed
    · cases failed
    · next tree _ none =>
      cases failed
      refine .inr ⟨rfl, fun integer => ?_⟩
      have whole : (SampleBounds.ofNumbers candidates limit).isWhole = true := by
        simp [SampleBounds.ofNumbers, integer]
      obtain breaks | ⟨long, -⟩ := NumberedPattern.samples?_eq_none whole none
      · exact bound_le_of_breaks breaks
      · exact long

namespace Context

/-- What can break a compilation down. -/
inductive CanBreak (ctx : Context) : Breakdown → Prop where
  /-- The expansion limit is no length of a list. -/
  | length (long : ctx.limits.expansionLimit.isInteger = true →
      lengthBound ≤ ctx.limits.expansionLimit.floorNat) : CanBreak ctx .badLength
  /-- A language that can be referred to is not fit for a lexer. -/
  | lexer {language : Language} {property : Text} (reached : ctx.Reaches language)
    (unfit : ¬ language.Lexable) : CanBreak ctx (.missingValue property)

/-- What an error is like before its language is filled in: it names none, and it breaks down only
as the context can. -/
structure Admits (ctx : Context) (e : GrammarError) : Prop where
  nameless : e.site.language = none
  breaks : ∀ cause, e.fault = .breakdown cause → ctx.CanBreak cause

/-- From a session with lexers of languages in reach, the step leaves such a session, or it fails with
an error that the context admits. -/
structure Keeps {α : Type} (ctx : Context) (step : Compilation α) : Prop where
  kept : ∀ {σ σ' : Session} {a : α}, ctx.Kept σ → Yields step σ a σ' → ctx.Kept σ'
  admitted : ∀ {σ σ' : Session} {e : GrammarError}, ctx.Kept σ → Fails step σ e σ' →
    ctx.Admits e

variable {ctx : Context} {α β : Type} {e : GrammarError}

theorem Admits.of_fault (nameless : e.site.language = none) (other : e.fault.isBreakdown = false) :
    ctx.Admits e := by
  refine ⟨nameless, fun cause broken => ?_⟩
  rw [broken] at other
  cases other

theorem Admits.of_breakdown {cause : Breakdown} (breaks : ctx.CanBreak cause) :
    ctx.Admits (.ofFault (.breakdown cause)) := by
  refine ⟨rfl, fun other same => ?_⟩
  cases same
  exact breaks

theorem Admits.within (admitted : ctx.Admits e) {site : Site} (nameless : site.language = none) :
    ctx.Admits (e.within site) := by
  refine ⟨?_, fun cause broken => ?_⟩
  · unfold GrammarError.within Site.within
    split
    · exact admitted.nameless
    · dsimp only
      rw [admitted.nameless, nameless]
      rfl
  · rw [GrammarError.fault_within] at broken
    exact admitted.breaks cause broken

theorem keeps_pure (a : α) : ctx.Keeps (pure a) where
  kept held yields := (yields_pure_iff.1 yields).2 ▸ held
  admitted _ fails := absurd fails not_fails_pure

theorem keeps_ofExcept {result : Except GrammarError α}
    (admitted : ∀ e, result = .error e → ctx.Admits e) : ctx.Keeps (.ofExcept result) where
  kept held yields := (yields_ofExcept_iff.1 yields).2 ▸ held
  admitted _ fails := admitted _ (fails_ofExcept_iff.1 fails).1

theorem keeps_throw (admitted : ctx.Admits e) : ctx.Keeps (throw e : Compilation α) where
  kept _ yields := absurd yields not_yields_throw
  admitted _ fails := (fails_throw_iff.1 fails).1 ▸ admitted

theorem Keeps.bind {x : Compilation α} {f : α → Compilation β} (first : ctx.Keeps x)
    (next : ∀ a, ctx.Keeps (f a)) : ctx.Keeps (x >>= f) where
  kept held yields := by
    obtain ⟨a, σ₁, here, there⟩ := yields_bind_iff.1 yields
    exact (next a).kept (first.kept held here) there
  admitted held fails := by
    obtain here | ⟨a, σ₁, here, there⟩ := fails_bind_iff.1 fails
    · exact first.admitted held here
    · exact (next a).admitted (first.kept held here) there

theorem Keeps.within {x : Compilation α} (keeps : ctx.Keeps x) {site : Site}
    (nameless : site.language = none) : ctx.Keeps (.within site x) where
  kept held yields := keeps.kept held (yields_within_iff.1 yields)
  admitted held fails := by
    obtain ⟨met, inside, rfl⟩ := fails_within_iff.1 fails
    exact (keeps.admitted held inside).within nameless

/-! ## Lexers and samples -/

theorem located_admitted {ref : LexerRef} (missing : ctx.located ref = .error e) :
    ctx.Admits e := by
  obtain rfl | ⟨language, -, -, rfl⟩ := located_eq_error missing <;> exact .of_fault rfl rfl

theorem buildError_admitted {language : Language} {start : Text} {met : LexerError}
    (reached : ctx.Reaches language) (failed : SubLexer.build language start = .error met) :
    ctx.Admits (buildError language met) := by
  unfold buildError
  split
  · next cause broken =>
    obtain ⟨unfit, property, rfl⟩ := SubLexer.build_breakdown failed broken
    exact .of_breakdown (.lexer reached unfit)
  · exact .of_fault rfl rfl

theorem lexer_admitted {language : Language} {start text : Text} {lexer : SubLexer}
    (reached : ctx.Reaches language) (built : SubLexer.build language start = .ok lexer)
    (failed : lexer.firstToken text = .error e) : ctx.Admits e := by
  obtain ⟨unfit, property, rfl⟩ := SubLexer.firstToken_breakdown built failed
  exact .of_breakdown (.lexer reached unfit)

theorem firstToken_keeps (ref : LexerRef) (text : Text) : ctx.Keeps (ctx.firstToken ref text) where
  kept held yields := by
    have left := (held.invoke ref text).of_lexer? (ctx.firstToken_lexer? ref text _)
    rwa [yields] at left
  admitted held fails := by
    cases firstToken_fails fails with
    | nowhere missing => exact located_admitted missing
    | unbuilt place refused => exact buildError_admitted (reaches_of_located place) refused
    | broken place source failed =>
      obtain kept | built := source
      · obtain ⟨language, state, reached, -, built⟩ := held _ _ kept
        exact lexer_admitted reached built failed
      · exact lexer_admitted (reaches_of_located place) built failed

theorem dynamicToken_keeps (group : Text) (ref : LexerRef) :
    ctx.Keeps (ctx.dynamicToken group ref) := by
  unfold dynamicToken
  have sampled : ∀ e, Sampling.longestSample group ctx.limits.maxCandidates
      ctx.limits.expansionLimit = .error e → ctx.Admits e := by
    intro e failed
    unfold Sampling.longestSample at failed
    cases samples : Sampling.samples group ctx.limits.maxCandidates ctx.limits.expansionLimit with
    | ok texts =>
      rw [samples] at failed
      cases failed
    | error met =>
      rw [samples] at failed
      cases failed
      obtain ⟨cause, rfl⟩ | ⟨rfl, long⟩ := Sampling.samples_eq_error samples
      · exact .of_fault rfl rfl
      · exact .of_breakdown (.length long)
  have matched : ∀ sample e, matchedSample group sample = .error e → ctx.Admits e := by
    intro sample e failed
    obtain ⟨-, rfl⟩ | ⟨expression, -, -, rfl⟩ := matchedSample_eq_error failed <;>
      exact .of_fault rfl rfl
  apply (keeps_ofExcept sampled).bind
  intro sample
  apply (keeps_ofExcept (matched sample)).bind
  intro text
  apply (firstToken_keeps ref text).bind
  intro token
  cases token with
  | none => exact keeps_throw (.of_fault rfl rfl)
  | some token => exact keeps_pure _

end Context

open Context

variable {ctx : Context}

/-! ## Rules -/

theorem Dialect.convert_admitted {pattern : Text} {e : GrammarError}
    (refused : Dialect.convert pattern = .error e) : ctx.Admits e := by
  obtain ⟨opening, offset, rfl⟩ := Dialect.convert_eq_error refused
  exact .of_fault rfl rfl

namespace Binding

theorem groupTokens_keeps (pattern : Text) (index : Nat) (parts : List Text)
    (items : List TokenSpec) : ctx.Keeps (groupTokens ctx pattern index parts items) := by
  induction items generalizing index parts with
  | nil => cases parts <;> exact keeps_pure _
  | cons item items ih =>
    cases parts with
    | nil => exact keeps_pure _
    | cons part parts =>
      have here : ctx.Keeps (itemToken ctx pattern index part item) := by
        cases item with
        | literal token => exact keeps_pure _
        | dynamic ref => exact dynamicToken_keeps part ref
        | compound items => exact keeps_throw (.of_fault rfl rfl)
      rw [groupTokens_cons]
      exact here.bind fun _ => (ih _ _).bind fun _ => keeps_pure _

theorem ofGroups_keeps (pattern : Text) (items : List TokenSpec) :
    ctx.Keeps (ofGroups ctx pattern items) := by
  apply (keeps_ofExcept fun _ => Dialect.convert_admitted).bind
  intro converted
  have bound : ctx.Keeps
      (groupTokens ctx converted 0 (Dialect.topLevelGroups converted) items >>= fun tokens =>
        pure (Binding.groups tokens converted)) :=
    (groupTokens_keeps _ _ _ _).bind fun _ => keeps_pure _
  by_cases same : (Dialect.topLevelGroups converted).length = items.length
  · simpa only [ne_eq, same, not_true_eq_false, if_false] using bound
  · simp only [ne_eq, same, not_false_eq_true, if_true]
    exact (keeps_throw (.of_fault rfl rfl)).bind fun _ => bound

theorem ofPattern_keeps (pattern : Text) (token : TokenSpec) (leaves : Bool) :
    ctx.Keeps (ofPattern ctx pattern token leaves) := by
  cases token with
  | literal token =>
    unfold ofPattern
    dsimp only
    split
    · exact keeps_pure _
    · refine keeps_ofExcept fun e refused => ?_
      obtain ⟨part, refused⟩ := ofLiteral_eq_error refused
      exact Dialect.convert_admitted refused
  | compound items => exact (ofGroups_keeps pattern items).bind fun _ => keeps_pure _
  | dynamic ref => exact keeps_throw (.of_fault rfl rfl)

end Binding

theorem Region.binding_admitted {state : Text} {rules : RegionRules} {e : GrammarError}
    (refused : binding state rules = .error e) : ctx.Admits e := by
  obtain rfl | ⟨first, -, rfl⟩ | ⟨rule, -, pattern, -, refused⟩ := binding_eq_error refused
  · exact .of_fault rfl rfl
  · exact .of_fault rfl rfl
  · exact Dialect.convert_admitted refused

namespace Body

variable {state : Text} {depth : Nat}

theorem bindAt_keeps (pattern : Text) (token : TokenSpec) (leaves : Bool) :
    ctx.Keeps (bindAt ctx state pattern token leaves) :=
  (Binding.ofPattern_keeps pattern token leaves).within rfl

theorem ofRule_keeps {other : Text → Nat → Compilation (List Statement)}
    {region : Compilation (List Statement)} {hasRegion first : Bool} {rule : Rule}
    (others : ∀ target depth, ctx.Keeps (other target depth)) (inside : ctx.Keeps region) :
    ctx.Keeps (ofRule ctx other region state hasRegion first depth rule) := by
  cases rule with
  | splice target => exact others target depth
  | literal pattern token => exact (bindAt_keeps pattern token false).bind fun _ => keeps_pure _
  | nested pattern token target =>
    apply (bindAt_keeps pattern token false).bind
    intro binding
    cases binding with
    | none => exact others target depth
    | some binding => exact (others target (depth + 1)).bind fun _ => keeps_pure _
  | push pattern token =>
    cases first with
    | true => exact inside
    | false => exact keeps_pure _
  | pop pattern token count =>
    cases hasRegion with
    | true => exact keeps_pure _
    | false => exact (bindAt_keeps pattern token true).bind fun _ => keeps_pure _
  | unknown raw pattern token => exact keeps_throw (.of_fault rfl rfl)

theorem ofRules_keeps {one : Bool → Rule → Compilation (List Statement)}
    (each : ∀ first rule, ctx.Keeps (one first rule)) (first : Bool) (rules : List Rule) :
    ctx.Keeps (ofRules one first rules) := by
  induction rules generalizing first with
  | nil => exact keeps_pure _
  | cons rule rules ih =>
    exact (each first rule).bind fun _ => (ih _).bind fun _ => keeps_pure _

theorem rulesOf_keeps (target : Text) : ctx.Keeps (.ofExcept (ctx.rulesOf target)) := by
  refine keeps_ofExcept fun e missing => ?_
  unfold Context.rulesOf at missing
  split at missing
  · cases missing
  · cases missing
    exact .of_fault rfl rfl

theorem ofList_keeps (room : Nat) (list : List Rule) :
    ctx.Keeps (ofList ctx room state list depth) := by
  induction room generalizing state list depth with
  | zero => exact keeps_throw (.of_fault rfl rfl)
  | succ room ih =>
    rw [ofList_succ]
    refine ofRules_keeps (fun first rule => ofRule_keeps (fun target depth => ?_) ?_) true list
    · exact (rulesOf_keeps target).bind fun list => ih list
    · apply (keeps_ofExcept fun _ => Region.binding_admitted).bind
      intro binding
      split
      · exact keeps_pure _
      · exact (ih _).bind fun _ => keeps_pure _

/-- A state that is compiled fails with errors only that the context admits. -/
theorem ofState_keeps (state : Text) (depth : Nat) : ctx.Keeps (ofState ctx state depth) :=
  (rulesOf_keeps state).bind fun list => ofList_keeps _ list

end Body

end Highlight
