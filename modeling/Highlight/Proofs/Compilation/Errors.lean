import Highlight.Proofs.Compilation.Alike
import Highlight.Proofs.Compilation.RuleOrder
import Highlight.Proofs.Compilation.Session

/-!
# Where errors come from

An error of a compilation was met at one place, and `Origin` lists these places with the error that
is met there (`ofList_fails`). The binding of a rule is the one place that other lexers are asked
from; `Asks` says what its errors can be about: never the depth, and of states only those that a
reference of the rule asks for (`Binding.ofPattern_asks`).
-/

namespace Highlight

open Compilation

namespace Context

/-- The language that a reference names does not have the state that it asks for, which is the
cause. -/
def Lacks (ctx : Context) (ref : LexerRef) (fault : Fault) : Prop :=
  ∃ language, ctx.resolve ref = .ok language ∧
    Table.has language.graph (ref.state.getD rootState) = false ∧
    fault = .noSuchLexerState language.name (ref.state.getD rootState)

/-- What an error can be about that is met where the lexers of some references are asked. -/
structure Asks (ctx : Context) (refs : List LexerRef) (e : GrammarError) : Prop where
  bounded : e.fault.kind ≠ .recursionLimitExceeded
  state : e.fault.kind = .unknownState → ∃ ref ∈ refs, ctx.Lacks ref e.fault

variable {ctx : Context} {refs refs' : List LexerRef} {ref : LexerRef} {σ σ' : Session}
  {e : GrammarError}

/-- An error about neither the depth nor a state. -/
theorem Asks.of_kind (bounded : e.fault.kind ≠ .recursionLimitExceeded)
    (other : e.fault.kind ≠ .unknownState) : ctx.Asks refs e :=
  ⟨bounded, fun state => absurd state other⟩

theorem Asks.mono (asks : ctx.Asks refs e) (subset : refs ⊆ refs') : ctx.Asks refs' e := by
  refine ⟨asks.bounded, fun state => ?_⟩
  obtain ⟨ref, listed, lacks⟩ := asks.state state
  exact ⟨ref, subset listed, lacks⟩

theorem Asks.within (asks : ctx.Asks refs e) (site : Site) : ctx.Asks refs (e.within site) := by
  refine ⟨?_, ?_⟩
  · rw [GrammarError.fault_within]
    exact asks.bounded
  · rw [GrammarError.fault_within]
    exact asks.state

/-- A lexer that cannot be built is no state that is missing. -/
theorem buildError_asks (language : Language) (lexerError : LexerError) :
    ctx.Asks refs (buildError language lexerError) := by
  unfold buildError
  cases lexerError.fault <;> exact .of_kind nofun nofun

theorem located_asks (missing : ctx.located ref = .error e) : ctx.Asks [ref] e := by
  obtain rfl | ⟨language, resolved, lacking, rfl⟩ := located_eq_error missing
  · exact .of_kind nofun nofun
  · exact ⟨nofun, fun _ => ⟨ref, List.mem_cons_self, language, resolved, lacking, rfl⟩⟩

theorem firstToken_asks {text : Text} (fails : Fails (ctx.firstToken ref text) σ e σ') :
    ctx.Asks [ref] e := by
  cases firstToken_fails fails with
  | nowhere missing => exact located_asks missing
  | unbuilt _ _ => exact buildError_asks _ _
  | broken _ _ failed =>
    unfold SubLexer.firstToken at failed
    split at failed <;> cases failed
    exact .of_kind nofun nofun

/-- A group that has no sample, or does not match its own, is no state that is missing. -/
theorem dynamicToken_asks {group : Text} (fails : Fails (ctx.dynamicToken group ref) σ e σ') :
    ctx.Asks [ref] e := by
  obtain unsampled | ⟨sample, -, unmatched⟩ | ⟨text, unasked⟩ | ⟨text, rfl⟩ :=
    dynamicToken_fails fails
  · obtain ⟨met, -, rfl⟩ | rfl := Sampling.longestSample_eq_error unsampled <;>
      exact .of_kind nofun nofun
  · obtain ⟨-, rfl⟩ | ⟨expression, -, -, rfl⟩ := matchedSample_eq_error unmatched <;>
      exact .of_kind nofun nofun
  · exact firstToken_asks unasked
  · exact .of_kind nofun nofun

end Context

/-- A pattern cannot be converted for an opening that is left when all idioms are replaced. -/
theorem Dialect.convert_eq_error {pattern : Text} {e : GrammarError}
    (refused : convert pattern = .error e) :
    ∃ opening offset, e = .atOffset (.uncaptured opening) (respelled pattern) offset := by
  unfold convert at refused
  dsimp only at refused
  split at refused
  · cases refused
  · next opening offset _ =>
    cases refused
    exact ⟨opening, offset, rfl⟩

namespace Binding

variable {ctx : Context} {σ σ' : Session} {e : GrammarError} {pattern : Text}

/-- A pattern that cannot be converted is no state that is missing. -/
theorem convert_asks {refs : List LexerRef} (refused : Dialect.convert pattern = .error e) :
    ctx.Asks refs e := by
  obtain ⟨opening, offset, rfl⟩ := Dialect.convert_eq_error refused
  exact .of_kind nofun nofun

/-- A pattern that is bound to one token fails only if it, or its lead, cannot be converted. -/
theorem ofLiteral_eq_error {token : TokenType} (refused : ofLiteral pattern token = .error e) :
    ∃ part, Dialect.convert part = .error e := by
  have converted {t : Text} {f : Text → Option Binding}
      (refused : (Dialect.convert t).map f = .error e) : Dialect.convert t = .error e := by
    cases convert : Dialect.convert t with
    | ok found =>
      rw [convert] at refused
      cases refused
    | error met =>
      rw [convert] at refused
      cases refused
      rfl
  unfold ofLiteral at refused
  split at refused
  · exact ⟨_, converted refused⟩
  · split at refused
    · cases refused
    · exact ⟨_, converted refused⟩

theorem ofLiteral_asks {refs : List LexerRef} {token : TokenType}
    (refused : ofLiteral pattern token = .error e) : ctx.Asks refs e := by
  obtain ⟨part, refused⟩ := ofLiteral_eq_error refused
  exact convert_asks refused

theorem groupTokens_asks {index : Nat} {parts : List Text} {items : List TokenSpec}
    (fails : Fails (groupTokens ctx pattern index parts items) σ e σ') :
    ctx.Asks (TokenSpec.compound items).refs e := by
  induction items generalizing index parts σ with
  | nil => cases parts <;> exact absurd fails not_fails_pure
  | cons item items ih =>
    cases parts with
    | nil => exact absurd fails not_fails_pure
    | cons part parts =>
      rw [groupTokens_cons] at fails
      obtain here | ⟨token, σ₁, -, fails⟩ := fails_bind_iff.1 fails
      · cases item with
        | literal token => exact absurd here not_fails_pure
        | compound inner =>
          obtain ⟨rfl, -⟩ := fails_throw_iff.1 here
          exact .of_kind nofun nofun
        | dynamic ref =>
          apply (Context.dynamicToken_asks here).mono
          intro other listed
          rw [List.mem_singleton.1 listed]
          exact List.mem_cons_self
      obtain later | ⟨tokens, σ₂, -, fails⟩ := fails_bind_iff.1 fails
      · apply (ih later).mono
        intro ref listed
        obtain ⟨other, held, asked⟩ := List.mem_filterMap.1 listed
        exact List.mem_filterMap.2 ⟨other, List.mem_cons_of_mem _ held, asked⟩
      · exact absurd fails not_fails_pure

/-- The binding of a rule never fails for the depth, and for a state only where a reference of its
token asks for one that is missing. -/
theorem ofPattern_asks {token : TokenSpec} {leaves : Bool}
    (fails : Fails (ofPattern ctx pattern token leaves) σ e σ') : ctx.Asks token.refs e := by
  cases token with
  | literal token =>
    unfold ofPattern at fails
    dsimp only at fails
    split at fails
    · exact absurd fails not_fails_pure
    · exact ofLiteral_asks (fails_ofExcept_iff.1 fails).1
  | dynamic ref =>
    obtain ⟨rfl, -⟩ := fails_throw_iff.1 fails
    exact .of_kind nofun nofun
  | compound items =>
    obtain groups | ⟨binding, σ₁, -, last⟩ := fails_bind_iff.1 fails
    · obtain refused | ⟨converted, σ₁, -, bound⟩ := fails_bind_iff.1 groups
      · exact convert_asks (fails_ofExcept_iff.1 refused).1
      · by_cases same : (Dialect.topLevelGroups converted).length = items.length
        · simp only [ne_eq, same, not_true_eq_false, if_false] at bound
          obtain unnamed | ⟨tokens, σ₂, -, last⟩ := fails_bind_iff.1 bound
          · exact groupTokens_asks unnamed
          · exact absurd last not_fails_pure
        · simp only [ne_eq, same, not_false_eq_true, if_true] at bound
          obtain stop | ⟨_, _, absurd, _⟩ := fails_bind_iff.1 bound
          · obtain ⟨rfl, -⟩ := fails_throw_iff.1 stop
            exact .of_kind nofun nofun
          · cases absurd
    · exact absurd last not_fails_pure

end Binding

namespace Region

/-- A region cannot be drawn if it has no delimiter on one side, if its token is no single one, or if
one of its delimiters cannot be converted. -/
theorem binding_eq_error {state : Text} {rules : RegionRules} {e : GrammarError}
    (refused : binding state rules = .error e) :
    e = .atState (.openRegion rules.entering.length rules.leaving.length) state ∨
      (∃ first ∈ rules.entering, e = (GrammarError.ofFault .regionToken).within
        { Site.unknown with pattern := first.pattern?, state := some state }) ∨
      ∃ rule ∈ rules.entering ++ rules.leaving, ∃ pattern, rule.pattern? = some pattern ∧
        Dialect.convert pattern = .error e := by
  have undelimited {list : List Rule} (refused : delimiterOf list = .error e) :
      ∃ rule ∈ list, ∃ pattern, rule.pattern? = some pattern ∧
        Dialect.convert pattern = .error e := by
    obtain refused | ⟨patterns, -, joined⟩ := except_bind_eq_error_iff.1 refused
    · obtain ⟨pattern, listed, refused⟩ := exists_of_mapM_eq_error refused
      obtain ⟨rule, held, spelled⟩ := List.mem_filterMap.1 listed
      exact ⟨rule, held, pattern, spelled, refused⟩
    · split at joined <;> cases joined
  unfold binding at refused
  split at refused
  · next first rest _ _ enters _ =>
    obtain unnamed | ⟨token, -, refused⟩ := except_bind_eq_error_iff.1 refused
    · unfold tokenOf at unnamed
      split at unnamed
      · cases unnamed
      · cases unnamed
        exact .inr (.inl ⟨first, by rw [enters]; exact List.mem_cons_self, rfl⟩)
    obtain refused | ⟨entering, -, refused⟩ := except_bind_eq_error_iff.1 refused
    · obtain ⟨rule, held, found⟩ := undelimited refused
      exact .inr (.inr ⟨rule, List.mem_append_left _ held, found⟩)
    obtain refused | ⟨leaving, -, absurd⟩ := except_bind_eq_error_iff.1 refused
    · obtain ⟨rule, held, found⟩ := undelimited refused
      exact .inr (.inr ⟨rule, List.mem_append_right _ held, found⟩)
    · cases absurd
  · cases refused
    exact .inl rfl

/-- A region that cannot be drawn is neither too deep nor a state that is missing. -/
theorem binding_asks {ctx : Context} {refs : List LexerRef} {state : Text} {rules : RegionRules}
    {e : GrammarError} (refused : binding state rules = .error e) : ctx.Asks refs e := by
  obtain rfl | ⟨first, -, rfl⟩ | ⟨rule, -, pattern, -, refused⟩ := binding_eq_error refused
  · exact .of_kind nofun nofun
  · exact .of_kind nofun nofun
  · exact Binding.convert_asks refused

end Region

namespace Body

variable {ctx : Context} {state : Text} {rules list : List Rule} {rule : Rule} {depth : Nat}
  {σ σ' : Session} {e : GrammarError}

theorem bindAt_asks {pattern : Text} {token : TokenSpec} {leaves : Bool}
    (fails : Fails (bindAt ctx state pattern token leaves) σ e σ') : ctx.Asks token.refs e := by
  obtain ⟨met, inside, rfl⟩ := fails_within_iff.1 fails
  exact (Binding.ofPattern_asks inside).within _

/-! ## The places of errors -/

/-- Where an error was met that the rules of the language can end in. -/
inductive Origin (ctx : Context) : GrammarError → Prop where
  /-- More rule lists were at work than the limit allows. -/
  | room {state : Text} : Origin ctx (.atState (.tooDeep ctx.limits.maxDepth) state)
  /-- A rule leads to a state that is not defined. -/
  | target {state target : Text} {rule : Rule} (own : HasRule ctx.language.graph state rule)
    (leads : rule.target? = some target)
    (unknown : Table.get? ctx.language.graph target = none) :
    Origin ctx (.atState (.noSuchState target) target)
  /-- The region of a state cannot be drawn. -/
  | region {state : Text} {rules : List Rule} {e : GrammarError}
    (own : Table.get? ctx.language.graph state = some rules)
    (refused : Region.binding state (.ofRules rules) = .error e) : Origin ctx e
  /-- A rule cannot be bound. -/
  | binding {state pattern : Text} {rule : Rule} {token : TokenSpec} {leaves : Bool}
    {σ σ' : Session} {e : GrammarError} (own : HasRule ctx.language.graph state rule)
    (matched : rule.pattern? = some pattern) (named : rule.token? = some token)
    (fails : Fails (bindAt ctx state pattern token leaves) σ e σ') : Origin ctx e
  /-- A rule is of no known kind. -/
  | unknown {state : Text} {raw : Document} {pattern : Option Text} {token : Option TokenSpec}
    (own : HasRule ctx.language.graph state (.unknown raw pattern token)) :
    Origin ctx (.ofFault (.unknownRule raw))

theorem ofRules_fails {one : Bool → Rule → Compilation (List Statement)} {first : Bool}
    (fails : Fails (ofRules one first list) σ e σ') :
    ∃ xs rule ys lines σ₁, list = xs ++ rule :: ys ∧ Yields (ofRules one first xs) σ lines σ₁ ∧
      Fails (one (first && !xs.any Rule.isPush) rule) σ₁ e σ' := by
  induction list generalizing first σ with
  | nil => exact absurd fails not_fails_pure
  | cons rule rules ih =>
    obtain here | ⟨lines, σ₁, done, fails⟩ := fails_bind_iff.1 fails
    · refine ⟨[], rule, rules, [], σ, rfl, rfl, ?_⟩
      rwa [List.any_nil, Bool.not_false, Bool.and_true]
    obtain later | ⟨more, σ₂, -, last⟩ := fails_bind_iff.1 fails
    · obtain ⟨xs, other, ys, before, σ₂, rfl, yields, fails⟩ := ih later
      refine ⟨rule :: xs, other, ys, lines ++ before, σ₂, rfl, ?_, ?_⟩
      · exact yields_bind_iff.2 ⟨lines, σ₁, done,
          yields_bind_iff.2 ⟨before, σ₂, yields, yields_pure_iff.2 ⟨rfl, rfl⟩⟩⟩
      · rwa [List.any_cons, Bool.not_or, ← Bool.and_assoc]
    · exact absurd last not_fails_pure

/-- What a rule leads to is compiled at a depth, from the session that binding the rule leaves. -/
inductive Enters (ctx : Context) (state : Text) (depth : Nat) (σ : Session) :
    Rule → Text → Nat → Session → Prop where
  | splice {target : Text} : Enters ctx state depth σ (.splice target) target depth σ
  | dropped {pattern target : Text} {token : TokenSpec} {σ₁ : Session}
    (bound : Yields (bindAt ctx state pattern token false) σ none σ₁) :
    Enters ctx state depth σ (.nested pattern token target) target depth σ₁
  | nested {pattern target : Text} {token : TokenSpec} {binding : Binding} {σ₁ : Session}
    (bound : Yields (bindAt ctx state pattern token false) σ (some binding) σ₁) :
    Enters ctx state depth σ (.nested pattern token target) target (depth + 1) σ₁

theorem Enters.target?_eq {target : Text} {depth' : Nat}
    (enters : Enters ctx state depth σ rule target depth' σ') : rule.target? = some target := by
  cases enters <;> rfl

/-- An error that a rule ends in was met in binding it, in a state that it leads to, or in the
region, if the rule draws that. -/
theorem ofRule_fails {other : Text → Nat → Compilation (List Statement)}
    {region : Compilation (List Statement)} {hasRegion first : Bool}
    (fails : Fails (ofRule ctx other region state hasRegion first depth rule) σ e σ') :
    (∃ pattern token leaves, rule.pattern? = some pattern ∧ rule.token? = some token ∧
        Fails (bindAt ctx state pattern token leaves) σ e σ') ∨
      (∃ target depth' σ₁, Enters ctx state depth σ rule target depth' σ₁ ∧
        Fails (other target depth') σ₁ e σ') ∨
      (rule.isPush = true ∧ first = true ∧ Fails region σ e σ') ∨
      ∃ raw pattern token, rule = .unknown raw pattern token ∧ e = .ofFault (.unknownRule raw) := by
  cases rule with
  | splice target => exact .inr (.inl ⟨target, depth, σ, .splice, fails⟩)
  | literal pattern token =>
    obtain unbound | ⟨binding, σ₁, -, last⟩ := fails_bind_iff.1 fails
    · exact .inl ⟨pattern, token, false, rfl, rfl, unbound⟩
    · exact absurd last not_fails_pure
  | nested pattern token target =>
    obtain unbound | ⟨binding, σ₁, bound, fails⟩ := fails_bind_iff.1 fails
    · exact .inl ⟨pattern, token, false, rfl, rfl, unbound⟩
    · cases binding with
      | none => exact .inr (.inl ⟨target, depth, σ₁, .dropped bound, fails⟩)
      | some binding =>
        obtain inside | ⟨lines, σ₂, -, last⟩ := fails_bind_iff.1 fails
        · exact .inr (.inl ⟨target, depth + 1, σ₁, .nested bound, inside⟩)
        · exact absurd last not_fails_pure
  | push pattern token =>
    cases first with
    | true => exact .inr (.inr (.inl ⟨rfl, rfl, fails⟩))
    | false => exact absurd fails not_fails_pure
  | pop pattern token count =>
    cases hasRegion with
    | true => exact absurd fails not_fails_pure
    | false =>
      obtain unbound | ⟨binding, σ₁, -, last⟩ := fails_bind_iff.1 fails
      · exact .inl ⟨pattern, token, true, rfl, rfl, unbound⟩
      · exact absurd last not_fails_pure
  | unknown raw pattern token =>
    obtain ⟨rfl, -⟩ := fails_throw_iff.1 fails
    exact .inr (.inr (.inr ⟨raw, pattern, token, rfl, rfl⟩))

/-- A state that is entered fails because it is not defined, or in one of its rules. -/
theorem ofTarget_fails {room : Nat} {target : Text}
    (fails : Fails (ofTarget ctx room target depth) σ e σ') :
    (Table.get? ctx.language.graph target = none ∧
        e = .atState (.noSuchState target) target) ∨
      ∃ rules, Table.get? ctx.language.graph target = some rules ∧
        Fails (ofList ctx room target rules depth) σ e σ' := by
  obtain missing | ⟨rules, σ₁, found, inside⟩ := fails_bind_iff.1 fails
  · have absent := (fails_ofExcept_iff.1 missing).1
    refine .inl ?_
    unfold Context.rulesOf at absent
    split at absent
    · cases absent
    · rename_i unknown
      cases absent
      exact ⟨unknown, rfl⟩
  · obtain ⟨known, rfl⟩ := yields_ofExcept_iff.1 found
    exact .inr ⟨rules, Context.rulesOf_eq_ok_iff.1 known, inside⟩

/-- A region fails because it cannot be drawn, or in one of the rules beside it. -/
theorem ofRegion_fails {room : Nat} (fails : Fails (ofRegion ctx room state list depth) σ e σ') :
    Region.binding state (.ofRules list) = .error e ∨
      ∃ binding, Region.binding state (.ofRules list) = .ok binding ∧
        (RegionRules.ofRules list).others ≠ [] ∧
        Fails (ofList ctx room state (RegionRules.ofRules list).others (depth + 1)) σ e σ' := by
  obtain refused | ⟨binding, σ₁, bound, inside⟩ := fails_bind_iff.1 fails
  · exact .inl (fails_ofExcept_iff.1 refused).1
  · obtain ⟨drawn, rfl⟩ := yields_ofExcept_iff.1 bound
    refine .inr ⟨binding, drawn, ?_⟩
    split at inside
    · exact absurd inside not_fails_pure
    · rename_i full
      obtain inner | ⟨lines, σ₂, -, last⟩ := fails_bind_iff.1 inside
      · exact ⟨fun none => full (by rw [none]; rfl), inner⟩
      · exact absurd last not_fails_pure

/-- An error of the rules of a state was met at one of the places listed. -/
theorem ofList_fails {room : Nat} (owned : Owned ctx.language.graph state list)
    (fails : Fails (ofList ctx room state list depth) σ e σ') : Origin ctx e := by
  induction room generalizing state list depth σ with
  | zero =>
    obtain ⟨rfl, -⟩ := fails_throw_iff.1 fails
    exact .room
  | succ room ih =>
    rw [ofList_succ] at fails
    obtain ⟨xs, rule, ys, lines, σ₁, rfl, -, fails⟩ := ofRules_fails fails
    have listed : rule ∈ xs ++ rule :: ys := by simp
    obtain ⟨pattern, token, leaves, matched, named, unbound⟩ | ⟨target, depth', σ₂, enters, fails⟩ |
      ⟨push, -, fails⟩ | ⟨raw, pattern, token, rfl, rfl⟩ := ofRule_fails fails
    · exact .binding (owned.hasRule listed) matched named unbound
    · obtain ⟨unknown, rfl⟩ | ⟨rules, known, fails⟩ := ofTarget_fails fails
      · exact .target (owned.hasRule listed) enters.target?_eq unknown
      · exact ih ⟨rules, known, .inl rfl⟩ fails
    · have whole := owned.whole listed push
      obtain refused | ⟨binding, -, -, fails⟩ := ofRegion_fails fails
      · exact .region whole refused
      · exact ih ⟨_, whole, .inr rfl⟩ fails
    · exact .unknown (owned.hasRule listed)

end Body

namespace Language

variable {language : Language} {limits : Limits} {lookup : Text → Option Language}
  {e : GrammarError}

/-- A language fails to compile with an error of its root state, which then names the language. -/
theorem compile_eq_error_iff : language.compile limits lookup = .error e ↔
    ∃ met σ, Fails (Body.ofState ⟨language, limits, lookup⟩ rootState 0) [] met σ ∧
      e = met.within { Site.unknown with language := some language.name } := by
  unfold compile
  rw [except_map_eq_error_iff, outcome_eq_error_iff]
  constructor
  · rintro ⟨σ, fails⟩
    obtain ⟨met, inside, rfl⟩ := fails_within_iff.1 fails
    exact ⟨met, σ, inside, rfl⟩
  · rintro ⟨met, σ, fails, rfl⟩
    exact ⟨σ, fails_within_iff.2 ⟨met, fails, rfl⟩⟩

/-- A language that does not compile has no root state, or an error was met at one of the places
listed. -/
theorem compile_fails (failed : language.compile limits lookup = .error e) :
    Table.has language.graph rootState = false ∨
      ∃ met, Body.Origin ⟨language, limits, lookup⟩ met ∧ met.fault = e.fault := by
  obtain ⟨met, σ, fails, rfl⟩ := compile_eq_error_iff.1 failed
  rw [GrammarError.fault_within]
  obtain ⟨missing, -⟩ | ⟨rules, known, fails⟩ := Body.ofTarget_fails fails
  · exact .inl (by rw [Table.has, missing]; rfl)
  · exact .inr ⟨met, Body.ofList_fails ⟨rules, known, .inl rfl⟩ fails, rfl⟩

end Language

end Highlight
