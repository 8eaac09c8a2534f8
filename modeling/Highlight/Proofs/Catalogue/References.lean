import Highlight.Proofs.Catalogue.RuleTable
import Highlight.Proofs.Compilation.Errors

/-!
# The references of a loaded language

A document is loaded only if it has a root state and the states that its rules refer to. The check
(`referenceError?`) sees the target of a rule, and else the token of the rule down to the items of
its list: it passes over the token of a rule that leads to a state, and over lists inside lists. So
a loaded language is closed but for these two places (`Language.ofDocument_refersTo`), and the first
of them can still be asked for a state that is missing when the language is compiled.
-/

namespace Highlight

/-- A reference that stands in a token, inside so many lists. -/
inductive TokenSpec.RefersAt : TokenSpec → Nat → LexerRef → Prop where
  | here {ref : LexerRef} : RefersAt (.dynamic ref) 0 ref
  | item {items : List TokenSpec} {item : TokenSpec} {depth : Nat} {ref : LexerRef}
    (listed : item ∈ items) (inside : RefersAt item depth ref) :
    RefersAt (.compound items) (depth + 1) ref

/-- The references that are asked stand in the list of the token itself. -/
theorem TokenSpec.refersAt_of_mem_refs {token : TokenSpec} {ref : LexerRef}
    (asked : ref ∈ token.refs) : token.RefersAt 1 ref := by
  cases token with
  | literal token => cases asked
  | dynamic other => cases asked
  | compound items =>
    obtain ⟨item, listed, same⟩ := List.mem_filterMap.1 asked
    cases item with
    | literal token => cases same
    | compound inner => cases same
    | dynamic other =>
      cases same
      exact .item listed .here

/-- A state that a rule refers to: its target, or the start of its own language's lexer, wherever
that is named in its token. -/
inductive Rule.RefersTo : Rule → Text → Prop where
  | target {rule : Rule} {state : Text} (leads : rule.target? = some state) : RefersTo rule state
  | token {rule : Rule} {token : TokenSpec} {depth : Nat} {ref : LexerRef} {state : Text}
    (named : rule.token? = some token) (inside : token.RefersAt depth ref)
    (own : ref.lexer = LexerRef.this) (start : ref.state = some state) : RefersTo rule state

/-- Every state that a rule refers to is a state of the graph. -/
def Graph.Closed (graph : Graph) : Prop :=
  ∀ entry ∈ graph, ∀ rule ∈ entry.2, ∀ state, rule.RefersTo state → Table.has graph state = true

namespace Entry

variable {graph : Graph} {rule : Rule} {token : TokenSpec} {ref : LexerRef} {state : Text}

/-! ## What is checked -/

theorem mem_ruleStates_of_target (leads : rule.target? = some state) : state ∈ ruleStates rule := by
  cases rule <;> cases leads <;> exact List.mem_singleton.2 rfl

/-- The states that a token refers to by itself, or by the items of its list. -/
def shallowStates : TokenSpec → List Text
  | .compound items => items.flatMap tokenStates
  | token => tokenStates token

theorem ruleStates_eq (stays : rule.target? = none) (named : rule.token? = some token) :
    ruleStates rule = shallowStates token := by
  cases rule with
  | nested pattern other target => cases stays
  | splice target => cases stays
  | literal pattern other | push pattern other | pop pattern other count =>
    cases named
    cases token <;> rfl
  | unknown raw pattern other =>
    obtain rfl : other = some token := named
    cases token <;> rfl

theorem mem_tokenStates (own : ref.lexer = LexerRef.this) (start : ref.state = some state) :
    state ∈ tokenStates (.dynamic ref) := by
  rw [tokenStates, if_pos own, start]
  exact List.mem_singleton.2 rfl

/-- The token of a rule that leads to no state is looked at down to the items of its list. -/
theorem mem_ruleStates_of_token {depth : Nat} (stays : rule.target? = none)
    (named : rule.token? = some token) (inside : token.RefersAt depth ref) (near : depth ≤ 1)
    (own : ref.lexer = LexerRef.this) (start : ref.state = some state) :
    state ∈ ruleStates rule := by
  rw [ruleStates_eq stays named]
  cases inside with
  | here => exact mem_tokenStates own start
  | item held deeper =>
    cases deeper with
    | here => exact List.mem_flatMap.2 ⟨_, held, mem_tokenStates own start⟩
    | item => omega

/-- The check passes just if every state that it sees is a state of the graph. -/
theorem referenceError?_eq_none_iff : referenceError? graph = none ↔
    ∀ entry ∈ graph, ∀ rule ∈ entry.2, ∀ state ∈ ruleStates rule,
      Table.has graph state = true := by
  simp only [referenceError?, undefinedState?, List.findSome?_eq_none_iff, Option.map_eq_none_iff,
    List.find?_eq_none, Bool.not_eq_true', Bool.not_eq_false]

end Entry

/-! ## What is loaded -/

namespace Language

variable {file : Text} {raw : Document} {language : Language}

/-- A loaded language has a root state, and the check on its references has passed. -/
theorem ofDocument_checked (loaded : ofDocument file raw = .ok language) :
    Table.has language.graph rootState = true ∧ Entry.referenceError? language.graph = none := by
  obtain ⟨-, fields, -, described⟩ := ofDocument_eq_ok_iff.1 loaded
  obtain ⟨states, -, root, graph⟩ := described.states
  rw [Table.has_iff, ← graph.keys_eq, ← Table.has_iff] at root
  exact ⟨root, described.closed⟩

/-- Every state that a rule leads to is checked. -/
theorem has_of_target (passed : Entry.referenceError? language.graph = none)
    {entry : Text × List Rule} (held : entry ∈ language.graph) {rule : Rule}
    (listed : rule ∈ entry.2) {state : Text} (leads : rule.target? = some state) :
    Table.has language.graph state = true :=
  Entry.referenceError?_eq_none_iff.1 passed entry held rule listed state
    (Entry.mem_ruleStates_of_target leads)

/-- What the token of a rule refers to is checked where the rule leads to no state, down to the items
of a list. -/
theorem has_of_token (passed : Entry.referenceError? language.graph = none)
    {entry : Text × List Rule} (held : entry ∈ language.graph) {rule : Rule}
    (listed : rule ∈ entry.2) {token : TokenSpec} {depth : Nat} {ref : LexerRef} {state : Text}
    (named : rule.token? = some token) (inside : token.RefersAt depth ref)
    (own : ref.lexer = LexerRef.this) (start : ref.state = some state)
    (stays : rule.target? = none) (near : depth ≤ 1) : Table.has language.graph state = true :=
  Entry.referenceError?_eq_none_iff.1 passed entry held rule listed state
    (Entry.mem_ruleStates_of_token stays named inside near own start)

/-- A compilation of a checked language finds a state missing only for an item that is left to
another language, or that belongs to a rule which leads to a state. -/
theorem lacks_of_compile {limits : Limits} {lookup : Text → Option Language} {e : GrammarError}
    (root : Table.has language.graph rootState = true)
    (passed : Entry.referenceError? language.graph = none)
    (failed : language.compile limits lookup = .error e) (unknown : e.fault.kind = .unknownState) :
    ∃ entry ∈ language.graph, ∃ rule ∈ entry.2, ∃ token ref, rule.token? = some token ∧
      token.RefersAt 1 ref ∧ Context.Lacks ⟨language, limits, lookup⟩ ref e.fault ∧
      (ref.lexer = LexerRef.this → rule.target? ≠ none ∧ ref.state ≠ none) := by
  obtain rootless | ⟨met, origin, same⟩ := compile_fails failed
  · rw [root] at rootless
    cases rootless
  rw [← same] at unknown ⊢
  cases origin with
  | room => cases unknown
  | unknown own => cases unknown
  | region own refused =>
    have unasked : Context.Asks ⟨language, limits, lookup⟩ [] met := Region.binding_asks refused
    obtain ⟨ref, listed, -⟩ := unasked.state unknown
    cases listed
  | target own leadsTo missing =>
    obtain ⟨rules, known, listed⟩ := own
    have has := has_of_target passed (Table.mem_of_get? known) listed leadsTo
    rw [Table.has, missing] at has
    cases has
  | @binding state pattern rule token leaves σ σ' e own matched named fails =>
    obtain ⟨rules, known, listed⟩ := own
    obtain ⟨ref, asked, lacks⟩ := (Body.bindAt_asks fails).state unknown
    have inside := TokenSpec.refersAt_of_mem_refs asked
    refine ⟨_, Table.mem_of_get? known, rule, listed, token, ref, named, inside, lacks, ?_⟩
    intro own
    obtain ⟨other, resolved, missing, -⟩ := lacks
    rw [Context.resolve, if_pos own] at resolved
    cases resolved
    cases start : ref.state with
    | none =>
      rw [start, Option.getD_none, root] at missing
      cases missing
    | some target =>
      rw [start, Option.getD_some] at missing
      refine ⟨fun stays => ?_, Option.some_ne_none _⟩
      have has := has_of_token passed (Table.mem_of_get? known) listed named inside own start stays
        (Nat.le_refl 1)
      rw [missing] at has
      cases has

/-- A loaded language has a root state and every state that a rule leads to. It has every state that
the token of a rule refers to, except where the rule leads to a state, and except in a list inside a
list. So a compilation finds a state missing only for an item of a rule's list that is left to
another language, or that belongs to a rule which leads to a state. -/
theorem ofDocument_refersTo (loaded : ofDocument file raw = .ok language) :
    Table.has language.graph rootState = true ∧
    (∀ entry ∈ language.graph, ∀ rule ∈ entry.2,
      (∀ state, rule.target? = some state → Table.has language.graph state = true) ∧
      ∀ token depth ref state, rule.token? = some token → token.RefersAt depth ref →
        ref.lexer = LexerRef.this → ref.state = some state →
        rule.target? = none → depth ≤ 1 → Table.has language.graph state = true) ∧
    ∀ limits lookup e, language.compile limits lookup = .error e →
      e.fault.kind = .unknownState →
      ∃ entry ∈ language.graph, ∃ rule ∈ entry.2, ∃ token ref, rule.token? = some token ∧
        token.RefersAt 1 ref ∧ Context.Lacks ⟨language, limits, lookup⟩ ref e.fault ∧
        (ref.lexer = LexerRef.this → rule.target? ≠ none ∧ ref.state ≠ none) := by
  obtain ⟨root, passed⟩ := ofDocument_checked loaded
  refine ⟨root, fun entry held rule listed => ⟨fun state leads => ?_, ?_⟩, ?_⟩
  · exact has_of_target passed held listed leads
  · intro token depth ref state named inside own start stays near
    exact has_of_token passed held listed named inside own start stays near
  · exact fun limits lookup e failed unknown => lacks_of_compile root passed failed unknown

/-- A document with two references to states that are missing: one in the token of a rule that leads
to a state, and one in a list inside a list. -/
def callsDocument : Document :=
  let call (state : Text) : Document :=
    .object [("bygroups", .list [.object [("using", .text "this"), ("state", .text state)]])]
  .object [("name", .text "calls"), ("tokens", .object [
    ("root", .list [.list [.text "(a)", call "first", .text "other"]]),
    ("other", .list [.list [.text "(b)", .object [("bygroups", .list [call "second"])]]])])]

/-- The language that is loaded from `callsDocument`. -/
def callsLanguage : Language where
  name := "calls"
  aliases := []
  filenames := []
  aliasFilenames := []
  graph := [
    ("root", [.nested "(a)" (.compound [.dynamic ⟨"this", some "first"⟩]) "other"]),
    ("other", [.literal "(b)" (.compound [.compound [.dynamic ⟨"this", some "second"⟩]])])]
  sourceFile := some "calls.lexer.json"

/-- All references of `callsLanguage` are to itself. -/
theorem callsLanguage_this :
    ∀ entry ∈ callsLanguage.graph, ∀ rule ∈ entry.2, ∀ token depth ref,
      rule.token? = some token → TokenSpec.RefersAt token depth ref →
        ref.lexer = LexerRef.this := by
  have single {item : TokenSpec} {items : List TokenSpec} (listed : items = [item])
      (inside : ∀ depth ref, item.RefersAt depth ref → ref.lexer = LexerRef.this) (depth : Nat)
      (ref : LexerRef) (refers : (TokenSpec.compound items).RefersAt depth ref) :
      ref.lexer = LexerRef.this := by
    subst listed
    cases refers with
    | item held deeper =>
      cases List.mem_singleton.1 held
      exact inside _ _ deeper
  have call (state : Text) (depth : Nat) (ref : LexerRef)
      (refers : (TokenSpec.dynamic ⟨"this", some state⟩).RefersAt depth ref) :
      ref.lexer = LexerRef.this := by
    cases refers
    rfl
  intro entry held rule listed token depth ref named refers
  obtain rfl | rfl : entry = _ ∨ entry = _ := by simpa [callsLanguage] using held
  · cases List.mem_singleton.1 listed
    cases named
    exact single rfl (call _) _ _ refers
  · cases List.mem_singleton.1 listed
    cases named
    exact single rfl (single rfl (call _)) _ _ refers

theorem compile_callsLanguage : ∃ e,
    callsLanguage.compile .standard (fun _ => none) = .error e ∧
      e.fault.kind = .unknownState := by
  have failed : (failure? (callsLanguage.compile .standard fun _ => none)).map (·.fault.kind) =
      some .unknownState := by
    decide +kernel
  cases compiled : callsLanguage.compile .standard fun _ => none with
  | ok compiledLanguage =>
    rw [compiled] at failed
    cases failed
  | error e =>
    rw [compiled] at failed
    exact ⟨e, rfl, Option.some.inj failed⟩

/-- The states that `callsLanguage` leads to are there, and the state that compiling it finds missing
is asked for by the token of a rule that leads to a state. -/
theorem ofDocument_refersTo_calls :
    ofDocument "calls.lexer.json" callsDocument = .ok callsLanguage ∧
    Table.has callsLanguage.graph rootState = true ∧
    Table.has callsLanguage.graph "other" = true ∧
    ∃ e, callsLanguage.compile .standard (fun _ => none) = .error e ∧
      ∃ entry ∈ callsLanguage.graph, ∃ rule ∈ entry.2, ∃ token ref, rule.token? = some token ∧
        token.RefersAt 1 ref ∧ Context.Lacks ⟨callsLanguage, .standard, fun _ => none⟩ ref e.fault ∧
        ref.lexer = LexerRef.this ∧ rule.target? ≠ none := by
  have loaded : ofDocument "calls.lexer.json" callsDocument = .ok callsLanguage := rfl
  obtain ⟨e, failed, unknown⟩ := compile_callsLanguage
  obtain ⟨root, closed, missing⟩ := ofDocument_refersTo loaded
  obtain ⟨entry, held, rule, listed, token, ref, named, inside, lacks, own⟩ :=
    missing _ _ e failed unknown
  have this := callsLanguage_this entry held rule listed token 1 ref named inside
  refine ⟨loaded, root, (closed _ List.mem_cons_self _ List.mem_cons_self).1 _ rfl, e, failed, ?_⟩
  exact ⟨entry, held, rule, listed, token, ref, named, inside, lacks, this, (own this).1⟩

/-- A document is loaded although its rules refer to states that it lacks, and compiling the language
ends at one of them, although the language leaves nothing to another one. -/
theorem ofDocument_calls_open :
    ofDocument "calls.lexer.json" callsDocument = .ok callsLanguage ∧
    ¬ callsLanguage.graph.Closed ∧
    ∃ e, callsLanguage.compile .standard (fun _ => none) = .error e ∧
      e.fault.kind = .unknownState ∧
      ∀ entry ∈ callsLanguage.graph, ∀ rule ∈ entry.2, ∀ token depth ref,
        rule.token? = some token → TokenSpec.RefersAt token depth ref →
          ref.lexer = LexerRef.this := by
  obtain ⟨e, failed, unknown⟩ := compile_callsLanguage
  refine ⟨rfl, fun closed => ?_, e, failed, unknown, callsLanguage_this⟩
  have refers : Rule.RefersTo
      (.nested "(a)" (.compound [.dynamic ⟨"this", some "first"⟩]) "other") "first" :=
    .token rfl (.item List.mem_cons_self .here) rfl rfl
  have has := closed _ List.mem_cons_self _ List.mem_cons_self _ refers
  revert has
  decide

end Language

end Highlight
