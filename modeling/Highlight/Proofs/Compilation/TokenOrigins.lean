import Highlight.Catalogue.Registry
import Highlight.Proofs.Compilation.EmittedPatterns
import Highlight.Proofs.Compilation.History
import Highlight.Proofs.Compilation.RuleOrder
import Highlight.Proofs.SubLexer.TokenTypes

/-!
# Where the tokens of a language come from

A binding takes its tokens from the rule that is bound, and from the lexers that the rule leaves
groups to. A session keeps lexers only of languages that a rule names, whatever keys they are kept
under (`Context.KeepsUsed`), so what they give is named by a rule of such a language, or plain text,
or the mark of an error, or the number of a rule that names nothing (`Language.compile_tokens`).
-/

namespace Highlight

open Compilation

/-- The references that are asked when the rules of a language are bound. -/
def Language.refs (language : Language) : List LexerRef :=
  language.graph.flatMap fun entry => entry.2.flatMap Rule.refs

/-- The tokens of a binding. -/
def Binding.tokens : Binding → List TokenType
  | single token _ | lineEnd token | lineStart token _ | region token _ _ _ => [token]
  | groups tokens _ => tokens

/-- A token that a lexer of a language gives first is of a type that such lexers give. -/
theorem SubLexer.firstToken_gives {language : Language} {start text : Text} {lexer : SubLexer}
    {token : Token} (built : build language start = .ok lexer)
    (given : lexer.firstToken text = .ok (some token)) : Gives language token.type := by
  unfold firstToken at given
  split at given
  · cases given
  · next found next =>
    obtain ⟨⟨first, after⟩, here, rfl⟩ := Option.map_eq_some_iff.1 (Except.ok.inj given)
    rw [here] at next
    obtain ⟨-, rfl, -⟩ := Run.next_eq_some next
    exact step_gives built _ _

namespace Context

variable {ctx : Context} {other : Language} {ref : LexerRef} {token : TokenType}

/-- A rule of the language leaves a group to the other language. -/
def Uses (ctx : Context) (other : Language) : Prop :=
  ∃ ref ∈ ctx.language.refs, ctx.resolve ref = .ok other

/-- Where a token of the compiled language can come from: a rule of the language, or a lexer of a
language that it uses. -/
inductive Supplies (ctx : Context) : TokenType → Prop where
  | own {token : TokenType} (names : token ∈ ctx.language.named) : Supplies ctx token
  | lexer {other : Language} {token : TokenType} (uses : ctx.Uses other)
    (gives : SubLexer.Gives other token) : Supplies ctx token

/-- Every lexer of the session was built for a language in use. -/
def KeepsUsed (ctx : Context) (σ : Session) : Prop :=
  ∀ key lexer, σ.lexer? key = some lexer →
    ∃ other state, ctx.Uses other ∧ SubLexer.build other state = .ok lexer

theorem keepsUsed_nil : ctx.KeepsUsed [] := by
  intro key lexer kept
  cases kept

theorem resolve_of_located {state : Text} (found : ctx.located ref = .ok (other, state)) :
    ctx.resolve ref = .ok other := by
  obtain ⟨language, resolved, found⟩ := except_bind_eq_ok_iff.1 found
  dsimp only at found
  split at found
  · cases found
    exact resolved
  · cases found

theorem firstToken_ensures (uses : ∀ other, ctx.resolve ref = .ok other → ctx.Uses other)
    (text : Text) : Ensures ctx.KeepsUsed (fun found => ∀ token ∈ found, ctx.Supplies token.type)
      (ctx.firstToken ref text) := by
  intro σ found σ' kept yields
  constructor
  · rintro token rfl
    have result := ctx.firstToken_run ref text σ
    rw [yields] at result
    cases place : ctx.located ref with
    | error e =>
      rw [place] at result
      cases result
    | ok located =>
      obtain ⟨other, state⟩ := located
      have inUse := uses other (resolve_of_located place)
      rw [place] at result
      dsimp only at result
      -- The lexer is kept under a key that another language may have left it under, so its own
      -- language comes from the session and not from the reference.
      split at result
      · next lexer held =>
        obtain ⟨owner, start, ownerUsed, built⟩ := kept _ _ held
        exact .lexer ownerUsed (SubLexer.firstToken_gives built result.symm)
      · split at result
        · cases result
        · next built => exact .lexer inUse (SubLexer.firstToken_gives built result.symm)
  · intro key lexer held
    have same := ctx.firstToken_lexer? ref text σ key
    rw [yields] at same
    rw [same] at held
    obtain before | ⟨other, state, built, place, -, -, build, added⟩ :=
      ctx.invoke_lexer? ref text σ key
    · rw [before] at held
      exact kept key lexer held
    · rw [added] at held
      cases held
      exact ⟨other, state, uses other (resolve_of_located place), build⟩

theorem dynamicToken_ensures (uses : ∀ other, ctx.resolve ref = .ok other → ctx.Uses other)
    (group : Text) : Ensures ctx.KeepsUsed ctx.Supplies (ctx.dynamicToken group ref) := by
  unfold dynamicToken
  apply (ensures_ofExcept (P := fun _ => True) fun _ _ => trivial).bind
  intro sample _
  apply (ensures_ofExcept (P := fun _ => True) fun _ _ => trivial).bind
  intro text _
  apply (firstToken_ensures uses text).bind
  intro found supplied
  cases found with
  | none => exact ensures_throw
  | some token => exact ensures_pure (supplied token rfl)

end Context

open Context

variable {ctx : Context}

/-! ## Rules -/

/-- What a binding needs of a spec: the tokens that it names are supplied, and the languages that it
refers to are in use. -/
structure TokenSpec.Fits (ctx : Context) (spec : TokenSpec) : Prop where
  named : ∀ token ∈ spec.named, ctx.Supplies token
  refs : ∀ ref ∈ spec.refs, ∀ other, ctx.resolve ref = .ok other → ctx.Uses other

/-- The spec of a rule of the language fits. -/
theorem TokenSpec.fits {state : Text} {rule : Rule} {spec : TokenSpec}
    (own : Body.HasRule ctx.language.graph state rule) (bears : rule.token? = some spec) :
    spec.Fits ctx := by
  obtain ⟨rules, known, listed⟩ := own
  have held := Table.mem_of_get? known
  refine ⟨fun token names => .own (Language.mem_named held listed bears names), ?_⟩
  intro ref asked other resolved
  refine ⟨ref, List.mem_flatMap.2 ⟨_, held, List.mem_flatMap.2 ⟨rule, listed, ?_⟩⟩, resolved⟩
  rw [Rule.refs, bears]
  exact asked

namespace Binding

theorem groupTokens_ensures (pattern : Text) (index : Nat) (parts : List Text)
    {items : List TokenSpec} (fits : (TokenSpec.compound items).Fits ctx) :
    Ensures ctx.KeepsUsed (fun tokens => ∀ token ∈ tokens, ctx.Supplies token)
      (groupTokens ctx pattern index parts items) := by
  induction items generalizing index parts with
  | nil => cases parts <;> exact ensures_pure nofun
  | cons item items ih =>
    cases parts with
    | nil => exact ensures_pure nofun
    | cons part parts =>
      have rest : (TokenSpec.compound items).Fits ctx := by
        refine ⟨fun token names => fits.named token ?_, fun ref asked => fits.refs ref ?_⟩
        · rw [TokenSpec.mem_named_compound] at names ⊢
          exact List.mem_cons_of_mem _ names
        · obtain ⟨other, held, same⟩ := List.mem_filterMap.1 asked
          exact List.mem_filterMap.2 ⟨other, List.mem_cons_of_mem _ held, same⟩
      have here : Ensures ctx.KeepsUsed ctx.Supplies (itemToken ctx pattern index part item) := by
        cases item with
        | literal token =>
          exact ensures_pure
            (fits.named token (TokenSpec.mem_named_compound.2 List.mem_cons_self))
        | compound items => exact ensures_throw
        | dynamic ref =>
          apply dynamicToken_ensures
          exact fits.refs ref (List.mem_filterMap.2 ⟨_, List.mem_cons_self, rfl⟩)
      rw [groupTokens_cons]
      refine here.bind fun token supplied => (ih _ _ rest).bind fun tokens others => ?_
      exact ensures_pure (List.forall_mem_cons.2 ⟨supplied, others⟩)

/-- The tokens that a binding binds are supplied. -/
def Supplied (ctx : Context) (binding : Binding) : Prop :=
  ∀ token ∈ binding.tokens, ctx.Supplies token

theorem ofGroups_ensures (pattern : Text) {items : List TokenSpec}
    (fits : (TokenSpec.compound items).Fits ctx) :
    Ensures ctx.KeepsUsed (Supplied ctx) (ofGroups ctx pattern items) := by
  apply (ensures_ofExcept (P := fun _ => True) fun _ _ => trivial).bind
  intro converted _
  have bound : Ensures ctx.KeepsUsed (Supplied ctx)
      (groupTokens ctx converted 0 (Dialect.topLevelGroups converted) items >>= fun tokens =>
        pure (Binding.groups tokens converted)) :=
    (groupTokens_ensures converted 0 _ fits).bind fun tokens supplied => ensures_pure supplied
  by_cases same : (Dialect.topLevelGroups converted).length = items.length
  · simpa only [ne_eq, same, not_true_eq_false, if_false] using bound
  · simp only [ne_eq, same, not_false_eq_true, if_true]
    exact (ensures_throw (P := fun _ => True)).bind fun _ _ => bound

theorem ofPattern_ensures (pattern : Text) {token : TokenSpec} (leaves : Bool)
    (fits : token.Fits ctx) :
    Ensures ctx.KeepsUsed (fun found => ∀ binding ∈ found, Supplied ctx binding)
      (ofPattern ctx pattern token leaves) := by
  cases token with
  | literal token =>
    have own : ∀ binding : Binding, binding.tokens = [token] → Supplied ctx binding := by
      intro binding same other held
      rw [same, List.mem_singleton] at held
      rw [held]
      exact fits.named token (List.mem_singleton.2 rfl)
    unfold ofPattern
    dsimp only
    split
    · exact ensures_pure fun binding same => Option.some.inj same ▸ own _ rfl
    · refine ensures_ofExcept ?_
      rintro found given binding rfl
      obtain ⟨_, _⟩ | _ := ofLiteral_boundTo given <;> exact own _ rfl
  | compound items =>
    apply (ofGroups_ensures pattern fits).bind
    exact fun binding supplied => ensures_pure fun other same => Option.some.inj same ▸ supplied
  | dynamic ref => exact ensures_throw

end Binding

/-- A region takes its token from a rule that enters the state. -/
theorem Region.binding_supplied {state : Text} {rules : List Rule} {found : Binding}
    (own : Table.get? ctx.language.graph state = some rules)
    (drawn : binding state (.ofRules rules) = .ok found) : found.Supplied ctx := by
  unfold binding at drawn
  split at drawn
  · next first rest _ _ enters _ =>
    obtain ⟨token, named, drawn⟩ := except_bind_eq_ok_iff.1 drawn
    obtain ⟨entering, -, drawn⟩ := except_bind_eq_ok_iff.1 drawn
    obtain ⟨leaving, -, drawn⟩ := except_bind_eq_ok_iff.1 drawn
    cases drawn
    unfold tokenOf at named
    split at named
    · next spec =>
      cases named
      have listed : first ∈ (RegionRules.ofRules rules).entering := enters ▸ List.mem_cons_self
      have owned : Body.HasRule ctx.language.graph state first :=
        ⟨rules, own, (List.mem_filter.1 listed).1⟩
      have fits := TokenSpec.fits owned spec
      intro other held
      rw [List.mem_singleton.1 held]
      exact fits.named _ (List.mem_singleton.2 rfl)
    · cases named
  · cases drawn

namespace Body

variable {state : Text} {list : List Rule} {depth : Nat}

/-- The tokens that a list of statements binds are supplied. -/
def Supplied (ctx : Context) (lines : List Statement) : Prop :=
  ∀ s ∈ lines, ∀ binding, s.binding? = some binding → binding.Supplied ctx

theorem supplied_nil : Supplied ctx [] := nofun

theorem Supplied.cons {s : Statement} {lines : List Statement}
    (first : ∀ binding, s.binding? = some binding → binding.Supplied ctx)
    (rest : Supplied ctx lines) : Supplied ctx (s :: lines) :=
  List.forall_mem_cons.2 ⟨first, rest⟩

theorem Supplied.append {xs ys : List Statement} (front : Supplied ctx xs)
    (back : Supplied ctx ys) : Supplied ctx (xs ++ ys) :=
  List.forall_mem_append.2 ⟨front, back⟩

/-- A block is supplied if its head and what stands inside are. -/
theorem Supplied.block {binding : Binding} {inner : List Statement} (text : Text)
    (head : binding.Supplied ctx) (inside : Supplied ctx inner) :
    Supplied ctx (.comment depth text :: .blockStart depth binding ::
      inner ++ [.blockEnd depth]) := by
  refine .cons nofun (.append (.cons ?_ inside) (.cons nofun supplied_nil))
  rintro other same
  cases same
  exact head

theorem supplied_toList {found : Option Binding} {line : Binding → Statement}
    (binds : ∀ binding, (line binding).binding? = some binding)
    (supplied : ∀ binding ∈ found, binding.Supplied ctx) :
    Supplied ctx (found.toList.map line) := by
  intro s held binding bound
  obtain ⟨other, listed, rfl⟩ := List.mem_map.1 held
  rw [binds other] at bound
  cases bound
  exact supplied binding (Option.mem_toList.1 listed)

theorem bindAt_ensures (pattern : Text) {token : TokenSpec} (leaves : Bool)
    (fits : token.Fits ctx) :
    Ensures ctx.KeepsUsed (fun found => ∀ binding ∈ found, binding.Supplied ctx)
      (bindAt ctx state pattern token leaves) :=
  (Binding.ofPattern_ensures pattern leaves fits).within

/-- One rule gives supplied statements if the state that it leads to and the region do. -/
theorem ofRule_ensures {other : Text → Nat → Compilation (List Statement)}
    {region : Compilation (List Statement)} {hasRegion first : Bool} {rule : Rule}
    (own : HasRule ctx.language.graph state rule)
    (others : ∀ target depth, Ensures ctx.KeepsUsed (Supplied ctx) (other target depth))
    (drawn : rule.isPush = true → Ensures ctx.KeepsUsed (Supplied ctx) region) :
    Ensures ctx.KeepsUsed (Supplied ctx)
      (ofRule ctx other region state hasRegion first depth rule) := by
  cases rule with
  | splice target => exact others target depth
  | literal pattern token =>
    apply (bindAt_ensures pattern false (TokenSpec.fits own rfl)).bind
    exact fun found supplied => ensures_pure (supplied_toList (fun _ => rfl) supplied)
  | nested pattern token target =>
    apply (bindAt_ensures pattern false (TokenSpec.fits own rfl)).bind
    intro found supplied
    cases found with
    | none => exact others target depth
    | some binding =>
      apply (others target (depth + 1)).bind
      exact fun inner inside => ensures_pure (.block _ (supplied binding rfl) inside)
  | push pattern token =>
    cases first with
    | true => exact drawn rfl
    | false => exact ensures_pure supplied_nil
  | pop pattern token count =>
    cases hasRegion with
    | true => exact ensures_pure supplied_nil
    | false =>
      apply (bindAt_ensures pattern true (TokenSpec.fits own rfl)).bind
      exact fun found supplied => ensures_pure (supplied_toList (fun _ => rfl) supplied)
  | unknown raw pattern token => exact ensures_throw

theorem ofRules_ensures {one : Bool → Rule → Compilation (List Statement)}
    (each : ∀ first, ∀ rule ∈ list, Ensures ctx.KeepsUsed (Supplied ctx) (one first rule))
    (first : Bool) : Ensures ctx.KeepsUsed (Supplied ctx) (ofRules one first list) := by
  induction list generalizing first with
  | nil => exact ensures_pure supplied_nil
  | cons rule rest ih =>
    apply (each first rule List.mem_cons_self).bind
    intro here front
    apply (ih (fun first rule held => each first rule (List.mem_cons_of_mem _ held)) _).bind
    exact fun there back => ensures_pure (front.append back)

theorem ofList_ensures (room : Nat) (owned : Owned ctx.language.graph state list) :
    Ensures ctx.KeepsUsed (Supplied ctx) (ofList ctx room state list depth) := by
  -- By induction on the room: other states and the rest of a region are compiled with less of it.
  induction room generalizing state list depth with
  | zero => exact ensures_throw
  | succ room ih =>
    rw [ofList_succ]
    refine ofRules_ensures (fun first rule held => ?_) true
    refine ofRule_ensures (owned.hasRule held) (fun target depth => ?_) fun push => ?_
    · apply (ensures_ofExcept (P := fun rules => ctx.rulesOf target = .ok rules)
        fun _ found => found).bind
      intro rules found
      exact ih ⟨rules, Context.rulesOf_eq_ok_iff.1 found, .inl rfl⟩
    · have own := owned.whole held push
      apply (ensures_ofExcept (P := fun found => found.Supplied ctx)
        fun _ drawn => Region.binding_supplied own drawn).bind
      intro binding supplied
      split
      · refine ensures_pure (.cons ?_ supplied_nil)
        rintro other same
        cases same
        exact supplied
      · apply (ih ⟨_, own, .inr rfl⟩).bind
        exact fun inner inside => ensures_pure (.block _ supplied inside)

end Body

namespace Language

variable {language : Language} {limits : Limits} {lookup : Text → Option Language}
  {compiled : CompiledLanguage}

theorem compile_supplied (compiles : language.compile limits lookup = .ok compiled) :
    Body.Supplied ⟨language, limits, lookup⟩ compiled.statements := by
  obtain ⟨-, σ, yields⟩ := compile_eq_ok_iff.1 compiles
  obtain ⟨rules, σ₁, known, inside⟩ := yields_bind_iff.1 yields
  obtain ⟨found, rfl⟩ := yields_ofExcept_iff.1 known
  have own := Context.rulesOf_eq_ok_iff.1 found
  exact (Body.ofList_ensures _ ⟨rules, own, .inl rfl⟩ _ _ _ Context.keepsUsed_nil inside).1

/-- Every token that a compiled language binds is named by a rule of the language, or of a language
that it uses, or it is the token of plain text or of an error. The one other token that there can
be is the number of a rule of a language in use, where that rule names an empty token. -/
theorem compile_tokens (compiles : language.compile limits lookup = .ok compiled) :
    ∀ s ∈ compiled.statements, ∀ binding, s.binding? = some binding → ∀ token ∈ binding.tokens,
      (token ∈ language.named ∨
        (∃ other, Context.Uses ⟨language, limits, lookup⟩ other ∧ token ∈ other.named) ∨
        token = .text ∨ token = .error) ∨
      ∃ other index, Context.Uses ⟨language, limits, lookup⟩ other ∧
        SubLexer.Unnamed other index ∧ token = LexerFault.ruleName index := by
  intro s held binding binds token bound
  cases compile_supplied compiles s held binding binds token bound with
  | own names => exact .inl (.inl names)
  | @lexer other _ uses gives =>
    cases gives with
    | text => exact .inl (.inr (.inr (.inl rfl)))
    | error => exact .inl (.inr (.inr (.inr rfl)))
    | named names => exact .inl (.inr (.inl ⟨other, uses, names⟩))
    | numbered unnamed => exact .inr ⟨other, _, uses, unnamed, rfl⟩

/-- A document of a language that leaves groups to another language and to a state of its own. One
rule of this state names an empty token, and no rule matches the letter that the last group does. -/
def mixingDocument : Document :=
  let call (lexer state : Text) : Document :=
    .object [("using", .text lexer), ("state", .text state)]
  .object [("name", .text "mixing"), ("tokens", .object [
    ("root", .list [.list [.text "(x)(1)(,)(y)", .object [("bygroups", .list
      [.text "X", call "digits" "root", call "this" "marks", call "this" "marks"])]]]),
    ("marks", .list [.list [.text ";", .text "Mark"], .list [.text ",", .text ""]])])]

/-- The language that is loaded from `mixingDocument`. -/
def mixing : Language where
  name := "mixing"
  aliases := []
  filenames := []
  aliasFilenames := []
  graph := [
    ("root", [.literal "(x)(1)(,)(y)" (.compound [.literal "X", .dynamic ⟨"digits", some "root"⟩,
      .dynamic ⟨"this", some "marks"⟩, .dynamic ⟨"this", some "marks"⟩])]),
    ("marks", [.literal ";" (.literal "Mark"), .literal "," (.literal "")])]
  sourceFile := some "mixing.lexer.json"

/-- The languages beside `mixing`. -/
def mixingLookup (name : Text) : Option Language := Registry.get? ⟨[mixing, Act.digits]⟩ name

theorem compile_mixing : ∃ compiled, mixing.compile .standard mixingLookup = .ok compiled ∧
    compiled.statements =
      [.rule 0 (.groups ["X", "Digit", "rule1", "Token.Error"] "(x)(1)(,)(y)")] := by
  have made : ((mixing.compile .standard mixingLookup).toOption.map (·.statements)) =
      some [.rule 0 (.groups ["X", "Digit", "rule1", "Token.Error"] "(x)(1)(,)(y)")] := by
    decide +kernel
  obtain ⟨compiled, compiles, lines⟩ := Option.map_eq_some_iff.1 made
  exact ⟨compiled, eq_ok_of_toOption compiles, lines⟩

/-- `mixing` binds tokens of three origins and the number of a rule. -/
theorem compile_tokens_mixing : ∃ compiled,
    mixing.compile .standard mixingLookup = .ok compiled ∧ compiled.statements ≠ [] ∧
    ∀ s ∈ compiled.statements, ∀ binding, s.binding? = some binding → ∀ token ∈ binding.tokens,
      (token ∈ mixing.named ∨
        (∃ other, Context.Uses ⟨mixing, .standard, mixingLookup⟩ other ∧ token ∈ other.named) ∨
        token = .text ∨ token = .error) ∨
      ∃ other index, Context.Uses ⟨mixing, .standard, mixingLookup⟩ other ∧
        SubLexer.Unnamed other index ∧ token = LexerFault.ruleName index := by
  obtain ⟨compiled, compiles, lines⟩ := compile_mixing
  exact ⟨compiled, compiles, lines ▸ List.cons_ne_nil _ _, compile_tokens compiles⟩

/-- The languages that `mixing` uses are itself and the digits. -/
theorem uses_mixing {other : Language}
    (uses : Context.Uses ⟨mixing, .standard, mixingLookup⟩ other) :
    other = mixing ∨ other = Act.digits := by
  obtain ⟨ref, asked, resolved⟩ := uses
  have refs : mixing.refs =
      [⟨"digits", some "root"⟩, ⟨"this", some "marks"⟩, ⟨"this", some "marks"⟩] := rfl
  rw [refs] at asked
  simp only [List.mem_cons, List.not_mem_nil, or_false] at asked
  obtain rfl | rfl | rfl := asked
  · exact .inr (Except.ok.inj resolved).symm
  · exact .inl (Except.ok.inj resolved).symm
  · exact .inl (Except.ok.inj resolved).symm

/-- The number of a rule is bound in `mixing`, a name that no language in use has. -/
theorem compile_tokens_numbered :
    Language.ofDocument "mixing.lexer.json" mixingDocument = .ok mixing ∧
    ∃ compiled, mixing.compile .standard mixingLookup = .ok compiled ∧
      ∃ s ∈ compiled.statements, ∃ binding, s.binding? = some binding ∧
        ∃ token ∈ binding.tokens, token ∉ mixing.named ∧
          (∀ other, Context.Uses ⟨mixing, .standard, mixingLookup⟩ other → token ∉ other.named) ∧
          token ≠ .text ∧ token ≠ .error := by
  obtain ⟨compiled, compiles, lines⟩ := compile_mixing
  refine ⟨rfl, compiled, compiles, _, lines ▸ List.mem_cons_self, _, rfl, "rule1", ?_, ?_, ?_, ?_⟩
  · decide
  · decide
  · intro other uses
    obtain rfl | rfl := uses_mixing uses <;> decide
  · decide

end Language

end Highlight
