import Highlight.Proofs.SubLexer.Expansion
import Highlight.Proofs.SubLexer.Joined

/-!
# The types of tokens

A lexer takes the type of a token from the rule that matched: a type that the rule names, or plain
text where it names none. No type that comes out is empty. In its place stands the number of the
rule, with a name that the language need not know (`SubLexer.step_gives`).
-/

namespace Highlight

/-- The tokens that a spec names: its own, or those of the items of its list. -/
def TokenSpec.named : TokenSpec → List TokenType
  | literal token => [token]
  | compound items => items.filterMap fun
    | literal token => some token
    | _ => none
  | dynamic _ => []

theorem TokenSpec.mem_named_compound {items : List TokenSpec} {token : TokenType} :
    token ∈ (compound items).named ↔ literal token ∈ items := by
  rw [named, List.mem_filterMap]
  constructor
  · rintro ⟨item, held, same⟩
    cases item with
    | literal other =>
      cases same
      exact held
    | _ => cases same
  · exact fun held => ⟨_, held, rfl⟩

/-- The tokens that the rules of a language name. -/
def Language.named (language : Language) : List TokenType :=
  language.graph.flatMap fun entry =>
    entry.2.flatMap fun rule => (rule.token?.map TokenSpec.named).getD []

theorem Language.mem_named {language : Language} {entry : Text × List Rule} {rule : Rule}
    {spec : TokenSpec} {token : TokenType} (held : entry ∈ language.graph)
    (listed : rule ∈ entry.2) (bears : rule.token? = some spec) (names : token ∈ spec.named) :
    token ∈ language.named := by
  refine List.mem_flatMap.2 ⟨entry, held, List.mem_flatMap.2 ⟨rule, listed, ?_⟩⟩
  rw [bears]
  exact names

namespace SubLexer

variable {language : Language} {start : Text} {lexer : SubLexer}

/-- A rule of the language, by its place among the rules that a state runs, names an empty token. -/
def Unnamed (language : Language) (index : Nat) : Prop :=
  ∃ state rule spec, (flatten language.graph state)[index]? = some rule ∧
    rule.token? = some spec ∧ [] ∈ spec.named

/-- The types of the tokens that a lexer of a language gives. -/
inductive Gives (language : Language) : TokenType → Prop where
  | text : Gives language .text
  | error : Gives language .error
  | named {token : TokenType} (names : token ∈ language.named) (filled : token ≠ []) :
    Gives language token
  | numbered {index : Nat} (unnamed : Unnamed language index) :
    Gives language (LexerFault.ruleName index)

/-- The token by groups is that of an item, or plain text. -/
theorem ofGroups_named (found : Regex.State) (index : Nat) (items : List TokenSpec) :
    Naming.ofGroups found index items = .text ∨
      Naming.ofGroups found index items ∈ (TokenSpec.compound items).named := by
  rw [TokenSpec.mem_named_compound]
  induction items generalizing index with
  | nil => exact .inl rfl
  | cons item items ih =>
    unfold Naming.ofGroups
    split
    · exact (ih (index + 1)).imp_right (List.mem_cons_of_mem _)
    · split
      · exact .inr List.mem_cons_self
      · exact .inl rfl

/-- What a rule that is ready to run names is named by its spec, or plain text. -/
theorem naming_of_compileRule {state pattern : Text} {index : Nat} {token : Option TokenSpec}
    {move : Move} {ready : LexRule}
    (made : compileRule state index pattern token move = .ok (some ready)) :
    ∃ spec, token = some spec ∧
      ∀ text, ready.naming.token text = .text ∨ ready.naming.token text ∈ spec.named := by
  unfold compileRule at made
  dsimp only at made
  split at made
  · cases made
  · split at made
    · cases made
    · split at made
      · cases made
      · cases made
        exact ⟨_, rfl, fun _ => .inr (List.mem_singleton.2 rfl)⟩
      · cases made
        exact ⟨_, rfl, fun _ => .inl rfl⟩
      · split at made
        · cases made
        · cases made
          refine ⟨_, rfl, fun text => ?_⟩
          unfold Naming.token
          dsimp only
          split
          · exact ofGroups_named _ _ _
          · exact .inl rfl

/-- A step of a lexer gives a token of a type that the lexers of its language give. -/
theorem step_gives (built : build language start = .ok lexer) (text : Array CodeUnit)
    (m : Machine) : Gives language (lexer.step text m).1.type := by
  unfold step
  split
  · exact .error
  · next rule stop found =>
    obtain ⟨active, listed, rfl⟩ := mem_of_firstMatch found
    obtain ⟨entry, inside, listed⟩ := entry_of_rulesOf listed
    obtain ⟨rules, compiled, same⟩ := states_of_build built inside
    rw [same] at listed
    obtain ⟨ready, held, rfl⟩ := List.mem_map.1 listed
    obtain ⟨rule, pattern, placed, -, made⟩ := exists_of_compileState compiled held
    obtain ⟨spec, bears, names⟩ := naming_of_compileRule made
    obtain ⟨-, entry', own, stands⟩ := mem_flatten (List.mem_of_getElem? placed)
    unfold tokenOf
    dsimp only
    obtain plain | names := names (slice text m.position stop)
    · rw [plain, if_neg (by decide)]
      exact .text
    · split
      · next empty =>
        rw [List.isEmpty_iff] at empty
        rw [empty] at names
        exact .numbered ⟨entry.1, rule, spec, placed, bears, names⟩
      · next filled =>
        rw [List.isEmpty_iff] at filled
        exact .named (Language.mem_named own stands bears names) filled

end SubLexer

end Highlight
