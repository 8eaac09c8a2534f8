import Highlight.Compilation.Binding
import Highlight.Proofs.Compilation.Step

/-!
# The bindings of a rule

`BoundTo` lists the bindings that a pattern and a token can get, each with what was checked on the
way. `ofPattern_boundTo` says that there are no others: a rule never binds a region, and a list of
tokens is as long as the list of groups of the converted pattern. A group that is left to another
lexer fails in its sample, in the match of it, in that lexer, or for want of a token
(`Context.dynamicToken_fails`).
-/

namespace Highlight

open Compilation

/-! ## The token of a group -/

/-- A pattern has no longest sample if it cannot be read, or if the search breaks down. -/
theorem Sampling.longestSample_eq_error {pattern : Text} {candidates limit : Number}
    {e : GrammarError} (failed : longestSample pattern candidates limit = .error e) :
    (∃ met, Pattern.read pattern = .error met ∧ e = .atOffset (.unsampled met) pattern met.offset) ∨
      e = .ofFault (.breakdown .badLength) := by
  have failed := except_map_eq_error_iff.1 failed
  unfold samples at failed
  split at failed
  · next met refused =>
    cases failed
    exact .inl ⟨met, refused, rfl⟩
  · split at failed <;> cases failed
    exact .inr rfl

namespace Context

variable {ctx : Context} {group sample : Text} {ref : LexerRef} {σ σ' : Session} {e : GrammarError}

theorem matchedSample_eq_error (failed : matchedSample group sample = .error e) :
    Regex.read? group = none ∧ e = .atPattern (.invalidGroup group) group ∨
      ∃ expression, Regex.read? group = some expression ∧
        expression.matchAt false sample.toArray 0 = none ∧
        e = .atPattern (.unmatchedSample sample) group := by
  unfold matchedSample at failed
  split at failed
  · next invalid =>
    cases failed
    exact .inl ⟨invalid, rfl⟩
  · next expression compiled =>
    split at failed
    · next unmatched =>
      cases failed
      exact .inr ⟨expression, compiled, unmatched, rfl⟩
    · cases failed

/-- The steps in which the token of a group can fail. -/
theorem dynamicToken_fails (fails : Fails (ctx.dynamicToken group ref) σ e σ') :
    Sampling.longestSample group ctx.limits.maxCandidates ctx.limits.expansionLimit = .error e ∨
      (∃ sample, Sampling.longestSample group ctx.limits.maxCandidates
          ctx.limits.expansionLimit = .ok sample ∧ matchedSample group sample = .error e) ∨
      (∃ text, Fails (ctx.firstToken ref text) σ e σ') ∨
      ∃ text, e = .atPattern (.noToken text) group := by
  obtain unsampled | ⟨sample, σ₁, drawn, behind⟩ := fails_bind_iff.1 fails
  · exact .inl (fails_ofExcept_iff.1 unsampled).1
  obtain ⟨sampled, rfl⟩ := yields_ofExcept_iff.1 drawn
  obtain unmatched | ⟨text, σ₂, cut, further⟩ := fails_bind_iff.1 behind
  · exact .inr (.inl ⟨sample, sampled, (fails_ofExcept_iff.1 unmatched).1⟩)
  obtain ⟨-, rfl⟩ := yields_ofExcept_iff.1 cut
  obtain broken | ⟨token, σ₃, -, last⟩ := fails_bind_iff.1 further
  · exact .inr (.inr (.inl ⟨text, broken⟩))
  · cases token with
    | none => exact .inr (.inr (.inr ⟨text, (fails_throw_iff.1 last).1⟩))
    | some token => exact absurd last not_fails_pure

end Context

namespace Binding

variable {ctx : Context} {σ σ' : Session}

/-- `tokens` has one token for each item, and an item that is a token stands for itself. -/
structure NamedBy (items : List TokenSpec) (tokens : List TokenType) : Prop where
  length_eq : items.length = tokens.length
  literal : ∀ (i : Nat) (token : TokenType),
    items[i]? = some (.literal token) → tokens[i]? = some token

theorem NamedBy.nil : NamedBy [] [] := ⟨rfl, by simp⟩

theorem NamedBy.cons {item : TokenSpec} {token : TokenType} {items : List TokenSpec}
    {tokens : List TokenType} (head : ∀ t, item = .literal t → token = t)
    (tail : NamedBy items tokens) : NamedBy (item :: items) (token :: tokens) where
  length_eq := by simp [tail.length_eq]
  literal i t h := by
    cases i with
    | zero =>
      have here := head t (by simpa using h)
      simpa using here
    | succ i => exact tail.literal i t (by simpa using h)

/-- The token of one group, the one after `index` others. -/
def itemToken (ctx : Context) (pattern : Text) (index : Nat) (group : Text) :
    TokenSpec → Compilation TokenType
  | .literal token => pure token
  | .dynamic ref => ctx.dynamicToken group ref
  | .compound _ => throw (.atPattern (.nestedList (index + 1)) pattern)

theorem groupTokens_cons {pattern : Text} {index : Nat} {part : Text} {parts : List Text}
    {item : TokenSpec} {items : List TokenSpec} :
    groupTokens ctx pattern index (part :: parts) (item :: items) = (do
      let token ← itemToken ctx pattern index part item
      let tokens ← groupTokens ctx pattern (index + 1) parts items
      pure (token :: tokens)) := by
  cases item <;> rfl

theorem groupTokens_namedBy {pattern : Text} {index : Nat} {parts : List Text}
    {items : List TokenSpec} {tokens : List TokenType} (same : parts.length = items.length)
    (h : Yields (groupTokens ctx pattern index parts items) σ tokens σ') :
    NamedBy items tokens := by
  induction items generalizing index parts tokens σ σ' with
  | nil =>
    cases parts with
    | nil =>
      obtain ⟨rfl, -⟩ := yields_pure_iff.1 h
      exact .nil
    | cons part parts => simp at same
  | cons item items ih =>
    cases parts with
    | nil => simp at same
    | cons part parts =>
      rw [groupTokens_cons] at h
      obtain ⟨token, σ₁, first, h⟩ := yields_bind_iff.1 h
      obtain ⟨rest, σ₂, others, h⟩ := yields_bind_iff.1 h
      obtain ⟨rfl, -⟩ := yields_pure_iff.1 h
      refine .cons ?_ (ih (by simpa using same) others)
      rintro t rfl
      exact (yields_pure_iff.1 first).1

/-- What a pattern can be bound to under a token, or a list of tokens. -/
inductive BoundTo (pattern : Text) : TokenSpec → Binding → Prop where
  | lineEnd {token : TokenType} (line : pattern = lineEndPattern) :
    BoundTo pattern (.literal token) (.lineEnd token)
  | single {token : TokenType} {converted : Text} (whole : lineLead? pattern = none)
    (convert : Dialect.convert pattern = .ok converted) :
    BoundTo pattern (.literal token) (.single token converted)
  | lineStart {token : TokenType} {lead converted : Text} (front : lineLead? pattern = some lead)
    (convert : Dialect.convert lead = .ok converted) :
    BoundTo pattern (.literal token) (.lineStart token converted)
  | groups {items : List TokenSpec} {tokens : List TokenType} {converted : Text}
    (convert : Dialect.convert pattern = .ok converted)
    (length_eq : tokens.length = (Dialect.topLevelGroups converted).length)
    (named : NamedBy items tokens) :
    BoundTo pattern (.compound items) (.groups tokens converted)

theorem ofLiteral_boundTo {pattern : Text} {token : TokenType} {binding : Binding}
    (h : ofLiteral pattern token = .ok (some binding)) :
    BoundTo pattern (.literal token) binding := by
  unfold ofLiteral at h
  split at h
  · next whole =>
    cases convert : Dialect.convert pattern with
    | error e => rw [convert] at h; cases h
    | ok converted => rw [convert] at h; cases h; exact .single whole convert
  · next lead front =>
    split at h
    · cases h
    · cases convert : Dialect.convert lead with
      | error e => rw [convert] at h; cases h
      | ok converted => rw [convert] at h; cases h; exact .lineStart front convert

theorem ofGroups_boundTo {pattern : Text} {items : List TokenSpec} {binding : Binding}
    (h : Yields (ofGroups ctx pattern items) σ binding σ') :
    BoundTo pattern (.compound items) binding := by
  obtain ⟨converted, σ₁, convert, rest⟩ := yields_bind_iff.1 h
  have convert := (yields_ofExcept_iff.1 convert).1
  by_cases same : (Dialect.topLevelGroups converted).length = items.length
  · simp only [ne_eq, same, not_true_eq_false, if_false] at rest
    obtain ⟨tokens, σ₂, named, last⟩ := yields_bind_iff.1 rest
    obtain ⟨rfl, -⟩ := yields_pure_iff.1 last
    have named := groupTokens_namedBy same named
    exact .groups convert (by rw [same, named.length_eq]) named
  · simp only [ne_eq, same, not_false_eq_true, if_true] at rest
    obtain ⟨_, _, stop, _⟩ := yields_bind_iff.1 rest
    exact absurd stop not_yields_throw

/-- A binding that a rule gets is one of those listed. -/
theorem ofPattern_boundTo {pattern : Text} {token : TokenSpec} {leaves : Bool} {binding : Binding}
    (h : Yields (ofPattern ctx pattern token leaves) σ (some binding) σ') :
    BoundTo pattern token binding := by
  cases token with
  | literal token =>
    simp only [ofPattern] at h
    split at h
    · next line =>
      obtain ⟨same, -⟩ := yields_pure_iff.1 h
      cases same
      exact .lineEnd line.2
    · exact ofLiteral_boundTo (yields_ofExcept_iff.1 h).1
  | compound items =>
    obtain ⟨found, σ₁, groups, h⟩ := yields_bind_iff.1 h
    obtain ⟨same, -⟩ := yields_pure_iff.1 h
    cases same
    exact ofGroups_boundTo groups
  | dynamic ref => exact absurd h not_yields_throw

end Binding

end Highlight
