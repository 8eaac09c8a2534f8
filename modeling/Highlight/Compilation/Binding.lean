import Highlight.Compilation.Session
import Highlight.Pattern.Sample
import Highlight.Statement

/-!
# What a rule binds

The binding of a pattern and the token that a rule names for it. A rule that runs to the end of a
line becomes a line start, and one that says nothing beyond that is dropped. A list of tokens is
bound to the top-level groups of the pattern; where a token is left to another lexer, the longest
sample of the group is given to that lexer and its first token is taken.
-/

namespace Highlight

namespace Sampling

/-- Samples of a pattern within the limits; none if no sample is asked for. -/
def samples (pattern : Text) (candidates expansion : Number) : Except GrammarError (List Text) :=
  match Pattern.read pattern with
  | .error e => .error (.atOffset (.unsampled e) pattern e.offset)
  | .ok tree =>
    match tree.samples? (.ofNumbers candidates expansion) with
    | some samples => .ok samples
    | none => .error (.ofFault (.breakdown .badLength))

/-- The longest sample of a pattern within the limits, without line breaks. -/
def longestSample (pattern : Text) (candidates expansion : Number) : Except GrammarError Text :=
  (samples pattern candidates expansion).map longest

end Sampling

namespace Binding

/-- The pattern of a rule that matches the end of a line only. -/
def lineEndPattern : Text := "\\n"

/-- How the patterns end that run to the end of a line. -/
def lineRunningEndings : List Text := ["\\n", ".*"]

/-- Without the given ending. -/
def dropEnding (ending t : Text) : Text :=
  if ending.isSuffixOf t then t.take (t.length - ending.length) else t

/-- What stands in front of the part that runs to the end of the line, if there is such a part. -/
def lineLead? (pattern : Text) : Option Text :=
  (lineRunningEndings.find? (·.isSuffixOf pattern)).map fun ending =>
    dropEnding ".*" (dropEnding ending pattern)

/-- The binding of a pattern to one token, or nothing if the pattern only runs to the end of the
line. -/
def ofLiteral (pattern : Text) (token : TokenType) : Except GrammarError (Option Binding) :=
  match lineLead? pattern with
  | none => (Dialect.convert pattern).map fun pattern => some (.single token pattern)
  | some lead =>
    if lead = [] ∨ lead = Text.ofString "^" then .ok none
    else (Dialect.convert lead).map fun lead => some (.lineStart token lead)

end Binding

namespace Context

/-- The text that a group matches at the start of a sample. -/
def matchedSample (group sample : Text) : Except GrammarError Text :=
  match Regex.read? group with
  | none => .error (.atPattern (.invalidGroup group) group)
  | some e =>
    match e.matchAt false sample.toArray 0 with
    | none => .error (.atPattern (.unmatchedSample sample) group)
    | some found => .ok (sample.take found.position)

/-- The token that the referenced lexer gives to what a group matches. -/
def dynamicToken (ctx : Context) (group : Text) (ref : LexerRef) : Compilation TokenType := do
  let sample ← Compilation.ofExcept
    (Sampling.longestSample group ctx.limits.maxCandidates ctx.limits.expansionLimit)
  let text ← Compilation.ofExcept (matchedSample group sample)
  match ← ctx.firstToken ref text with
  | some token => pure token.type
  | none => throw (.atPattern (.noToken text) group)

end Context

namespace Binding

/-- The tokens of the groups of a pattern, where `index` groups came before. -/
def groupTokens (ctx : Context) (pattern : Text) :
    Nat → List Text → List TokenSpec → Compilation (List TokenType)
  | index, group :: rest, item :: items => do
    let token ← match item with
      | .literal token => pure token
      | .dynamic ref => ctx.dynamicToken group ref
      | .compound _ => throw (.atPattern (.nestedList (index + 1)) pattern)
    let tokens ← groupTokens ctx pattern (index + 1) rest items
    pure (token :: tokens)
  | _, _, _ => pure []

/-- The binding of a pattern to one token for each of its groups. -/
def ofGroups (ctx : Context) (pattern : Text) (items : List TokenSpec) : Compilation Binding := do
  let pattern ← Compilation.ofExcept (Dialect.convert pattern)
  let parts := Dialect.topLevelGroups pattern
  if parts.length ≠ items.length then
    throw (.atPattern (.groupCount parts.length items.length) pattern)
  let tokens ← groupTokens ctx pattern 0 parts items
  pure (.groups tokens pattern)

/-- The binding of a rule's pattern and token, or nothing if the rule is dropped. A rule that
leaves its state at the end of a line binds just that. -/
def ofPattern (ctx : Context) (pattern : Text) (token : TokenSpec) (leaves : Bool) :
    Compilation (Option Binding) :=
  match token with
  | .literal token =>
    if leaves ∧ pattern = lineEndPattern then pure (some (.lineEnd token))
    else Compilation.ofExcept (ofLiteral pattern token)
  | .compound items => do
    let binding ← ofGroups ctx pattern items
    pure (some binding)
  | .dynamic _ => throw (.atPattern .unboundDynamic pattern)

end Binding

end Highlight
