import Highlight.SubLexer.Machine

/-!
# The session of a compilation

A compilation sees one language, the limits in force, and the other languages of the catalogue. It
may run sub-lexers. Each is built once and kept in a session under the name of its language and
its start state, together with the text and the place of its current run. Several streams may read
from one sub-lexer: a stream starts the run on its own text when its first token is asked for, and
from then on every stream on that sub-lexer goes on from the one place.
-/

namespace Highlight

/-- Bounds on the work for one language. -/
structure Limits where
  /-- Rule lists that may be at work at one time. -/
  maxDepth : Number
  /-- Samples taken of a group. -/
  maxCandidates : Number
  /-- Count at which repetitions in samples are cut. -/
  expansionLimit : Number
  deriving DecidableEq, Repr

/-- The limits where none are given. -/
def Limits.standard : Limits := ⟨.integer 64, .integer 100, .integer 100⟩

/-- What the compilation of one language sees. -/
structure Context where
  language : Language
  limits : Limits
  /-- Finds the other languages by name. -/
  lookup : Text → Option Language

/-- The sub-lexers built so far, each with its current run. -/
abbrev Session := Table Text Run

/-- A step of a compilation: it may fail, and what it does to the session lasts even then. -/
abbrev Compilation (α : Type) := ExceptT GrammarError (StateM Session) α

namespace Compilation

variable {α : Type}

/-- A result that needs no session. -/
def ofExcept (e : Except GrammarError α) : Compilation α := ExceptT.mk (pure e)

/-- Fills in where an error was met. -/
def within (site : Site) (step : Compilation α) : Compilation α :=
  ExceptT.adapt (GrammarError.within · site) step

end Compilation

/-- Tokens that are taken from a sub-lexer of the session one at a time. -/
structure TokenStream where
  key : Text
  text : Text
  /-- The first token has been asked for. -/
  started : Bool
  /-- The end has been reached. -/
  finished : Bool
  deriving DecidableEq, Repr

namespace TokenStream

/-- The stream at its end. -/
def ended (stream : TokenStream) : TokenStream := { stream with started := true, finished := true }

/-- The next token of a stream. A stream that has ended stays so. -/
def next (stream : TokenStream) : Compilation (Option Token × TokenStream) := do
  if stream.finished then pure (none, stream)
  else
    match Table.get? (← get) stream.key with
    | none => pure (none, { stream with finished := true })
    | some run =>
      let run := if stream.started then run else Run.start run.lexer stream.text
      modify (Table.set · stream.key run)
      match run.next with
      | .error cause => throw (.ofFault (.breakdown cause))
      | .ok none => pure (none, stream.ended)
      | .ok (some (token, run)) =>
        modify (Table.set · stream.key run)
        pure (some token, { stream with started := true })

end TokenStream

namespace Context

/-- The rules of a state of the language. -/
def rulesOf (ctx : Context) (state : Text) : Except GrammarError (List Rule) :=
  match Table.get? ctx.language.graph state with
  | some rules => .ok rules
  | none => .error (.atState (.noSuchState state) state)

/-- The language that a reference names. -/
def resolve (ctx : Context) (ref : LexerRef) : Except GrammarError Language :=
  if ref.lexer = LexerRef.this then .ok ctx.language
  else match ctx.lookup ref.lexer with
    | some language => .ok language
    | none => .error (.ofFault (.noSuchLexer ref.lexer))

/-- The place of a sub-lexer in the session. -/
def sessionKey (language : Language) (state : Text) : Text := language.name ++ 0 :: state

/-- A stream of the tokens that the referenced sub-lexer gives to a text. -/
def invoke (ctx : Context) (ref : LexerRef) (text : Text) : Compilation TokenStream := do
  let language ← Compilation.ofExcept (ctx.resolve ref)
  let state := ref.state.getD rootState
  if !Table.has language.graph state then
    throw (.atState (.noSuchLexerState language.name state) state)
  let key := sessionKey language state
  if !Table.has (← get) key then
    match SubLexer.build language state with
    | .error ⟨.breakdown cause, _, _, _⟩ => throw (.ofFault (.breakdown cause))
    | .error e => throw (.ofFault (.subLexer language.name e.fault))
    | .ok lexer => modify (Table.set · key (Run.start lexer []))
  pure ⟨key, text, false, false⟩

/-- The first token that the referenced sub-lexer gives to a text. -/
def firstToken (ctx : Context) (ref : LexerRef) (text : Text) : Compilation (Option Token) := do
  let stream ← ctx.invoke ref text
  let (token, _) ← stream.next
  pure token

end Context

end Highlight
