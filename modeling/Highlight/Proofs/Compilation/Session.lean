import Highlight.Proofs.Compilation.Step
import Highlight.Proofs.SubLexer.Stream
import Highlight.Proofs.Table

/-!
# Steps on the session

What the steps that ask sub-lexers do to a session, as equations between runs. Opening a stream
builds a lexer only where none is kept under its key (`invoke_run`), and reading from a stream
changes at most the run that is kept there (`next_run`). Of a session, all that a first token can
show is which lexers it keeps (`firstToken_run`), and these stay (`next_lexer?`, `invoke_lexer?`).
-/

namespace Highlight

open Compilation

/-- The lexer that a session keeps under a key. -/
def Session.lexer? (σ : Session) (key : Text) : Option SubLexer :=
  (Table.get? σ key).map Run.lexer

theorem Session.lexer?_set (σ : Session) (key : Text) (run : Run) (other : Text) :
    Session.lexer? (Table.set σ key run) other =
      if key = other then some run.lexer else σ.lexer? other := by
  unfold lexer?
  rw [Table.get?_set]
  split <;> rfl

theorem Session.has_iff {σ : Session} {key : Text} :
    Table.has σ key = true ↔ ∃ lexer, σ.lexer? key = some lexer := by
  unfold lexer? Table.has
  cases Table.get? σ key <;> simp

namespace Compilation

theorem run_get (σ : Session) : (get : Compilation Session).run.run σ = (.ok σ, σ) := rfl

theorem run_modify (f : Session → Session) (σ : Session) :
    (modify f : Compilation PUnit).run.run σ = (.ok ⟨⟩, f σ) := rfl

end Compilation

namespace TokenStream

/-- The run from which a stream takes its next token, given the one that is kept. -/
def resume (stream : TokenStream) (run : Run) : Run :=
  if stream.started then run else Run.start run.lexer stream.text

theorem resume_lexer (stream : TokenStream) (run : Run) :
    (stream.resume run).lexer = run.lexer := by
  unfold resume
  split <;> rfl

/-- Reading from a stream goes on with the run that is kept for it. -/
theorem next_run (stream : TokenStream) (σ : Session) :
    stream.next.run.run σ =
      if stream.finished then (.ok (none, stream), σ)
      else match Table.get? σ stream.key with
        | none => (.ok (none, { stream with finished := true }), σ)
        | some run =>
          let σ := Table.set σ stream.key (stream.resume run)
          match (stream.resume run).next with
          | .error cause => (.error (.ofFault (.breakdown cause)), σ)
          | .ok none => (.ok (none, stream.ended), σ)
          | .ok (some (token, run)) =>
            (.ok (some token, { stream with started := true }), Table.set σ stream.key run) := by
  unfold TokenStream.next
  split
  · rfl
  · rw [run_bind, run_get]
    dsimp only
    cases Table.get? σ stream.key with
    | none => rfl
    | some run =>
      dsimp only
      rw [run_bind, run_modify]
      dsimp only [resume]
      rcases (if stream.started = true then run else Run.start run.lexer stream.text).next with
        cause | _ | ⟨token, run⟩ <;> rfl

/-- Reading from a stream changes no lexer. -/
theorem next_lexer? (stream : TokenStream) (σ : Session) (key : Text) :
    Session.lexer? (stream.next.run.run σ).2 key = σ.lexer? key := by
  rw [next_run]
  split
  · rfl
  · cases found : Table.get? σ stream.key with
    | none => rfl
    | some run =>
      have kept : σ.lexer? stream.key = some run.lexer := by
        unfold Session.lexer?
        rw [found]
        rfl
      have resumed : Session.lexer? (Table.set σ stream.key (stream.resume run)) key =
          σ.lexer? key := by
        rw [Session.lexer?_set, resume_lexer]
        split
        · next same => rw [← same, kept]
        · rfl
      dsimp only
      cases next : (stream.resume run).next with
      | error cause => exact resumed
      | ok result =>
        rcases result with _ | ⟨token, after⟩
        · exact resumed
        · have stepped := (Run.next_eq_some next).2.2
          have same : after.lexer = run.lexer := by
            rw [stepped]
            exact stream.resume_lexer run
          dsimp only
          rw [Session.lexer?_set, resumed, same]
          split
          · next here => rw [← here, kept]
          · rfl

end TokenStream

/-- The first token that a lexer gives to a text. -/
def SubLexer.firstToken (lexer : SubLexer) (text : Text) : Except GrammarError (Option Token) :=
  match (Run.start lexer text).next with
  | .error cause => .error (.ofFault (.breakdown cause))
  | .ok found => .ok (found.map Prod.fst)

/-- A new stream gives the first token of the lexer that is kept for it. -/
theorem TokenStream.next_first {key text : Text} {σ : Session} {lexer : SubLexer}
    (kept : σ.lexer? key = some lexer) :
    ((TokenStream.mk key text false false).next.run.run σ).1.map Prod.fst =
      lexer.firstToken text := by
  unfold Session.lexer? at kept
  obtain ⟨run, found, rfl⟩ := Option.map_eq_some_iff.1 kept
  rw [next_run, found]
  dsimp only [resume]
  unfold SubLexer.firstToken
  rcases next : (Run.start run.lexer text).next with cause | _ | ⟨token, after⟩ <;>
    simp [next, Except.map]

namespace Context

/-- What is told of a sub-lexer that cannot be built. -/
def buildError (language : Language) (e : LexerError) : GrammarError :=
  match e.fault with
  | .breakdown cause => .ofFault (.breakdown cause)
  | fault => .ofFault (.subLexer language.name fault)

/-- The language and the state that a reference names. -/
def located (ctx : Context) (ref : LexerRef) : Except GrammarError (Language × Text) := do
  let language ← ctx.resolve ref
  let state := ref.state.getD rootState
  if Table.has language.graph state then .ok (language, state)
  else .error (.atState (.noSuchLexerState language.name state) state)

theorem located_of_resolve {ctx : Context} {ref : LexerRef} {language : Language}
    (resolved : ctx.resolve ref = .ok language) :
    ctx.located ref = if Table.has language.graph (ref.state.getD rootState)
      then .ok (language, ref.state.getD rootState)
      else .error (.atState (.noSuchLexerState language.name (ref.state.getD rootState))
        (ref.state.getD rootState)) := by
  unfold located
  rw [resolved]
  rfl

/-- Opening a stream finds the language and its state first, and then the lexer, which is built
where none is kept. -/
theorem invoke_run (ctx : Context) (ref : LexerRef) (text : Text) (σ : Session) :
    (ctx.invoke ref text).run.run σ = match ctx.located ref with
      | .error e => (.error e, σ)
      | .ok (language, state) =>
        let key := sessionKey language state
        if Table.has σ key then (.ok ⟨key, text, false, false⟩, σ)
        else match SubLexer.build language state with
          | .error e => (.error (buildError language e), σ)
          | .ok lexer => (.ok ⟨key, text, false, false⟩, Table.set σ key (Run.start lexer [])) := by
  cases found : ctx.resolve ref with
  | error e =>
    have nowhere : ctx.located ref = .error e := by
      unfold located
      rw [found]
      rfl
    rw [nowhere, invoke, run_bind, found]
    rfl
  | ok language =>
    rw [located_of_resolve found, invoke, run_bind, found]
    change StateT.run (ExceptT.run _) σ = _
    dsimp only
    by_cases known : Table.has language.graph (ref.state.getD rootState)
    · simp only [known, Bool.not_true, Bool.false_eq_true, if_false, if_true]
      rw [run_bind, run_get]
      dsimp only
      by_cases kept : Table.has σ (sessionKey language (ref.state.getD rootState))
      · simp only [kept, Bool.not_true, Bool.false_eq_true, if_false, if_true]
        rfl
      · simp only [kept, Bool.not_false, Bool.false_eq_true, if_false, if_true]
        rcases SubLexer.build language (ref.state.getD rootState) with ⟨fault, _, _, _⟩ | lexer
        · cases fault <;> rfl
        · rfl
    · simp only [known, Bool.not_false, Bool.false_eq_true, if_false, if_true]
      rfl

/-- Opening a stream changes no lexer that is kept, and adds at most the one it reads from. -/
theorem invoke_lexer? (ctx : Context) (ref : LexerRef) (text : Text) (σ : Session) (key : Text) :
    Session.lexer? ((ctx.invoke ref text).run.run σ).2 key = σ.lexer? key ∨
      ∃ language state lexer, ctx.located ref = .ok (language, state) ∧
        key = sessionKey language state ∧ σ.lexer? key = none ∧
        SubLexer.build language state = .ok lexer ∧
        Session.lexer? ((ctx.invoke ref text).run.run σ).2 key = some lexer := by
  rw [invoke_run]
  rcases place : ctx.located ref with e | ⟨language, state⟩
  · exact .inl rfl
  · dsimp only
    split
    · exact .inl rfl
    · next unkept =>
      rcases built : SubLexer.build language state with e | lexer
      · exact .inl rfl
      · dsimp only
        rw [Session.lexer?_set]
        split
        · next same =>
          subst same
          refine .inr ⟨language, state, lexer, rfl, rfl, ?_, built, rfl⟩
          cases kept : σ.lexer? (sessionKey language state) with
          | none => rfl
          | some held => exact absurd (Session.has_iff.2 ⟨held, kept⟩) unkept
        · exact .inl rfl

/-- The first token is read from a stream that was just opened. -/
theorem firstToken_eq (ctx : Context) (ref : LexerRef) (text : Text) (σ : Session) :
    (ctx.firstToken ref text).run.run σ = match (ctx.invoke ref text).run.run σ with
      | (.error e, σ₁) => (.error e, σ₁)
      | (.ok stream, σ₁) =>
        ((stream.next.run.run σ₁).1.map Prod.fst, (stream.next.run.run σ₁).2) := by
  unfold firstToken
  rw [run_bind]
  rcases (ctx.invoke ref text).run.run σ with ⟨e | stream, σ₁⟩
  · rfl
  · dsimp only
    rw [run_bind]
    rcases stream.next.run.run σ₁ with ⟨e | ⟨token, after⟩, σ₂⟩ <;> rfl

/-- The first token that a reference gives to a text. It is that of the lexer which is kept for the
reference, or of one built for it. -/
theorem firstToken_run (ctx : Context) (ref : LexerRef) (text : Text) (σ : Session) :
    ((ctx.firstToken ref text).run.run σ).1 = match ctx.located ref with
      | .error e => .error e
      | .ok (language, state) =>
        match σ.lexer? (sessionKey language state) with
        | some lexer => lexer.firstToken text
        | none =>
          match SubLexer.build language state with
          | .error e => .error (buildError language e)
          | .ok lexer => lexer.firstToken text := by
  rw [firstToken_eq, invoke_run]
  rcases ctx.located ref with e | ⟨language, state⟩
  · rfl
  · dsimp only
    cases kept : σ.lexer? (sessionKey language state) with
    | some lexer =>
      rw [if_pos (Session.has_iff.2 ⟨lexer, kept⟩)]
      exact TokenStream.next_first kept
    | none =>
      have unkept : ¬ Table.has σ (sessionKey language state) = true := by
        intro held
        obtain ⟨lexer, some⟩ := Session.has_iff.1 held
        rw [kept] at some
        cases some
      rw [if_neg unkept]
      rcases SubLexer.build language state with e | lexer
      · rfl
      · apply TokenStream.next_first
        rw [Session.lexer?_set, if_pos rfl]
        rfl

/-- Reading the first token keeps the lexers that opening its stream left. -/
theorem firstToken_lexer? (ctx : Context) (ref : LexerRef) (text : Text) (σ : Session)
    (key : Text) : Session.lexer? ((ctx.firstToken ref text).run.run σ).2 key =
      Session.lexer? ((ctx.invoke ref text).run.run σ).2 key := by
  rw [firstToken_eq]
  rcases (ctx.invoke ref text).run.run σ with ⟨e | stream, σ₁⟩
  · rfl
  · exact stream.next_lexer? σ₁ key

/-! ## Failures -/

variable {ctx : Context} {ref : LexerRef} {text : Text} {σ σ' : Session} {e : GrammarError}

/-- The language that a reference names is missing, or the state in it. -/
theorem located_eq_error (missing : ctx.located ref = .error e) :
    e = .ofFault (.noSuchLexer ref.lexer) ∨
      ∃ language, ctx.resolve ref = .ok language ∧
        Table.has language.graph (ref.state.getD rootState) = false ∧
        e = .atState (.noSuchLexerState language.name (ref.state.getD rootState))
          (ref.state.getD rootState) := by
  obtain unknown | ⟨language, resolved, missing⟩ := except_bind_eq_error_iff.1 missing
  · unfold resolve at unknown
    split at unknown
    · cases unknown
    · split at unknown <;> cases unknown
      exact .inl rfl
  · dsimp only at missing
    split at missing
    · cases missing
    · rename_i lacking
      cases missing
      exact .inr ⟨language, resolved, Bool.eq_false_iff.2 lacking, rfl⟩

/-- The ways in which a reference gives no first token: its lexer is not there, cannot be built, or
fails on the text, whether it was kept or built anew. -/
inductive Denied (ctx : Context) (ref : LexerRef) (text : Text) (σ : Session) :
    GrammarError → Prop where
  | nowhere {e : GrammarError} (missing : ctx.located ref = .error e) : Denied ctx ref text σ e
  | unbuilt {language : Language} {state : Text} {met : LexerError}
    (place : ctx.located ref = .ok (language, state))
    (refused : SubLexer.build language state = .error met) :
    Denied ctx ref text σ (buildError language met)
  | broken {language : Language} {state : Text} {lexer : SubLexer} {e : GrammarError}
    (place : ctx.located ref = .ok (language, state))
    (source : σ.lexer? (sessionKey language state) = some lexer ∨
      SubLexer.build language state = .ok lexer)
    (failed : lexer.firstToken text = .error e) : Denied ctx ref text σ e

theorem firstToken_fails (fails : Fails (ctx.firstToken ref text) σ e σ') :
    ctx.Denied ref text σ e := by
  have result := ctx.firstToken_run ref text σ
  rw [fails] at result
  cases place : ctx.located ref with
  | error missing =>
    rw [place] at result
    cases result
    exact .nowhere place
  | ok found =>
    rw [place] at result
    dsimp only at result
    split at result
    · next kept => exact .broken place (.inl kept) result.symm
    · split at result
      · next refused =>
        cases result
        exact .unbuilt place refused
      · next built => exact .broken place (.inr built) result.symm

end Context

end Highlight
