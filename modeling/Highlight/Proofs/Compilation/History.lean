import Highlight.Proofs.Compilation.Alike
import Highlight.Proofs.Compilation.Session

/-!
# What was done before does not show

A context is used many times: streams are opened and left half read, rules are bound, states are
compiled, and any of it may fail. `Act` lists these uses and `Act.after` is the session that a row
of them leaves. As long as no two languages share a name, every lexer that is kept was built for
the language and the state of its key (`Act.kept_after`), and a first token is read from the start
of its text. So a rule binds after any history what it binds on a fresh context
(`ofPattern_after`).
-/

namespace Highlight

open Compilation

namespace Context

/-- The languages that a reference can name. -/
inductive Reaches (ctx : Context) : Language → Prop where
  | this : Reaches ctx ctx.language
  | other {name : Text} {language : Language} (found : ctx.lookup name = some language) :
    Reaches ctx language

/-- No two languages in reach share a name, and no name holds the unit that ends it in a key. -/
structure NamesApart (ctx : Context) : Prop where
  distinct : ∀ first second, ctx.Reaches first → ctx.Reaches second →
    first.name = second.name → first = second
  unmarked : ∀ language, ctx.Reaches language → 0 ∉ language.name

variable {ctx : Context}

theorem reaches_of_located {ref : LexerRef} {language : Language} {state : Text}
    (h : ctx.located ref = .ok (language, state)) : ctx.Reaches language := by
  obtain ⟨found, resolved, h⟩ := except_bind_eq_ok_iff.1 h
  have same : found = language := by
    dsimp only at h
    split at h
    · cases h
      rfl
    · cases h
  subst same
  unfold resolve at resolved
  split at resolved
  · cases resolved
    exact .this
  · split at resolved
    · next known =>
      cases resolved
      exact .other known
    · cases resolved

theorem append_mark_inj {first second rest rest' : Text} (left : 0 ∉ first) (right : 0 ∉ second)
    (same : first ++ 0 :: rest = second ++ 0 :: rest') : first = second ∧ rest = rest' := by
  induction first generalizing second with
  | nil =>
    cases second with
    | nil => exact ⟨rfl, (List.cons.inj same).2⟩
    | cons u second =>
      have mark : u = 0 := (List.cons.inj same).1.symm
      exact absurd (mark ▸ List.mem_cons_self) right
  | cons u first ih =>
    cases second with
    | nil =>
      have mark : u = 0 := (List.cons.inj same).1
      exact absurd (mark ▸ List.mem_cons_self) left
    | cons v second =>
      obtain ⟨rfl, tails⟩ := List.cons.inj same
      obtain ⟨rfl, rest⟩ := ih (fun h => left (List.mem_cons_of_mem _ h))
        (fun h => right (List.mem_cons_of_mem _ h)) tails
      exact ⟨rfl, rest⟩

/-- A key tells its language and its state. -/
theorem NamesApart.key_inj (apart : ctx.NamesApart) {first second : Language} {state state' : Text}
    (left : ctx.Reaches first) (right : ctx.Reaches second)
    (same : sessionKey first state = sessionKey second state') :
    first = second ∧ state = state' := by
  obtain ⟨names, states⟩ :=
    append_mark_inj (apart.unmarked first left) (apart.unmarked second right) same
  exact ⟨apart.distinct first second left right names, states⟩

/-- Every lexer of the session was built for the language and the state of its key. -/
def Kept (ctx : Context) (σ : Session) : Prop :=
  ∀ key lexer, σ.lexer? key = some lexer → ∃ language state, ctx.Reaches language ∧
    key = sessionKey language state ∧ SubLexer.build language state = .ok lexer

theorem kept_nil : ctx.Kept [] := by
  intro key lexer kept
  cases kept

theorem Kept.of_lexer? {σ σ' : Session} (kept : ctx.Kept σ)
    (same : ∀ key, Session.lexer? σ' key = σ.lexer? key) : ctx.Kept σ' := by
  intro key lexer held
  rw [same] at held
  exact kept key lexer held

theorem Kept.invoke {σ : Session} (kept : ctx.Kept σ) (ref : LexerRef) (text : Text) :
    ctx.Kept ((ctx.invoke ref text).run.run σ).2 := by
  intro key lexer held
  rcases ctx.invoke_lexer? ref text σ key with same |
    ⟨language, state, built, place, rfl, -, build, added⟩
  · rw [same] at held
    exact kept key lexer held
  · rw [added] at held
    cases held
    exact ⟨language, state, reaches_of_located place, rfl, build⟩

theorem Kept.next {σ : Session} (kept : ctx.Kept σ) (stream : TokenStream) :
    ctx.Kept (stream.next.run.run σ).2 :=
  kept.of_lexer? (stream.next_lexer? σ)

/-- The first token that a reference gives to a text when its lexer is built anew. -/
def firstTokenAnew (ctx : Context) (ref : LexerRef) (text : Text) :
    Except GrammarError (Option Token) :=
  match ctx.located ref with
  | .error e => .error e
  | .ok (language, state) =>
    match SubLexer.build language state with
    | .error e => .error (buildError language e)
    | .ok lexer => lexer.firstToken text

/-- A lexer that is kept gives the first token that a new one would give. -/
theorem Kept.firstToken {σ : Session} (apart : ctx.NamesApart) (kept : ctx.Kept σ)
    (ref : LexerRef) (text : Text) :
    ((ctx.firstToken ref text).run.run σ).1 = ctx.firstTokenAnew ref text ∧
      ctx.Kept ((ctx.firstToken ref text).run.run σ).2 := by
  constructor
  · rw [firstToken_run, firstTokenAnew]
    rcases place : ctx.located ref with e | ⟨language, state⟩
    · rfl
    · dsimp only
      cases held : σ.lexer? (sessionKey language state) with
      | none => rfl
      | some lexer =>
        obtain ⟨language', state', reached, same, built⟩ := kept _ _ held
        obtain ⟨rfl, rfl⟩ := apart.key_inj (reaches_of_located place) reached same
        rw [built]
  · exact (kept.invoke ref text).of_lexer? (ctx.firstToken_lexer? ref text σ)

/-- From sessions that keep what was built for their keys, first tokens are the same. -/
theorem NamesApart.firstToken_alike (apart : ctx.NamesApart) (ref : LexerRef) (text : Text) :
    Alike (fun σ τ => ctx.Kept σ ∧ ctx.Kept τ) Eq (ctx.firstToken ref text)
      (ctx.firstToken ref text) := by
  rintro σ τ ⟨left, right⟩
  obtain ⟨here, left⟩ := left.firstToken apart ref text
  obtain ⟨there, right⟩ := right.firstToken apart ref text
  rw [here, there]
  exact ⟨.refl (fun _ => rfl) _, left, right⟩

end Context

/-- A use of a context. -/
inductive Act where
  /-- Opens a stream, which stands behind those that were opened before. -/
  | invoke (ref : LexerRef) (text : Text)
  /-- Reads one token from the stream at a place. -/
  | read (index : Nat)
  | bind (pattern : Text) (token : TokenSpec) (leaves : Bool)
  | sample (group : Text) (ref : LexerRef)
  | walk (state : Text) (depth : Nat)

namespace Act

/-- The session and the streams that are open after a use. A stream that broke down has ended. -/
def run (ctx : Context) (past : Session × List TokenStream) : Act → Session × List TokenStream
  | invoke ref text =>
    match (ctx.invoke ref text).run.run past.1 with
    | (.ok stream, σ) => (σ, past.2 ++ [stream])
    | (.error _, σ) => (σ, past.2)
  | read index =>
    match past.2[index]? with
    | none => past
    | some stream =>
      match stream.next.run.run past.1 with
      | (.ok (_, stream), σ) => (σ, past.2.set index stream)
      | (.error _, σ) => (σ, past.2.set index stream.ended)
  | bind pattern token leaves =>
    (((Binding.ofPattern ctx pattern token leaves).run.run past.1).2, past.2)
  | sample group ref => (((ctx.dynamicToken group ref).run.run past.1).2, past.2)
  | walk state depth => (((Body.ofState ctx state depth).run.run past.1).2, past.2)

/-- The session after a row of uses of a fresh context. -/
def after (ctx : Context) (acts : List Act) : Session := (acts.foldl (run ctx) ([], [])).1

variable {ctx : Context}

/-- A use leaves lexers that were built for their keys. -/
theorem kept_run (apart : ctx.NamesApart) {past : Session × List TokenStream}
    (kept : ctx.Kept past.1) (act : Act) : ctx.Kept (run ctx past act).1 := by
  have tokens := apart.firstToken_alike
  have refl : ∀ e : GrammarError, e = e := fun _ => rfl
  cases act with
  | invoke ref text =>
    have left := kept.invoke ref text
    unfold run
    dsimp only
    split <;> next opened => rwa [opened] at left
  | read index =>
    unfold run
    dsimp only
    split
    · exact kept
    · next stream _ =>
      have left := kept.next stream
      split <;> next taken => rwa [taken] at left
  | bind pattern token leaves =>
    have both := Binding.ofPattern_alike refl rfl pattern token leaves
      fun ref _ text => tokens ref text
    exact (both past.1 past.1 ⟨kept, kept⟩).2.1
  | sample group ref =>
    have both := Context.dynamicToken_alike refl rfl group ref (tokens ref)
    exact (both past.1 past.1 ⟨kept, kept⟩).2.1
  | walk state depth =>
    have both := (alike_ofExcept (.refl refl (ctx.rulesOf state))).bind fun list =>
      Body.ofList_alike tokens ctx.limits.maxDepth.floorNat state list depth
    exact (both past.1 past.1 ⟨kept, kept⟩).2.1

theorem kept_after (apart : ctx.NamesApart) (acts : List Act) : ctx.Kept (after ctx acts) := by
  have from_ : ∀ past : Session × List TokenStream, ctx.Kept past.1 →
      ctx.Kept (acts.foldl (run ctx) past).1 := by
    induction acts with
    | nil => exact fun past kept => kept
    | cons act acts ih => exact fun past kept => ih _ (kept_run apart kept act)
  exact from_ ([], []) Context.kept_nil

/-- After any uses of a context a rule is bound as on a fresh one: to the same binding, to none, or
with the same error. -/
theorem ofPattern_after (apart : ctx.NamesApart) (acts : List Act) (pattern : Text)
    (token : TokenSpec) (leaves : Bool) :
    ((Binding.ofPattern ctx pattern token leaves).run.run (after ctx acts)).1 =
      ((Binding.ofPattern ctx pattern token leaves).run.run []).1 := by
  have both := Binding.ofPattern_alike (fun _ => rfl) rfl pattern token leaves
    fun ref _ text => apart.firstToken_alike ref text
  have agree := (both (after ctx acts) [] ⟨kept_after apart acts, Context.kept_nil⟩).1
  generalize ((Binding.ofPattern ctx pattern token leaves).run.run []).1 = b at agree ⊢
  generalize ((Binding.ofPattern ctx pattern token leaves).run.run _).1 = a at agree ⊢
  cases agree with
  | ok binding => rfl
  | error same => rw [same]

/-- A language that leaves a group to a state of its own, in which a quote leads on. -/
def quoting : Language where
  name := "quoting"
  aliases := []
  filenames := []
  aliasFilenames := []
  graph := [
    ("root", [.literal "('a)(b)" (.compound [.dynamic ⟨"this", some "words"⟩, .literal "B"])]),
    ("words", [.nested "'" (.literal "Quote") "inner"]),
    ("inner", [.literal "a" (.literal "A"), .literal "'" (.literal "Other")])]
  sourceFile := none

/-- A language of one rule. -/
def digits : Language where
  name := "digits"
  aliases := []
  filenames := []
  aliasFilenames := []
  graph := [("root", [.literal "[0-9]" (.literal "Digit")])]
  sourceFile := none

/-- The context in which `quoting` is compiled beside `digits`. -/
def quotingContext : Context where
  language := quoting
  limits := ⟨.integer 3, .integer 2, .integer 2⟩
  lookup name := if name = "digits" then some digits else none

/-- A stream that is left in the inner state of `quoting`, one of another language that is not
read, a reference that fails, a rule that is bound and a state that is compiled. -/
def quotingActs : List Act := [
  .invoke ⟨"this", some "words"⟩ "'a'", .read 0, .read 0, .invoke ⟨"digits", none⟩ "1",
  .invoke ⟨"nowhere", none⟩ "x", .bind "('a)" (.compound [.dynamic ⟨"digits", none⟩]) false,
  .walk "root" 0]

theorem ofPattern_after_quoting :
    quotingContext.NamesApart ∧
      Table.keys (after quotingContext quotingActs) =
        [Context.sessionKey quoting "words", Context.sessionKey digits "root"] ∧
      ((Binding.ofPattern quotingContext "('a)(b)"
        (.compound [.dynamic ⟨"this", some "words"⟩, .literal "B"]) false).run.run
          (after quotingContext quotingActs)).1 =
        .ok (some (.groups ["Quote", "B"] "('a)(b)")) := by
  have reached : ∀ language, quotingContext.Reaches language →
      language = quoting ∨ language = digits := by
    intro language reached
    cases reached with
    | this => exact .inl rfl
    | @other name language found =>
      by_cases named : name = Text.ofString "digits"
      · have held : quotingContext.lookup name = some digits := if_pos named
        rw [held] at found
        exact .inr (Option.some.inj found).symm
      · have missing : quotingContext.lookup name = none := if_neg named
        rw [missing] at found
        cases found
  have apart : quotingContext.NamesApart := by
    constructor
    · intro first second left right same
      rcases reached first left with rfl | rfl <;> rcases reached second right with rfl | rfl
      · rfl
      · exact absurd same (by decide)
      · exact absurd same (by decide)
      · rfl
    · intro language here
      rcases reached language here with rfl | rfl <;> decide
  refine ⟨apart, ?_, ?_⟩
  · decide +kernel
  · have fresh : ((Binding.ofPattern quotingContext "('a)(b)"
        (.compound [.dynamic ⟨"this", some "words"⟩, .literal "B"]) false).run.run []).1 =
        .ok (some (.groups ["Quote", "B"] "('a)(b)")) := by
      apply eq_ok_of_toOption
      decide +kernel
    exact (ofPattern_after apart quotingActs _ _ _).trans fresh

end Act

end Highlight
