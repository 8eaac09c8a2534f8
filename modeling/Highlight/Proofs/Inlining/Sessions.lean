import Highlight.Proofs.Compilation.Alike
import Highlight.Proofs.Inlining.FirstTokens

/-!
# Sessions of an inlined language

While a language and the inlined language are compiled, the sessions keep lexers under the same
keys, and all that a compilation asks of them, their first tokens, is the same (`Session.Twin`).
Asking for a first token keeps it so (`firstToken_twin`), whatever the sessions hold: one that names
another language asks the same lexer on both sides, and one that names the language itself asks the
two lexers of `firstToken_inlined`.
-/

namespace Highlight

open Compilation

/-- The causes are of one kind. -/
def GrammarError.SameKind (e e' : GrammarError) : Prop := e.fault.kind = e'.fault.kind

theorem GrammarError.SameKind.refl (e : GrammarError) : e.SameKind e := rfl

/-- Where errors are placed does not change their kinds. -/
theorem GrammarError.SameKind.within {e e' : GrammarError} (same : e.SameKind e')
    (site site' : Site) : (e.within site).SameKind (e'.within site') := by
  unfold SameKind
  rw [fault_within, fault_within]
  exact same

/-- The lexers give the same first token to every text. -/
def SubLexer.Twin (lexer lexer' : SubLexer) : Prop :=
  ∀ text, lexer.firstToken text = lexer'.firstToken text

/-- The sessions keep lexers under the same keys, with the same first tokens. -/
def Session.Twin (σ τ : Session) : Prop :=
  ∀ key, Option.Rel SubLexer.Twin (σ.lexer? key) (τ.lexer? key)

theorem Session.twin_nil : Session.Twin [] [] := fun _ => .none

theorem Session.Twin.has {σ τ : Session} (twin : Session.Twin σ τ) (key : Text) :
    Table.has σ key = Table.has τ key := by
  have kept := twin key
  rw [Bool.eq_iff_iff, Session.has_iff, Session.has_iff]
  generalize σ.lexer? key = left at kept ⊢
  generalize τ.lexer? key = right at kept ⊢
  cases kept <;> simp

namespace SubLexer

/-- The lexers of both languages that start in the state are twins, or neither can be built. -/
inductive BuiltAlike (language language' : Language) (state : Text) : Prop
  | error {e e' : LexerError} (left : build language state = .error e)
    (right : build language' state = .error e')
    (same : (Context.buildError language e).SameKind (Context.buildError language' e'))
  | ok {lexer lexer' : SubLexer} (left : build language state = .ok lexer)
    (right : build language' state = .ok lexer') (twin : lexer.Twin lexer')

theorem BuiltAlike.refl (language : Language) (state : Text) :
    BuiltAlike language language state := by
  cases built : build language state with
  | error e => exact .error built built rfl
  | ok lexer => exact .ok built built fun _ => rfl

end SubLexer

namespace Context

open SubLexer

variable {ctx ctx' : Context} {ref : LexerRef} {σ τ : Session}

/-- The reference names languages of one name on both sides, whose lexers are twins, or it fails on
both sides. -/
inductive LocatedAlike (ctx ctx' : Context) (ref : LexerRef) : Prop
  | error {e e' : GrammarError} (left : ctx.located ref = .error e)
    (right : ctx'.located ref = .error e') (same : e.SameKind e')
  | ok {language language' : Language} {state : Text}
    (left : ctx.located ref = .ok (language, state))
    (right : ctx'.located ref = .ok (language', state))
    (keys : sessionKey language state = sessionKey language' state)
    (built : BuiltAlike language language' state)

/-- A first token is the same on both sides. -/
theorem LocatedAlike.firstToken (located : LocatedAlike ctx ctx' ref) (text : Text)
    (twin : Session.Twin σ τ) :
    Agree GrammarError.SameKind ((ctx.firstToken ref text).run.run σ).1
      ((ctx'.firstToken ref text).run.run τ).1 := by
  rw [firstToken_run, firstToken_run]
  cases located with
  | error left right same =>
    rw [left, right]
    exact .error same
  | @ok language language' state left right keys built =>
    rw [left, right]
    dsimp only
    rw [← keys]
    have kept := twin (sessionKey language state)
    generalize σ.lexer? (sessionKey language state) = here at kept ⊢
    generalize τ.lexer? (sessionKey language state) = there at kept ⊢
    cases kept with
    | none =>
      cases built with
      | error left right same =>
        rw [left, right]
        exact .error same
      | ok left right same =>
        rw [left, right]
        dsimp only
        rw [same text]
        exact .refl .refl _
    | some same =>
      dsimp only
      rw [same text]
      exact .refl .refl _

/-- Asking for a first token keeps the sessions twins. -/
theorem LocatedAlike.twin (located : LocatedAlike ctx ctx' ref) (text : Text)
    (twin : Session.Twin σ τ) :
    Session.Twin ((ctx.firstToken ref text).run.run σ).2
      ((ctx'.firstToken ref text).run.run τ).2 := by
  intro key
  rw [firstToken_lexer?, firstToken_lexer?, invoke_run, invoke_run]
  cases located with
  | error left right same =>
    rw [left, right]
    exact twin key
  | @ok language language' state left right keys built =>
    rw [left, right]
    dsimp only
    rw [← keys]
    rw [twin.has]
    split
    · exact twin key
    · cases built with
      | error left right same =>
        rw [left, right]
        exact twin key
      | ok left right same =>
        rw [left, right]
        dsimp only
        rw [Session.lexer?_set, Session.lexer?_set]
        split
        · exact .some same
        · exact twin key

theorem LocatedAlike.alike (located : LocatedAlike ctx ctx' ref) (text : Text) :
    Alike Session.Twin GrammarError.SameKind (ctx.firstToken ref text)
      (ctx'.firstToken ref text) :=
  fun _ _ twin => ⟨located.firstToken text twin, located.twin text twin⟩

/-- The context of the inlined language. -/
def inlined (ctx : Context) : Context := { ctx with language := ctx.language.inlined }

theorem builtAlike_inlined {language : Language} {state : Text} (acyclic : language.graph.Acyclic)
    (known : state ∈ Table.keys language.graph)
    (steady : ∀ lexer, build language state = .ok lexer → language.Steady lexer.start) :
    BuiltAlike language language.inlined state := by
  obtain ⟨e, e', left, right, same⟩ | ⟨lexer, lexer', left, right, starts⟩ :=
    build_inlined acyclic known
  · exact .error left right same
  · exact .ok left right (firstToken_inlined acyclic left right starts (steady lexer left))

/-- A reference is answered alike for the inlined language, if it does not name the language itself
or its start is steady. -/
theorem locatedAlike_inlined (acyclic : ctx.language.graph.Acyclic)
    (steady : ref.lexer = LexerRef.this → ∀ lexer,
      build ctx.language (ref.state.getD rootState) = .ok lexer → ctx.language.Steady lexer.start) :
    LocatedAlike ctx ctx.inlined ref := by
  by_cases own : ref.lexer = LexerRef.this
  · have left : ctx.resolve ref = .ok ctx.language := if_pos own
    have right : ctx.inlined.resolve ref = .ok ctx.language.inlined := if_pos own
    have both : Table.has ctx.language.inlined.graph (ref.state.getD rootState) =
        Table.has ctx.language.graph (ref.state.getD rootState) := by
      rw [Bool.eq_iff_iff, Table.has_iff, Table.has_iff, Graph.keys_inlined]
    have here := located_of_resolve left
    have there := located_of_resolve right
    rw [both] at there
    by_cases known : Table.has ctx.language.graph (ref.state.getD rootState)
    · rw [if_pos known] at here there
      exact .ok here there rfl (builtAlike_inlined acyclic (Table.has_iff.1 known) (steady own))
    · rw [if_neg known] at here there
      exact .error here there rfl
  · have same : ctx.inlined.resolve ref = ctx.resolve ref := by
      unfold resolve
      rw [if_neg own, if_neg own]
      rfl
    have located : ctx.inlined.located ref = ctx.located ref := by
      unfold Context.located
      rw [same]
    cases found : ctx.located ref with
    | error e => exact .error found (located.trans found) rfl
    | ok place =>
      obtain ⟨language, state⟩ := place
      exact .ok found (located.trans found) rfl (.refl language state)

end Context

end Highlight
