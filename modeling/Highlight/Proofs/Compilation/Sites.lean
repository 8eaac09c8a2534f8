import Highlight.Proofs.Compilation.Breakdown
import Highlight.Proofs.Compilation.EmittedPatterns

/-!
# What an error tells of its place

An error of a compilation names the language, and the pattern where the cause lies in the pattern or
the token of a rule. It names a state as well, with one exception: a delimiter of a region that
cannot be converted is not placed by the region, nor by what compiles the region, so that its state
stays open (`Stateless`). `Language.compile_placed` says so of all errors, from the places where they
are met (`Body.Origin`), and that every other outcome is a list of statements or a breakdown that the
context accounts for.
-/

namespace Highlight

open Compilation

/-- The cause lies in the pattern or the token of a rule, and not in the shape of a rule list, a
state that is missing or the depth. -/
def Fault.concernsRule : Fault → Bool
  | tooDeep _ | noSuchState _ | undefinedTarget .. | openRegion .. | unknownRule _
  | unreadableRule .. | breakdown _ => false
  | _ => true

namespace GrammarError

variable {e : GrammarError} {site : Site}

theorem site_within (other : e.fault.isBreakdown = false) :
    (e.within site).site = e.site.within site := by
  rw [GrammarError.within, other]
  rfl

end GrammarError

namespace Body

variable {ctx : Context} {e : GrammarError}

/-- The errors of the rules of a graph that name no state. -/
inductive Stateless (graph : Graph) : GrammarError → Prop where
  /-- The region of a state cannot be drawn, for a delimiter that cannot be converted. -/
  | delimiter {state pattern : Text} {rules : List Rule} {rule : Rule} {e : GrammarError}
    (own : Table.get? graph state = some rules)
    (undrawn : Region.binding state (.ofRules rules) = .error e) (listed : rule ∈ rules)
    (moves : rule.isPush = true ∨ rule.isPop = true) (spelled : rule.pattern? = some pattern)
    (refused : Dialect.convert pattern = .error e) : Stateless graph e
  /-- A rule is of no known kind. -/
  | unknown {state : Text} {raw : Document} {pattern : Option Text} {token : Option TokenSpec}
    (own : HasRule graph state (.unknown raw pattern token)) :
    Stateless graph (.ofFault (.unknownRule raw))

theorem Stateless.state_eq {graph : Graph} (stateless : Stateless graph e) :
    e.site.state = none := by
  cases stateless with
  | delimiter own undrawn listed moves spelled refused =>
    obtain ⟨opening, offset, rfl⟩ := Dialect.convert_eq_error refused
    rfl
  | unknown own => rfl

/-- What an error tells before the language is filled in. -/
structure Placed (graph : Graph) (e : GrammarError) : Prop where
  pattern : e.fault.concernsRule = true → e.site.pattern.isSome = true
  state : e.site.state = none → Stateless graph e

/-- An error in binding a rule names the pattern and the state of the rule, if none was named
before. -/
theorem bindAt_site {state pattern : Text} {token : TokenSpec} {leaves : Bool} {σ σ' : Session}
    (fails : Fails (bindAt ctx state pattern token leaves) σ e σ')
    (other : e.fault.isBreakdown = false) :
    e.site.pattern.isSome = true ∧ e.site.state.isSome = true := by
  obtain ⟨met, -, rfl⟩ := fails_within_iff.1 fails
  rw [GrammarError.fault_within] at other
  rw [GrammarError.site_within other]
  constructor
  · cases named : met.site.pattern <;> simp [Site.within, named]
  · cases named : met.site.state <;> simp [Site.within, named]

theorem Origin.placed (origin : Origin ctx e) (other : e.fault.isBreakdown = false) :
    Placed ctx.language.graph e := by
  cases origin with
  | room => exact ⟨nofun, nofun⟩
  | target own leads unknown => exact ⟨nofun, nofun⟩
  | unknown own => exact ⟨nofun, fun _ => .unknown own⟩
  | binding own matched named fails =>
    obtain ⟨pattern, state⟩ := bindAt_site fails other
    refine ⟨fun _ => pattern, fun open_ => ?_⟩
    rw [open_] at state
    cases state
  | @region state rules _ own undrawn =>
    obtain rfl | ⟨first, enters, rfl⟩ | ⟨rule, held, pattern, spelled, refused⟩ :=
      Region.binding_eq_error undrawn
    · exact ⟨nofun, nofun⟩
    · exact ⟨fun _ => Region.pattern?_isSome_of_entering enters, nofun⟩
    · refine ⟨fun _ => ?_, fun _ => ?_⟩
      · obtain ⟨opening, offset, rfl⟩ := Dialect.convert_eq_error refused
        rfl
      · obtain ⟨listed, moves⟩ : rule ∈ rules ∧ (rule.isPush = true ∨ rule.isPop = true) := by
          obtain enters | leaves := List.mem_append.1 held
          · exact (List.mem_filter.1 enters).imp_right .inl
          · exact (List.mem_filter.1 leaves).imp_right .inr
        exact .delimiter own undrawn listed moves spelled refused

end Body

namespace Language

variable {language : Language} {limits : Limits} {lookup : Text → Option Language}
  {e : GrammarError}

/-- A language that fails to compile breaks down only as its context can. Otherwise the error names
the language, and it names a pattern if the cause lies in the pattern or the token of a rule. It
names a state just if it does not come from a rule of no known kind, or from a delimiter of a
region that cannot be converted. -/
theorem compile_placed (failed : language.compile limits lookup = .error e) :
    (∀ cause, e.fault = .breakdown cause →
      Context.CanBreak ⟨language, limits, lookup⟩ cause) ∧
    (e.fault.isBreakdown = false →
      e.site.language = some language.name ∧
      (e.fault.concernsRule = true → e.site.pattern.isSome = true) ∧
      (e.site.state = none ↔ ∃ met, Body.Stateless language.graph met ∧
        e = met.within { Site.unknown with language := some language.name })) := by
  obtain ⟨met, σ, fails, rfl⟩ := compile_eq_error_iff.1 failed
  have admitted : Context.Admits ⟨language, limits, lookup⟩ met :=
    (Body.ofState_keeps rootState 0).admitted Context.kept_nil fails
  have placed (other : met.fault.isBreakdown = false) : Body.Placed language.graph met := by
    obtain ⟨-, rfl⟩ | ⟨rules, known, fails⟩ := Body.ofTarget_fails fails
    · exact ⟨nofun, nofun⟩
    · exact (Body.ofList_fails ⟨rules, known, .inl rfl⟩ fails).placed other
  rw [GrammarError.fault_within]
  refine ⟨admitted.breaks, fun other => ?_⟩
  have site : (met.within { Site.unknown with language := some language.name }).site =
      ⟨met.site.pattern, met.site.state, some language.name⟩ := by
    rw [GrammarError.site_within other, Site.within, admitted.nameless]
    simp [Site.unknown]
  refine ⟨by rw [site], fun concerns => ?_, fun open_ => ?_, ?_⟩
  · rw [site]
    exact (placed other).pattern concerns
  · rw [site] at open_
    exact ⟨met, (placed other).state open_, rfl⟩
  · rintro ⟨met', stateless, same⟩
    have other' : met'.fault.isBreakdown = false := by
      rw [← GrammarError.fault_within met', ← same, GrammarError.fault_within]
      exact other
    rw [same, GrammarError.site_within other', Site.within, stateless.state_eq]
    rfl

/-- A language with a region in which a group is left to a lexer that there is not. -/
def borrowing : Language where
  name := "borrowing"
  aliases := []
  filenames := []
  aliasFilenames := []
  graph := [
    ("root", [
      .push "<" (.literal "T"),
      .pop ">" (.literal "T") (.integer 1),
      .nested "(a)" (.compound [.dynamic ⟨"absent", none⟩]) "words"]),
    ("words", [])]
  sourceFile := none

/-- The error is met inside the region, where the token of the rule is asked for. -/
theorem compile_placed_borrowing : ∃ e,
    borrowing.compile .standard (fun _ => none) = .error e ∧
      e.fault.isBreakdown = false ∧ e.fault.concernsRule = true ∧
      e.site.language = some borrowing.name ∧ e.site.pattern.isSome = true ∧
      e.site.state = some rootState ∧
      ¬ ∃ met, Body.Stateless borrowing.graph met ∧
        e = met.within { Site.unknown with language := some borrowing.name } := by
  have told : (failure? (borrowing.compile .standard fun _ => none)).map (fun e =>
      (e.fault.isBreakdown, e.fault.concernsRule, e.site.state)) =
        some (false, true, some rootState) := by
    decide +kernel
  cases compiled : borrowing.compile .standard fun _ => none with
  | ok done =>
    rw [compiled] at told
    cases told
  | error e =>
    rw [compiled] at told
    obtain ⟨other, concerns, root⟩ : e.fault.isBreakdown = false ∧ e.fault.concernsRule = true ∧
        e.site.state = some rootState := by
      simpa [failure?] using told
    obtain ⟨language, pattern, state⟩ := (compile_placed compiled).2 other
    refine ⟨e, rfl, other, concerns, language, pattern concerns, root, fun stateless => ?_⟩
    have open_ := state.2 stateless
    rw [root] at open_
    cases open_

/-- A language with a region of which a delimiter opens a group that does not capture. -/
def delimited : Language where
  name := "delimited"
  aliases := []
  filenames := []
  aliasFilenames := []
  graph := [("root", [.push "(?:a" (.literal "T"), .pop "b" (.literal "T") (.integer 1)])]
  sourceFile := none

/-- The error on the delimiter names its pattern and the language, and no state. -/
theorem compile_delimited :
    delimited.compile .standard (fun _ => none) =
      .error ⟨.uncaptured "(?:", ⟨some "(?:a", none, some "delimited"⟩, some 0⟩ := by
  cbv

end Language

end Highlight
