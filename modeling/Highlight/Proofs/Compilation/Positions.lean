import Highlight.Proofs.Compilation.Breakdown
import Highlight.Proofs.Dialect.Opening
import Highlight.Proofs.Report.Snippet

/-!
# Positions of errors

An error of a compilation that has a position also has a pattern, and the position lies in it. There
are two sources: a pattern in which an unsupported opening is left, at the place where it was found,
and a group that the grammar of patterns refuses, at the furthest place where something was expected.
Both raise their error with the pattern that they looked at, and no site that is filled in further out
puts another pattern under the position (`GrammarError.Pointed.within`). So the snippet of every
such error has its caret at the right place (`Language.compile_pointed`).
-/

namespace Highlight

open Compilation

/-! ## Where positions come from -/

theorem Text.prefix_drop_of_indexOf? {needle t : Text} {place : Nat}
    (found : indexOf? needle t = some place) : needle <+: t.drop place := by
  induction t generalizing place with
  | nil =>
    rw [indexOf?] at found
    split at found
    · next empty =>
      rw [List.isEmpty_iff.1 empty]
      exact List.nil_prefix
    · cases found
  | cons u t ih =>
    rw [indexOf?] at found
    split at found
    · next begins =>
      cases found
      exact List.isPrefixOf_iff_prefix.1 begins
    · obtain ⟨place', later, rfl⟩ := Option.map_eq_some_iff.1 found
      exact ih later

/-- What is found is an opening of the list, and it stands where it is said to. -/
theorem Dialect.findUnsupported_eq_some {pattern opening : Text} {place : Nat}
    (found : findUnsupported pattern = some (opening, place)) :
    opening ∈ unsupportedOpenings ∧ opening <+: pattern.drop place := by
  obtain ⟨listed, known, found⟩ := List.exists_of_findSome?_eq_some found
  obtain ⟨_, found, same⟩ := Option.map_eq_some_iff.1 found
  cases same
  exact ⟨known, Text.prefix_drop_of_indexOf? found⟩

theorem Reader.readAll_offset_le {α : Type} {p : Reader α} {t : Text} {e : PatternError}
    (failed : p.readAll t = .error e) : e.offset ≤ t.length := by
  unfold readAll at failed
  dsimp only at failed
  split at failed
  · cases failed
  · cases failed
    exact Nat.sub_le _ _
  · cases failed
    exact Nat.sub_le _ _

theorem Pattern.read_offset_le {t : Text} {e : PatternError} (failed : read t = .error e) :
    e.offset ≤ t.length :=
  Reader.readAll_offset_le (except_map_eq_error_iff.1 failed)

/-! ## Errors with a position -/

namespace GrammarError

/-- The error is about a pattern, and the position lies in it. Where an unsupported opening is left,
it is the one that the message names, and it stands at the position. -/
structure PointsInto (e : GrammarError) (pattern : Text) (offset : Nat) : Prop where
  pattern_eq : e.site.pattern = some pattern
  inside : offset ≤ pattern.length
  opening : e.fault.kind = .unsupportedConstruct → ∃ opening ∈ Dialect.unsupportedOpenings,
    opening <+: pattern.drop offset ∧
      e.fault.message = "uncaptured prefix '" ++ opening ++ "' remains after rewriting"

/-- If the error has a position, it points into its pattern. -/
def Pointed (e : GrammarError) : Prop :=
  ∀ offset, e.offset = some offset → ∃ pattern, e.PointsInto pattern offset

variable {e : GrammarError}

theorem Pointed.of_none (none : e.offset = none) : e.Pointed := by
  intro offset some
  rw [none] at some
  cases some

/-- A site around the error does not change the pattern that the position is about. -/
theorem Pointed.within (pointed : e.Pointed) (site : Site) : (e.within site).Pointed := by
  unfold GrammarError.within
  split
  · exact pointed
  · intro offset at_
    obtain ⟨pattern, into⟩ := pointed offset at_
    refine ⟨pattern, ?_, into.inside, into.opening⟩
    show (e.site.pattern <|> site.pattern) = some pattern
    rw [into.pattern_eq]
    rfl

end GrammarError

theorem Dialect.convert_pointed {pattern : Text} {e : GrammarError}
    (refused : convert pattern = .error e) : e.Pointed := by
  unfold convert at refused
  dsimp only at refused
  split at refused
  · cases refused
  · next opening place found =>
    cases refused
    obtain ⟨known, stands⟩ := findUnsupported_eq_some found
    rintro _ ⟨⟩
    have inside : place ≤ (respelled pattern).length := by
      have nonempty : ∀ opening ∈ unsupportedOpenings, opening ≠ [] := by decide
      have fits := List.length_pos_iff.2 (nonempty opening known)
      have := stands.length_le
      rw [List.length_drop] at this
      omega
    exact ⟨respelled pattern, rfl, inside, fun _ => ⟨opening, known, stands, rfl⟩⟩

theorem Sampling.longestSample_pointed {group : Text} {candidates limit : Number}
    {e : GrammarError} (failed : longestSample group candidates limit = .error e) : e.Pointed := by
  obtain ⟨met, refused, rfl⟩ | rfl := longestSample_eq_error failed
  · rintro _ ⟨⟩
    exact ⟨group, rfl, Pattern.read_offset_le refused, nofun⟩
  · exact .of_none rfl

/-! ## Steps -/

namespace Compilation

variable {α β : Type} {x : Compilation α} {f : α → Compilation β}

/-- Every error of the step that has a position points into its pattern. -/
def RaisesPointed (step : Compilation α) : Prop :=
  ∀ σ e σ', Fails step σ e σ' → e.Pointed

theorem pointed_pure (a : α) : RaisesPointed (pure a) :=
  fun _ _ _ fails => absurd fails not_fails_pure

theorem pointed_throw {e : GrammarError} (none : e.offset = none) :
    RaisesPointed (throw e : Compilation α) := by
  intro σ e' σ' fails
  rw [(fails_throw_iff.1 fails).1]
  exact .of_none none

theorem pointed_ofExcept {result : Except GrammarError α}
    (pointed : ∀ e, result = .error e → e.Pointed) : RaisesPointed (.ofExcept result) :=
  fun _ _ _ fails => pointed _ (fails_ofExcept_iff.1 fails).1

theorem RaisesPointed.bind (first : RaisesPointed x) (next : ∀ a, RaisesPointed (f a)) :
    RaisesPointed (x >>= f) := by
  intro σ e σ' fails
  obtain here | ⟨a, σ₁, -, there⟩ := fails_bind_iff.1 fails
  · exact first _ _ _ here
  · exact next a _ _ _ there

theorem RaisesPointed.within (pointed : RaisesPointed x) (site : Site) :
    RaisesPointed (.within site x) := by
  intro σ e σ' fails
  obtain ⟨met, inside, rfl⟩ := fails_within_iff.1 fails
  exact (pointed _ _ _ inside).within site

end Compilation

namespace Context

variable {ctx : Context}

/-- No sub-lexer fails at a position of a pattern. -/
theorem firstToken_pointed (ref : LexerRef) (text : Text) :
    RaisesPointed (ctx.firstToken ref text) := by
  intro σ e σ' fails
  refine .of_none ?_
  cases firstToken_fails fails with
  | nowhere missing =>
    obtain rfl | ⟨language, -, -, rfl⟩ := located_eq_error missing <;> rfl
  | unbuilt _ _ =>
    unfold buildError
    split <;> rfl
  | broken _ _ failed =>
    unfold SubLexer.firstToken at failed
    split at failed <;> cases failed
    rfl

theorem dynamicToken_pointed (group : Text) (ref : LexerRef) :
    RaisesPointed (ctx.dynamicToken group ref) := by
  intro σ e σ' fails
  obtain unsampled | ⟨sample, -, unmatched⟩ | ⟨text, broken⟩ | ⟨text, rfl⟩ :=
    dynamicToken_fails fails
  · exact Sampling.longestSample_pointed unsampled
  · obtain ⟨-, rfl⟩ | ⟨expression, -, -, rfl⟩ := matchedSample_eq_error unmatched <;>
      exact .of_none rfl
  · exact firstToken_pointed ref text σ e σ' broken
  · exact .of_none rfl

end Context

namespace Binding

variable {ctx : Context}

theorem groupTokens_pointed (pattern : Text) (index : Nat) (parts : List Text)
    (items : List TokenSpec) : RaisesPointed (groupTokens ctx pattern index parts items) := by
  induction items generalizing index parts with
  | nil => cases parts <;> exact pointed_pure _
  | cons item items ih =>
    cases parts with
    | nil => exact pointed_pure _
    | cons part parts =>
      have here : RaisesPointed (itemToken ctx pattern index part item) := by
        cases item with
        | literal token => exact pointed_pure _
        | dynamic ref => exact Context.dynamicToken_pointed part ref
        | compound items => exact pointed_throw rfl
      rw [groupTokens_cons]
      exact here.bind fun _ => (ih _ _).bind fun _ => pointed_pure _

theorem ofGroups_pointed (pattern : Text) (items : List TokenSpec) :
    RaisesPointed (ofGroups ctx pattern items) := by
  apply (pointed_ofExcept fun _ => Dialect.convert_pointed).bind
  intro converted
  have bound : RaisesPointed
      (groupTokens ctx converted 0 (Dialect.topLevelGroups converted) items >>= fun tokens =>
        pure (Binding.groups tokens converted)) :=
    (groupTokens_pointed _ _ _ _).bind fun _ => pointed_pure _
  by_cases same : (Dialect.topLevelGroups converted).length = items.length
  · simpa only [ne_eq, same, not_true_eq_false, if_false] using bound
  · simp only [ne_eq, same, not_false_eq_true, if_true]
    exact (pointed_throw rfl).bind fun _ => bound

theorem ofPattern_pointed (pattern : Text) (token : TokenSpec) (leaves : Bool) :
    RaisesPointed (ofPattern ctx pattern token leaves) := by
  cases token with
  | literal token =>
    unfold ofPattern
    dsimp only
    split
    · exact pointed_pure _
    · refine pointed_ofExcept fun e refused => ?_
      obtain ⟨part, refused⟩ := ofLiteral_eq_error refused
      exact Dialect.convert_pointed refused
  | compound items => exact (ofGroups_pointed pattern items).bind fun _ => pointed_pure _
  | dynamic ref => exact pointed_throw rfl

end Binding

/-- Of the places where an error is met, only bindings and delimiters give it a position. -/
theorem Body.Origin.pointed {ctx : Context} {e : GrammarError} (origin : Origin ctx e) :
    e.Pointed := by
  cases origin with
  | room | target | unknown => exact .of_none rfl
  | binding own matched named fails =>
    exact (Binding.ofPattern_pointed _ _ _).within _ _ _ _ fails
  | region own undrawn =>
    obtain rfl | ⟨first, enters, rfl⟩ | ⟨rule, held, pattern, spelled, refused⟩ :=
      Region.binding_eq_error undrawn
    · exact .of_none rfl
    · exact .of_none rfl
    · exact Dialect.convert_pointed refused

namespace Language

variable {language : Language} {limits : Limits} {lookup : Text → Option Language}
  {e : GrammarError}

/-- Wherever an error that a language fails to compile with was met, it points into its pattern. -/
theorem compile_error_pointed (failed : language.compile limits lookup = .error e) : e.Pointed := by
  obtain ⟨met, σ, fails, rfl⟩ := compile_eq_error_iff.1 failed
  apply GrammarError.Pointed.within
  obtain ⟨-, rfl⟩ | ⟨rules, known, fails⟩ := Body.ofTarget_fails fails
  · exact .of_none rfl
  · exact (Body.ofList_fails ⟨rules, known, .inl rfl⟩ fails).pointed

/-- If a language fails to compile with an error that has a position, the error has a pattern and
the position lies in it. An unsupported opening stands at the position, and it is the one that the
message names. The plain snippet of the error shows the pattern on one line, and on a second one a
caret in the column where what it shows of the pattern from the position on begins. -/
theorem compile_pointed (failed : language.compile limits lookup = .error e) {offset : Nat}
    (placed : e.offset = some offset) :
    ∃ pattern column, e.PointsInto pattern offset ∧
      Snippet.Points (Snippet.render .plain pattern e.report.offset) pattern offset column := by
  obtain ⟨pattern, into⟩ := compile_error_pointed failed offset placed
  have told : e.report.offset = some (.integer offset) := by
    rw [GrammarError.report, placed]
    rfl
  rw [told]
  exact ⟨pattern, _, into, Snippet.render_plain into.inside⟩

/-- A language with a pattern of two lines, of which the second one opens a lookahead. -/
def twoLined : Language where
  name := "two-lined"
  aliases := []
  filenames := []
  aliasFilenames := []
  graph := [("root", [.literal "a\r\n(?=b)" (.literal "T")])]
  sourceFile := none

/-- Two line breaks stand in front of the position, each shown as an escape. -/
theorem compile_pointed_twoLined : ∃ e,
    twoLined.compile .standard (fun _ => none) = .error e ∧ e.offset = some 3 ∧
      ∃ pattern column, e.PointsInto pattern 3 ∧
        Snippet.Points (Snippet.render .plain pattern e.report.offset) pattern 3 column := by
  have told : (failure? (twoLined.compile .standard fun _ => none)).map (·.offset) =
      some (some 3) := by
    decide +kernel
  cases compiled : twoLined.compile .standard fun _ => none with
  | ok done =>
    rw [compiled] at told
    cases told
  | error e =>
    rw [compiled] at told
    have placed : e.offset = some 3 := Option.some.inj told
    exact ⟨e, rfl, placed, compile_pointed compiled placed⟩

end Language

end Highlight
