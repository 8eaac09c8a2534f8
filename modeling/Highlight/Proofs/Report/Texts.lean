import Highlight.Failure
import Highlight.Proofs.Compilation.Positions

/-!
# The two texts of an error

An error of a compilation is told in two ways: by its named form, and by a report with a snippet of
its pattern. Without paint the report is the named form of the same error on one line, with the line
breaks of the pattern as escapes and the caret moved along (`GrammarError.render_plain`). Every line
break makes it longer, so the two texts agree just where the pattern holds none
(`Language.compile_texts`).
-/

namespace Highlight

namespace Snippet

variable {pattern : Text}

theorem length_shown (u : CodeUnit) :
    (shown u).length = 1 + [u].count carriageReturn + [u].count Text.lineFeed := by
  unfold shown
  split
  · next same =>
    rw [same]
    decide
  · next other =>
    split
    · next same =>
      rw [same]
      decide
    · next other' => simp [other, other']

/-- An escaped pattern is longer by a unit for each line break. -/
theorem length_escaped (pattern : Text) : (escaped pattern).length =
    pattern.length + pattern.count carriageReturn + pattern.count Text.lineFeed := by
  rw [escaped_eq_flatMap]
  induction pattern with
  | nil => rfl
  | cons u pattern ih =>
    have parts (v : CodeUnit) : ([u] ++ pattern).count v = [u].count v + pattern.count v :=
      List.count_append
    rw [List.singleton_append] at parts
    rw [List.flatMap_cons, List.length_append, length_shown, ih, parts, parts, List.length_cons]
    omega

theorem length_le_escaped (pattern : Text) : pattern.length ≤ (escaped pattern).length := by
  rw [length_escaped]
  omega

theorem escaped_of_unbroken (unbroken : Unbroken pattern) : escaped pattern = pattern := by
  have kept : ∀ u ∈ pattern, shown u = [u] := by
    intro u inside
    have feed : u ≠ Text.lineFeed := fun same => unbroken.feed (same ▸ inside)
    have return_ : u ≠ carriageReturn := fun same => unbroken.return_ (same ▸ inside)
    rw [shown, if_neg return_, if_neg feed]
  rw [escaped_eq_flatMap, List.flatMap_congr kept, List.flatMap_singleton']

/-- Escaping adds nothing just where there is no line break. -/
theorem length_escaped_eq_iff : (escaped pattern).length = pattern.length ↔ Unbroken pattern := by
  constructor
  · intro same
    rw [length_escaped] at same
    have returns : pattern.count carriageReturn = 0 := by omega
    have feeds : pattern.count Text.lineFeed = 0 := by omega
    exact ⟨List.count_eq_zero.1 feeds, List.count_eq_zero.1 returns⟩
  · exact fun unbroken => congrArg List.length (escaped_of_unbroken unbroken)

theorem Unbroken.take (unbroken : Unbroken pattern) (n : Nat) : Unbroken (pattern.take n) :=
  ⟨fun inside => unbroken.feed (List.mem_of_mem_take inside),
    fun inside => unbroken.return_ (List.mem_of_mem_take inside)⟩

/-- The caret never moves to the left. -/
theorem le_column {offset : Nat} (inside : offset ≤ pattern.length) :
    offset ≤ column pattern offset := by
  have front := length_le_escaped (pattern.take offset)
  rwa [List.length_take, Nat.min_eq_left inside] at front

theorem column_of_unbroken {offset : Nat} (unbroken : Unbroken pattern)
    (inside : offset ≤ pattern.length) : column pattern offset = offset := by
  rw [column, escaped_of_unbroken (unbroken.take offset), List.length_take, Nat.min_eq_left inside]

end Snippet

namespace GrammarError

open Snippet (Unbroken)

variable {e : GrammarError}

/-- Where an error points into its pattern, its position lies in it. -/
theorem Pointed.inside {pattern : Text} (pointed : e.Pointed)
    (told : e.site.pattern = some pattern) : ∀ offset ∈ e.offset, offset ≤ pattern.length := by
  intro offset placed
  obtain ⟨pattern', into⟩ := pointed offset placed
  obtain rfl : pattern = pattern' := Option.some.inj (told.symm.trans into.pattern_eq)
  exact into.inside

/-- The same error about the pattern on one line. -/
def onOneLine (e : GrammarError) : GrammarError :=
  match e.site.pattern with
  | none => e
  | some pattern =>
    { e with
      site := { e.site with pattern := some (Snippet.escaped pattern) }
      offset := e.offset.map (Snippet.column pattern) }

theorem onOneLine_of_none (none : e.site.pattern = none) : e.onOneLine = e := by
  rw [onOneLine, none]

/-- The first line does not depend on the pattern. -/
theorem heading_onOneLine : e.onOneLine.report.heading = e.report.heading := by
  unfold onOneLine
  split <;> rfl

/-- What follows the first line in the named form. -/
def detail (pattern : Text) (offset : Option Nat) : Text :=
  "\n\n  | " ++ pattern ++ match offset with
    | none => []
    | some offset => "\n  | " ++ Text.fill offset (unit ' ') ++ "^"

theorem floorNat_integer (n : Nat) : (Number.integer n).floorNat = n := by
  simp [Number.integer, Number.floorNat]

theorem toText_eq {pattern : Text} (told : e.site.pattern = some pattern) :
    e.toText = e.report.heading ++ detail pattern e.offset := by
  have told : e.report.site.pattern = some pattern := told
  unfold toText Report.toText
  rw [told]
  cases placed : e.offset with
  | none =>
    have nowhere : e.report.offset = none := by rw [report, placed]; rfl
    simp only [nowhere, detail, List.append_nil, List.append_assoc]
  | some offset =>
    have there : e.report.offset = some (.integer offset) := by rw [report, placed]; rfl
    simp only [there, detail, floorNat_integer, List.append_assoc]

theorem length_detail (pattern : Text) (offset : Option Nat) :
    (detail pattern offset).length =
      6 + pattern.length + (offset.map fun offset => 6 + offset).getD 0 := by
  have margin : (Text.ofString "\n\n  | ").length = 6 := by decide
  have margin' : (Text.ofString "\n  | ").length = 5 := by decide
  have caret : (Text.ofString "^").length = 1 := by decide
  cases offset with
  | none => simp [detail, margin]
  | some offset =>
    simp [detail, margin, margin', caret, Text.fill]
    omega

/-- A snippet without paint is what the named form has behind its first line, on one line. -/
theorem snippet_plain {pattern : Text} (inside : ∀ offset ∈ e.offset, offset ≤ pattern.length) :
    "\n\n" ++ Snippet.render .plain pattern e.report.offset =
      detail (Snippet.escaped pattern) (e.offset.map (Snippet.column pattern)) := by
  have front : Text.ofString "\n\n  | " = "\n\n" ++ Snippet.margin := by decide
  have next : Text.ofString "\n  | " = Text.lineFeed :: Snippet.margin := by decide
  cases placed : e.offset with
  | none =>
    have nowhere : e.report.offset = none := by rw [report, placed]; rfl
    simp only [nowhere, detail, front, Option.map_none, List.append_nil, List.append_assoc]
    rfl
  | some offset =>
    have there : e.report.offset = some (.integer offset) := by rw [report, placed]; rfl
    simp only [there, detail, front, next, Option.map_some,
      Snippet.render_plain_eq (inside offset placed), List.append_assoc, List.cons_append]

/-- Without paint the report of an error is its named form on one line. -/
theorem render_plain (pointed : e.Pointed) :
    (Failure.grammar e.report).render .plain = e.onOneLine.toText := by
  cases told : e.site.pattern with
  | none =>
    have told' : e.report.site.pattern = none := told
    rw [onOneLine_of_none told, toText, Report.toText, Failure.render, Report.render, told']
    rfl
  | some pattern =>
    have told' : e.report.site.pattern = some pattern := told
    have onLine : e.onOneLine.site.pattern = some (Snippet.escaped pattern) := by
      rw [onOneLine, told]
    have moved : e.onOneLine.offset = e.offset.map (Snippet.column pattern) := by
      rw [onOneLine, told]
    rw [toText_eq onLine, heading_onOneLine, moved, ← snippet_plain (pointed.inside told),
      Failure.render, Report.render, told', ← List.append_assoc]
    rfl

/-- An error says the same on one line just if its pattern stands on one line. -/
theorem toText_onOneLine_eq_iff (pointed : e.Pointed) :
    e.onOneLine.toText = e.toText ↔ ∀ pattern ∈ e.site.pattern, Unbroken pattern := by
  cases told : e.site.pattern with
  | none => simp [onOneLine_of_none told]
  | some pattern =>
    have onLine : e.onOneLine.site.pattern = some (Snippet.escaped pattern) := by
      rw [onOneLine, told]
    have moved : e.onOneLine.offset = e.offset.map (Snippet.column pattern) := by
      rw [onOneLine, told]
    have inside := pointed.inside told
    rw [toText_eq told, toText_eq onLine, heading_onOneLine, moved, List.append_cancel_left_eq]
    simp only [Option.mem_some_iff, forall_eq']
    constructor
    · -- both the pattern and the blanks in front of the caret can only grow
      intro same
      have lengths := congrArg List.length same
      have grows := Snippet.length_le_escaped pattern
      rw [length_detail, length_detail] at lengths
      refine Snippet.length_escaped_eq_iff.1 ?_
      cases placed : e.offset with
      | none =>
        rw [placed] at lengths
        simpa using lengths
      | some offset =>
        have moves := Snippet.le_column (inside offset placed)
        rw [placed] at lengths
        simp only [Option.map_some, Option.getD_some] at lengths
        omega
    · intro unbroken
      have kept : e.offset.map (Snippet.column pattern) = e.offset := by
        cases placed : e.offset with
        | none => rfl
        | some offset =>
          exact congrArg some (Snippet.column_of_unbroken unbroken (inside offset placed))
      rw [Snippet.escaped_of_unbroken unbroken, kept]

end GrammarError

namespace Language

variable {language : Language} {limits : Limits} {lookup : Text → Option Language}
  {e : GrammarError}

/-- The report of an error that a language fails to compile with is, without paint, the named form of
the same error on one line. So the two texts of the error agree unless its pattern holds a line
break. -/
theorem compile_texts (failed : language.compile limits lookup = .error e) :
    (Failure.grammar e.report).render .plain = e.onOneLine.toText ∧
      ((Failure.grammar e.report).render .plain = (Failure.grammar e.report).toText ↔
        ∀ pattern ∈ e.site.pattern, Snippet.Unbroken pattern) := by
  have pointed := compile_error_pointed failed
  have plain := GrammarError.render_plain pointed
  refine ⟨plain, ?_⟩
  rw [plain]
  exact GrammarError.toText_onOneLine_eq_iff pointed

/-- A language with a pattern of one line that opens a lookahead behind a tab. -/
def oneLined : Language where
  name := "one-lined"
  aliases := []
  filenames := []
  aliasFilenames := []
  graph := [("root", [.literal "a\t(?=b)" (.literal "T")])]
  sourceFile := none

/-- The error that a language of one rule with a lookahead fails to compile with. -/
def lookaheadError (language pattern : Text) (offset : Nat) : GrammarError :=
  ⟨.uncaptured "(?=", ⟨some pattern, some rootState, some language⟩, some offset⟩

theorem compile_texts_oneLined :
    oneLined.compile .standard (fun _ => none) =
        .error (lookaheadError "one-lined" "a\t(?=b)" 2) ∧
      (Failure.grammar (lookaheadError "one-lined" "a\t(?=b)" 2).report).render .plain =
        (Failure.grammar (lookaheadError "one-lined" "a\t(?=b)" 2).report).toText := by
  have failed : oneLined.compile .standard (fun _ => none) =
      .error (lookaheadError "one-lined" "a\t(?=b)" 2) := by
    cbv
  refine ⟨failed, (compile_texts failed).2.2 ?_⟩
  rintro pattern ⟨⟩
  exact ⟨by decide, by decide⟩

/-- The named form of the error has two line breaks more, and its caret two columns further left. -/
theorem compile_twoLined :
    twoLined.compile .standard (fun _ => none) =
        .error (lookaheadError "two-lined" "a\r\n(?=b)" 3) ∧
      (Failure.grammar (lookaheadError "two-lined" "a\r\n(?=b)" 3).report).render .plain =
        Text.ofString "UnsupportedConstruct in two-lined [root]: " ++
          "uncaptured prefix '(?=' remains after rewriting\n\n  | a\\r\\n(?=b)\n  |      ^" ∧
      (Failure.grammar (lookaheadError "two-lined" "a\r\n(?=b)" 3).report).toText =
        Text.ofString "UnsupportedConstruct in two-lined [root]: " ++
          "uncaptured prefix '(?=' remains after rewriting\n\n  | a\r\n(?=b)\n  |    ^" ∧
      (Failure.grammar (lookaheadError "two-lined" "a\r\n(?=b)" 3).report).render .plain ≠
        (Failure.grammar (lookaheadError "two-lined" "a\r\n(?=b)" 3).report).toText := by
  refine ⟨by cbv, by decide +kernel, by decide +kernel, by decide +kernel⟩

end Language

end Highlight
