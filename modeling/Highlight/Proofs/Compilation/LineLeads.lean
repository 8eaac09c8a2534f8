import Highlight.Proofs.Compilation.RuleOrder
import Highlight.Proofs.Pattern.Trimmed

/-!
# Leads of line-running patterns

What stands in front of the part of a pattern that runs to the end of the line. The text is the
lead, perhaps a wildcard, and one of the known endings (`eq_of_lineLead?`). A literal rule binds
nothing just if its pattern is one of the few that only run to the end of the line
(`ofLiteral_eq_none_iff`). The lead of any other one is a pattern unless a backslash escapes what
was trimmed, and that belonged to the last option of the lead only (`lineStart_trims`).
-/

namespace Highlight.Binding

open Compilation

variable {ctx : Context} {σ σ' : Session}

/-- Any units up to the end of the line. -/
def wildcard : Text := ".*"

theorem eq_dropEnding_append {ending t : Text} (ends : ending.isSuffixOf t = true) :
    t = dropEnding ending t ++ ending := by
  obtain ⟨front, rfl⟩ := List.isSuffixOf_iff_suffix.1 ends
  simp [dropEnding]

theorem eq_dropEnding_or (ending t : Text) :
    t = dropEnding ending t ++ ending ∨ t = dropEnding ending t := by
  by_cases ends : ending.isSuffixOf t = true
  · exact .inl (eq_dropEnding_append ends)
  · exact .inr (by simp [dropEnding, ends])

/-- Of a pattern that runs to the end of the line, one ending is trimmed, and then perhaps one more
wildcard. -/
theorem eq_of_lineLead? {pattern lead : Text} (found : lineLead? pattern = some lead) :
    ∃ more ending, (more = [] ∨ more = wildcard) ∧ ending ∈ lineRunningEndings ∧
      pattern = lead ++ (more ++ ending) := by
  obtain ⟨ending, first, rfl⟩ := Option.map_eq_some_iff.1 found
  have ends : ending.isSuffixOf pattern = true := by simpa using List.find?_some first
  have whole := eq_dropEnding_append ends
  have known := List.mem_of_find?_eq_some first
  obtain wild | bare := eq_dropEnding_or wildcard (dropEnding ending pattern)
  · refine ⟨wildcard, ending, .inr rfl, known, ?_⟩
    rw [← List.append_assoc]
    exact whole.trans (congrArg (· ++ ending) wild)
  · refine ⟨[], ending, .inl rfl, known, ?_⟩
    rw [List.nil_append]
    exact whole.trans (congrArg (· ++ ending) bare)

/-- The patterns that run to the end of the line from where a rule begins, apart from the end of
the line itself. -/
def lineRuns : List Text := [".*", ".*.*", ".*\\n", "^.*", "^.*.*", "^.*\\n", "^\\n"]

/-- A literal rule binds nothing just if its pattern only runs to the end of the line. -/
theorem ofLiteral_eq_none_iff {pattern : Text} {token : TokenType} :
    ofLiteral pattern token = .ok none ↔ pattern = lineEndPattern ∨ pattern ∈ lineRuns := by
  constructor
  · intro none
    unfold ofLiteral at none
    cases front : lineLead? pattern with
    | none =>
      rw [front] at none
      obtain ⟨converted, -, absurd⟩ := except_map_eq_ok_iff.1 none
      cases absurd
    | some lead =>
      have short : lead = [] ∨ lead = Text.ofString "^" := by
        by_contra long
        rw [front] at none
        simp only [long, if_false] at none
        obtain ⟨converted, -, absurd⟩ := except_map_eq_ok_iff.1 none
        cases absurd
      obtain ⟨more, ending, wild, known, rfl⟩ := eq_of_lineLead? front
      simp only [lineRunningEndings, List.mem_cons, List.not_mem_nil, or_false] at known
      obtain rfl | rfl := short <;> obtain rfl | rfl := wild <;> obtain rfl | rfl := known <;>
        decide
  · rintro (rfl | runs)
    · rfl
    · simp only [lineRuns, List.mem_cons, List.not_mem_nil, or_false] at runs
      obtain rfl | rfl | rfl | rfl | rfl | rfl | rfl := runs <;> rfl

/-- A rule that leaves its state binds nothing just if it names one token and its pattern only runs
to the end of the line, the end of the line itself excepted. -/
theorem leaving_eq_none_iff {pattern : Text} {token : TokenSpec} {binding : Option Binding}
    (h : Yields (ofPattern ctx pattern token true) σ binding σ') :
    binding = none ↔ (∃ literal, token = .literal literal) ∧ pattern ∈ lineRuns := by
  cases token with
  | literal token =>
    by_cases line : pattern = lineEndPattern
    · have ends : Yields (pure (some (.lineEnd token))) σ binding σ' := by
        simpa only [ofPattern, line, and_self, if_true] using h
      obtain ⟨rfl, -⟩ := yields_pure_iff.1 ends
      have short : lineEndPattern ∉ lineRuns := by decide
      simp [line, short]
    · simp only [ofPattern, line, and_false, if_false] at h
      obtain ⟨found, -⟩ := yields_ofExcept_iff.1 h
      constructor
      · rintro rfl
        exact ⟨⟨token, rfl⟩, (ofLiteral_eq_none_iff.1 found).resolve_left line⟩
      · rintro ⟨-, runs⟩
        rw [ofLiteral_eq_none_iff.2 (.inr runs)] at found
        exact (Except.ok.inj found).symm
  | compound items =>
    obtain ⟨groups, σ₁, -, last⟩ := yields_bind_iff.1 h
    obtain ⟨rfl, -⟩ := yields_pure_iff.1 last
    simp
  | dynamic ref => exact absurd h not_yields_throw

/-! ## What is trimmed -/

/-- All that may stand behind the lead. -/
def lineTails : List Text := ["\\n", ".*\\n", ".*", ".*.*"]

theorem tail_of_lineLead? {pattern lead : Text} (found : lineLead? pattern = some lead) :
    ∃ ending ∈ lineTails, pattern = lead ++ ending := by
  obtain ⟨more, ending, wild, known, parts⟩ := eq_of_lineLead? found
  refine ⟨more ++ ending, ?_, parts⟩
  simp only [lineRunningEndings, List.mem_cons, List.not_mem_nil, or_false] at known
  obtain rfl | rfl := wild <;> obtain rfl | rfl := known <;> decide

theorem isTail_of_mem {ending : Text} (listed : ending ∈ lineTails) : Grammar.IsTail ending := by
  have begins : ∀ ending ∈ lineTails, ending.head?.any seams.contains = true := by decide
  have avoids : ∀ ending ∈ lineTails,
      unit ']' ∉ ending ∧ unit ')' ∉ ending ∧ unit '|' ∉ ending := by decide
  have constant : ∀ ending ∈ lineTails, (Pattern.readTree ending).toOption.any (fun root =>
      root.parts.all fun part => part.captureIndex.isNone && !part.isContextual) = true := by
    decide +kernel
  obtain ⟨u, first, seam⟩ := (Option.any_eq_true _ _).1 (begins ending listed)
  obtain ⟨root, read, parts⟩ := (Option.any_eq_true _ _).1 (constant ending listed)
  simp only [List.all_eq_true, Bool.and_eq_true, Option.isNone_iff_eq_none,
    Bool.not_eq_true'] at parts
  have filled : ending ≠ [] := by
    rintro rfl
    cases first
  have front : HeadIn seams ending := by
    intro v begins
    obtain rfl := Option.some.inj (first.symm.trans begins)
    exact List.contains_iff_mem.1 seam
  exact ⟨filled, front, avoids ending listed, root, eq_ok_of_toOption read,
    fun part inside => (parts part inside).1, fun part inside => (parts part inside).2⟩

theorem lineLead?_of_lineStart {pattern text : Text} {token token' : TokenType}
    (bound : ofLiteral pattern token = .ok (some (.lineStart token' text))) :
    ∃ lead, lineLead? pattern = some lead ∧ Dialect.convert lead = .ok text := by
  unfold ofLiteral at bound
  cases found : lineLead? pattern with
  | none =>
    rw [found] at bound
    obtain ⟨_, -, absurd⟩ := except_map_eq_ok_iff.1 bound
    cases absurd
  | some lead =>
    rw [found] at bound
    by_cases short : lead = [] ∨ lead = Text.ofString "^"
    · simp only [short, if_true] at bound
      cases bound
    · simp only [short, if_false] at bound
      obtain ⟨_, converted, same⟩ := except_map_eq_ok_iff.1 bound
      cases same
      exact ⟨lead, rfl, converted⟩

/-- Of a line-running pattern that is bound to the start of a line, the lead is a pattern just if it
does not end in the middle of an escape. What was trimmed from behind belonged to the last option of
the lead: the whole pattern matches what the other options match, and what the last option matches
with what the trimmed part matches behind it. Where the lead is no alternative, the pattern matches
just what the lead matches with that behind it. -/
theorem lineStart_trims {pattern text : Text} {token : TokenType} {tree : NumberedPattern}
    (accepted : Pattern.read pattern = .ok tree)
    (bound : ofLiteral pattern token = .ok (some (.lineStart token text))) :
    ∃ lead ending tail, lineLead? pattern = some lead ∧ Dialect.convert lead = .ok text ∧
      pattern = lead ++ ending ∧ ending ∈ lineTails ∧ Pattern.read ending = .ok tail ∧
      ((∃ front, Pattern.read lead = .ok front) ↔ Ground.run .code lead ≠ .escaped) ∧
      ∀ front, Pattern.read lead = .ok front →
        (∃ others last, front.root = Grammar.alternativesOf (others ++ [last]) ∧
          ∀ t, tree.Matches t ↔ (∃ option ∈ others, (front.withRoot option).Matches t) ∨
            ∃ x y, t = x ++ y ∧ (front.withRoot last).Matches x ∧ tail.Matches y) ∧
        ((∀ options, front.root ≠ .alt options) → ∀ t, tree.Matches t ↔
          ∃ x y, t = x ++ y ∧ front.Matches x ∧ tail.Matches y) := by
  obtain ⟨lead, found, converted⟩ := lineLead?_of_lineStart bound
  obtain ⟨ending, listed, rfl⟩ := tail_of_lineLead? found
  have isTail := isTail_of_mem listed
  obtain ⟨root, behind, _⟩ := isTail.reads
  have behind : Pattern.read ending = .ok root.numbered :=
    Pattern.read_eq_ok.2 ⟨root, behind, rfl⟩
  refine ⟨lead, ending, _, found, converted, rfl, listed, behind,
    NumberedPattern.read_front_iff isTail accepted, fun front alone => ?_⟩
  obtain ⟨others, last, parts, iff⟩ := NumberedPattern.matches_trimmed isTail accepted alone behind
  refine ⟨⟨others, last, parts, iff⟩, fun single t => ?_⟩
  cases others with
  | nil =>
    have same : front.withRoot last = front := congrArg front.withRoot parts.symm
    simp [iff, same]
  | cons other others =>
    have options : front.root = .alt (other :: (others ++ [last])) := by
      rw [parts, List.cons_append, Grammar.alternativesOf_cons]
      simp
    exact absurd options (single _)

theorem lineStart_trims_word : ∃ tree front tail,
    Pattern.read "\\w+.*" = .ok tree ∧
    ofLiteral "\\w+.*" "Token.A" = .ok (some (.lineStart "Token.A" "\\w+")) ∧
    Pattern.read "\\w+" = .ok front ∧ Pattern.read ".*" = .ok tail ∧
    ∀ t, tree.Matches t ↔ ∃ x y, t = x ++ y ∧ front.Matches x ∧ tail.Matches y := by
  have reads : ∃ tree, Pattern.read "\\w+.*" = .ok tree := ⟨_, rfl⟩
  have bound : ofLiteral "\\w+.*" "Token.A" = .ok (some (.lineStart "Token.A" "\\w+")) := by rfl
  obtain ⟨tree, accepted⟩ := reads
  obtain ⟨lead, ending, tail, found, -, parts, -, behind, -, means⟩ := lineStart_trims accepted bound
  obtain rfl : lead = "\\w+" := Option.some.inj (found.symm.trans rfl)
  have joined : ("\\w+" : Text) ++ ".*" = "\\w+" ++ ending := parts
  obtain rfl := List.append_cancel_left joined
  obtain ⟨front, alone, single⟩ : ∃ front, Pattern.read "\\w+" = .ok front ∧
      ∀ options, front.root ≠ .alt options := ⟨_, rfl, nofun⟩
  exact ⟨tree, front, tail, accepted, bound, alone, behind, (means front alone).2 single⟩

/-- A backslash is cut off the unit that it escapes, and of alternatives only the last one had the
wildcard behind it. -/
theorem lineStart_cuts :
    (∃ tree, Pattern.read "a\\.*" = .ok tree ∧
      ofLiteral "a\\.*" "Token.A" = .ok (some (.lineStart "Token.A" "a\\")) ∧
      ∀ front, Pattern.read "a\\" ≠ .ok front) ∧
    ∃ tree front tail, Pattern.read "a|b.*" = .ok tree ∧
      ofLiteral "a|b.*" "Token.A" = .ok (some (.lineStart "Token.A" "a|b")) ∧
      Pattern.read "a|b" = .ok front ∧ Pattern.read ".*" = .ok tail ∧
      ¬ ∀ t, tree.Matches t ↔ ∃ x y, t = x ++ y ∧ front.Matches x ∧ tail.Matches y := by
  constructor
  · exact ⟨_, rfl, rfl, nofun⟩
  · let any : Pattern := .repeated (.set false [.named .any]) 0 none
    let tree : NumberedPattern := ⟨.alt [.char 97, .seq [.char 98, any]], 0, []⟩
    let front : NumberedPattern := ⟨.alt [.char 97, .char 98], 0, []⟩
    refine ⟨tree, front, ⟨any, 0, []⟩, rfl, rfl, rfl, rfl, fun claimed => ?_⟩
    have first : front.Matches [97] := ⟨_, .inl ⟨rfl, rfl⟩⟩
    have behind : NumberedPattern.Matches ⟨any, 0, []⟩ [98] := by
      have admits : Reading.full.admits false [.named .any] 98 :=
        iff_of_true rfl ⟨_, List.mem_cons_self, rfl⟩
      exact ⟨_, 1, Nat.zero_le 1, nofun, [98], [], _, ⟨⟨98, admits, rfl⟩, rfl⟩, ⟨rfl, rfl⟩, rfl⟩
    have joined : tree.Matches [97, 98] := (claimed _).2 ⟨[97], [98], rfl, first, behind⟩
    obtain ⟨after, spelled⟩ := joined
    simp [tree, Pattern.Spells, Pattern.SpellsAll, Pattern.SpellsAny] at spelled

end Highlight.Binding
