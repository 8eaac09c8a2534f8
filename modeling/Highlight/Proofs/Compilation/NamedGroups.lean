import Highlight.Proofs.Compilation.Binding
import Highlight.Proofs.Inlining.Sessions
import Highlight.Proofs.Regex.Sources

/-!
# The two spellings of a named group

The mark of a named group may have a letter in front of its angle brackets or not. The grammar reads
both spellings as one group, and so do the sampler, which works on what the grammar read, and the
sub-lexers, which respell the group for the host. Where the token of a group is asked for, though, the
group is given to the host as it is spelled, and the host knows only the mark without the letter. So
the spelling with the letter always fails, and the two come to the same only where the other spelling
fails for a cause of the same kind (`Context.dynamicToken_named`).
-/

namespace Highlight

open Reader Grammar Dialect Compilation

/-- A group of the given name and body whose mark has the letter. -/
def lettered (n b : Text) : Text := "(?P<" ++ (n ++ (">" ++ (b ++ ")")))

/-- The same group with the mark without the letter. -/
def unlettered (n b : Text) : Text := "(?<" ++ (n ++ (">" ++ (b ++ ")")))

namespace Grammar

variable {t t' rest y : Text} {as : List Pattern} {a : Pattern}

/-- Only the atom at the front depends on how the front is written. -/
theorem Derives.front {category : Category} (atoms : ∀ a rest, Derives .atom t [a] rest →
      Derives .atom t' [a] rest) (goes : ¬ HeadIn sequenceEnds t)
    (derives : Derives category t as rest) : Derives category t' as rest := by
  induction derives with
  | leaf read => exact atoms _ _ (.leaf read)
  | bare isBare => exact atoms _ _ (.bare isBare)
  | group mark inside => exact atoms _ _ (.group mark inside)
  | item first times => exact .item (atoms _ _ first) times
  | nil ends => exact absurd ends goes
  | cons _ later ih => exact .cons (ih atoms goes) later
  | last _ ends ih => exact .last (ih atoms goes) ends
  | more _ later ih => exact .more (ih atoms goes) later

theorem begins_with_letter (y : Text) : Text.ofString "?P" <+: "?P<" ++ y := ⟨"<" ++ y, rfl⟩

/-- A mark with the letter is one of a named group. -/
theorem Mark.of_letter {w : Text} {node : Pattern → Pattern} (mark : Mark w node)
    (unmarked : t.head? ≠ some (unit '?')) (same : w ++ t = "?P<" ++ y) :
    ∃ n, IsName n ∧ w = "?P<" ++ (n ++ ">") ∧ node = captured (some n) ∧ y = n ++ (">" ++ t) := by
  have begins : Text.ofString "?P" <+: w ++ t := same ▸ begins_with_letter y
  cases mark with
  | plain => exact absurd (by rw [← List.nil_append t, same]; rfl) unmarked
  | @named front n spelling isName =>
    obtain rfl | rfl := spelling
    · refine ⟨n, isName, rfl, rfl, ?_⟩
      rw [List.append_assoc] at same
      rw [← List.append_cancel_left same, List.append_assoc]
    · exact absurd (Regex.second_letter begins) (by decide)
  | uncaptured => exact absurd (Regex.second_letter begins) (by decide)
  | look listed =>
    simp only [lookMarks, List.mem_cons, List.not_mem_nil, or_false] at listed
    obtain rfl | rfl | rfl | rfl := listed <;>
      exact absurd (Regex.second_letter begins) (by decide)
  | @flagged flags nonempty known =>
    have other : ¬ Text.ofString "?P" <+: "?" ++ flags ++ (":" ++ t) :=
      Regex.not_prefix_of_flags nonempty known (by decide)
    rw [List.append_assoc, List.append_assoc, ← List.append_assoc] at begins
    exact absurd begins other

/-- Nothing but a pattern stands in a group whose mark has the letter. -/
theorem Bare.ne_letter {x : Text} (bare : Bare x a) : x ++ unit ')' :: rest ≠ "?P<" ++ y := by
  intro same
  have begins : Text.ofString "?P" <+: x ++ unit ')' :: rest := same ▸ begins_with_letter y
  cases bare with
  | reference => cases (List.cons.inj (List.cons.inj (List.cons.inj same).2).2).1
  | comment => exact absurd (Regex.second_letter begins) (by decide)
  | flags nonempty known => exact Regex.not_prefix_of_flags nonempty known (by decide) begins

/-- A group that is read with the letter is read without it. -/
theorem atom_unlettered (derives : Derives .atom ("(?P<" ++ y) [a] rest) :
    Derives .atom ("(?<" ++ y) [a] rest := by
  generalize front : Text.ofString "(?P<" ++ y = t at derives
  cases derives with
  | leaf read =>
    subst front
    cases read
  | bare isBare => exact absurd (List.cons.inj front).2.symm isBare.ne_letter
  | @group w t _ node options mark inside =>
    obtain ⟨n, isName, rfl, rfl, rfl⟩ := mark.of_letter inside.unmarked (List.cons.inj front).2.symm
    have whole : Text.ofString "(?<" ++ (n ++ (">" ++ t)) =
        unit '(' :: ("?<" ++ (n ++ ">") ++ t) := by
      rw [List.append_assoc, List.append_assoc]
      rfl
    rw [whole]
    exact .group (.named (.inr rfl) isName) inside

end Grammar

variable {n b : Text} {tree : NumberedPattern}

/-- The grammar reads both spellings as the same pattern. -/
theorem read_unlettered (accepted : Pattern.read (lettered n b) = .ok tree) :
    Pattern.read (unlettered n b) = .ok tree := by
  obtain ⟨root, read, rfl⟩ := Pattern.read_eq_ok.1 accepted
  obtain ⟨options, rfl, derives⟩ := Pattern.readTree_iff_derives.1 read
  have goes : ¬ HeadIn sequenceEnds (lettered n b) := fun ends =>
    absurd (ends _ rfl) (by decide)
  exact Pattern.read_eq_ok.2 ⟨_, Pattern.readTree_iff_derives.2
    ⟨options, rfl, derives.front (fun _ _ => atom_unlettered) goes⟩, rfl⟩

/-- The host knows no mark with the letter. -/
theorem Regex.read?_lettered (n b : Text) : Regex.read? (lettered n b) = none := by
  have refused (groups : Groups) (depth : Nat) (t : Text) :
      readNested groups (depth + 1) ("(?P<" ++ t) = none := rfl
  have noRegex (groups : Groups) (t : Text) : readWith? groups ("(?P<" ++ t) = none := by
    rw [readWith?, refused]
  rw [lettered, read?, noRegex]
  exact ite_self _

/-- The sub-lexers give the host one spelling for both. -/
theorem Regex.hostSource_unlettered (n b : Text) :
    Regex.hostSource (unlettered n b) = Regex.hostSource (lettered n b) := by
  have same (t : Text) : respell false ("(?<" ++ t) = respell false ("(?P<" ++ t) := by
    have kept := @respell_kept t "?<" (by decide) fun begins =>
      absurd (second_letter begins) (by decide)
    have changed := respell_group ("?P<" ++ t)
    exact kept.trans changed.symm
  exact same _

/-- Both spellings have the same samples. -/
theorem Sampling.longestSample_unlettered (accepted : Pattern.read (lettered n b) = .ok tree)
    (candidates expansion : Number) : longestSample (unlettered n b) candidates expansion =
      longestSample (lettered n b) candidates expansion := by
  simp only [longestSample, samples, accepted, read_unlettered accepted]

namespace Context

variable {ctx : Context} {ref : LexerRef} {σ : Session} {group sample : Text}

theorem dynamicToken_unsampled {met : GrammarError}
    (unsampled : Sampling.longestSample group ctx.limits.maxCandidates ctx.limits.expansionLimit =
      .error met) : Fails (ctx.dynamicToken group ref) σ met σ :=
  fails_bind_iff.2 (.inl (fails_ofExcept_iff.2 ⟨unsampled, rfl⟩))

/-- A group that the host does not read fails once it has a sample, whatever is asked for. -/
theorem dynamicToken_invalid (invalid : Regex.read? group = none)
    (sampled : Sampling.longestSample group ctx.limits.maxCandidates ctx.limits.expansionLimit =
      .ok sample) :
    Fails (ctx.dynamicToken group ref) σ (.atPattern (.invalidGroup group) group) σ := by
  have failed : matchedSample group sample = .error (.atPattern (.invalidGroup group) group) := by
    simp only [matchedSample, invalid]
  exact fails_bind_iff.2 <| .inr ⟨sample, σ, yields_ofExcept_iff.2 ⟨sampled, rfl⟩,
    fails_bind_iff.2 (.inl (fails_ofExcept_iff.2 ⟨failed, rfl⟩))⟩

/-- The two spellings of a named group are one pattern to the grammar, have one spelling for the host
in a sub-lexer, and have the same samples. Where they have none, because the search for them breaks
down, naming their token breaks down alike. Otherwise it fails for the spelling with the letter, since
the host does not read that one, and it comes to the same for the other spelling only if it fails
there for a cause of the same kind. -/
theorem dynamicToken_named (accepted : Pattern.read (lettered n b) = .ok tree) :
    Pattern.read (unlettered n b) = .ok tree ∧
    Regex.hostSource (unlettered n b) = Regex.hostSource (lettered n b) ∧
    Regex.read? (lettered n b) = none ∧
    ∀ (ctx : Context) (ref : LexerRef) (σ : Session),
      (∀ met, Sampling.longestSample (unlettered n b) ctx.limits.maxCandidates
          ctx.limits.expansionLimit = .error met →
        Fails (ctx.dynamicToken (unlettered n b) ref) σ met σ ∧
        Fails (ctx.dynamicToken (lettered n b) ref) σ met σ) ∧
      ∀ sample, Sampling.longestSample (unlettered n b) ctx.limits.maxCandidates
          ctx.limits.expansionLimit = .ok sample →
        Fails (ctx.dynamicToken (lettered n b) ref) σ
          (.atPattern (.invalidGroup (lettered n b)) (lettered n b)) σ ∧
        (Agree GrammarError.SameKind ((ctx.dynamicToken (lettered n b) ref).run.run σ).1
            ((ctx.dynamicToken (unlettered n b) ref).run.run σ).1 ↔
          ∃ met σ', Fails (ctx.dynamicToken (unlettered n b) ref) σ met σ' ∧
            met.fault.kind = .malformedGroupSample) := by
  refine ⟨read_unlettered accepted, Regex.hostSource_unlettered n b, Regex.read?_lettered n b,
    fun ctx ref σ => ⟨fun met unsampled => ?_, fun sample sampled => ?_⟩⟩
  · refine ⟨dynamicToken_unsampled unsampled, dynamicToken_unsampled ?_⟩
    rwa [← Sampling.longestSample_unlettered accepted]
  · rw [Sampling.longestSample_unlettered accepted] at sampled
    have fails : Fails (ctx.dynamicToken (lettered n b) ref) σ
        (.atPattern (.invalidGroup (lettered n b)) (lettered n b)) σ :=
      dynamicToken_invalid (Regex.read?_lettered n b) sampled
    refine ⟨fails, ?_⟩
    rw [fails]
    obtain ⟨token, σ', yields⟩ | ⟨met, σ', failed⟩ :=
      yields_or_fails (ctx.dynamicToken (unlettered n b) ref) σ
    · rw [yields]
      refine ⟨nofun, fun ⟨met, σ'', failed, _⟩ => ?_⟩
      cases yields.symm.trans failed
    · rw [failed]
      constructor
      · rintro (_ | same)
        exact ⟨met, σ', failed, same.symm⟩
      · rintro ⟨met', σ'', failed', kind⟩
        cases failed.symm.trans failed'
        exact .error kind.symm

/-- A language of one letter. -/
def letterContext : Context where
  language := { (default : Language) with graph := [("root", [.literal "a" (.literal "A")])] }
  limits := .standard
  lookup _ := none

/-- The host reads the spelling without the letter, and the token of the letter is named for it. -/
theorem letterContext_token : (Regex.read? (unlettered "n" "a")).isSome ∧
    ((letterContext.dynamicToken (unlettered "n" "a") ⟨"this", none⟩).run.run []).1.toOption =
      some "A" := by
  decide +kernel

/-- The letter is a sample of the group in both spellings, and the two part where a token is named. -/
theorem dynamicToken_named_letter :
    ∃ tree, Pattern.read (lettered "n" "a") = .ok tree ∧
      Sampling.longestSample (unlettered "n" "a") letterContext.limits.maxCandidates
        letterContext.limits.expansionLimit = .ok "a" ∧
      Fails (letterContext.dynamicToken (lettered "n" "a") ⟨"this", none⟩) []
        (.atPattern (.invalidGroup "(?P<n>a)") "(?P<n>a)") [] ∧
      ¬ Agree GrammarError.SameKind
        ((letterContext.dynamicToken (lettered "n" "a") ⟨"this", none⟩).run.run []).1
        ((letterContext.dynamicToken (unlettered "n" "a") ⟨"this", none⟩).run.run []).1 := by
  have facts : (do
      let tree ← (Pattern.read (lettered "n" "a")).toOption
      let sample ← (Sampling.longestSample (unlettered "n" "a") letterContext.limits.maxCandidates
        letterContext.limits.expansionLimit).toOption
      pure (tree.groupCount, sample)) = some (1, Text.ofString "a") := by
    decide +kernel
  obtain ⟨tree, read, facts⟩ := Option.bind_eq_some_iff.1 facts
  obtain ⟨sample, sampled, facts⟩ := Option.bind_eq_some_iff.1 facts
  simp only [Option.pure_def, Option.some.injEq, Prod.mk.injEq] at facts
  obtain ⟨-, rfl⟩ := facts
  have accepted := eq_ok_of_toOption read
  have sampled := eq_ok_of_toOption sampled
  obtain ⟨fails, agree⟩ := ((dynamicToken_named accepted).2.2.2 letterContext ⟨"this", none⟩ []).2
    _ sampled
  refine ⟨tree, accepted, sampled, fails, fun same => ?_⟩
  obtain ⟨met, σ', failed, -⟩ := agree.1 same
  have yields := letterContext_token.2
  rw [failed] at yields
  cases yields

/-- The grammar accepts both spellings of the group and the host the one without the letter. A token
is named for that one, and for the other naming one fails. -/
theorem dynamicToken_differs :
    (Pattern.read (lettered "n" "a")).toOption.isSome ∧
    (Pattern.read (unlettered "n" "a")).toOption.isSome ∧
    (Regex.read? (unlettered "n" "a")).isSome ∧
    ¬ Agree GrammarError.SameKind
      ((letterContext.dynamicToken (lettered "n" "a") ⟨"this", none⟩).run.run []).1
      ((letterContext.dynamicToken (unlettered "n" "a") ⟨"this", none⟩).run.run []).1 := by
  refine ⟨by decide +kernel, by decide +kernel, letterContext_token.1, fun same => ?_⟩
  have failed :
      ((letterContext.dynamicToken (lettered "n" "a") ⟨"this", none⟩).run.run []).1.toOption =
        none := by
    decide +kernel
  have token := letterContext_token.2
  generalize ((letterContext.dynamicToken (lettered "n" "a") ⟨"this", none⟩).run.run []).1 = x
    at same failed
  generalize ((letterContext.dynamicToken (unlettered "n" "a") ⟨"this", none⟩).run.run []).1 = y
    at same token
  cases same with
  | ok => cases failed
  | error => cases token

end Context

end Highlight
