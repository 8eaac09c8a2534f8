import Highlight.Proofs.Compilation.Binding
import Highlight.Proofs.Compilation.Session
import Highlight.Proofs.Pattern.Limits
import Highlight.Proofs.Pattern.ReadAlike

/-!
# Groups that do not match their sample

The token of a group that is left to another lexer is found through one sample of the group, the
longest one, and only that sample is matched (`Context.unmatched_iff`): which lexer is asked and what
the session holds have no say in it. Where the group depends on nothing around it and is read alike
by the sampler and by the matcher, every sample without a line break matches, so that the report of
an unmatched sample tells of a group whose samples all hold one (`Context.dynamicToken_unmatched`).
Elsewhere the report may hide a sample that matches (`Context.dynamicToken_overlooks`).
-/

namespace Highlight

open Compilation

namespace Sampling

/-- The longer one of a text and the one that is the longest so far. -/
def longer (best t : Text) : Text := if best.length < (flat t).length then flat t else best

theorem longest_eq (texts : List Text) : longest texts = texts.foldl longer [] := rfl

theorem foldl_longer_cases (texts : List Text) (best : Text) :
    texts.foldl longer best = best ∨ ∃ t ∈ texts, flat t = texts.foldl longer best := by
  induction texts generalizing best with
  | nil => exact .inl rfl
  | cons t texts ih =>
    rw [List.foldl_cons]
    obtain same | ⟨t', listed, same⟩ := ih (longer best t)
    · rw [same, longer]
      split
      · exact .inr ⟨t, List.mem_cons_self, rfl⟩
      · exact .inl rfl
    · exact .inr ⟨t', List.mem_cons_of_mem _ listed, same⟩

theorem length_le_foldl_longer (texts : List Text) (best : Text) :
    best.length ≤ (texts.foldl longer best).length ∧
      ∀ t ∈ texts, (flat t).length ≤ (texts.foldl longer best).length := by
  induction texts generalizing best with
  | nil => exact ⟨Nat.le_refl _, nofun⟩
  | cons t texts ih =>
    rw [List.foldl_cons]
    obtain ⟨kept, others⟩ := ih (longer best t)
    have both : best.length ≤ (longer best t).length ∧ (flat t).length ≤ (longer best t).length := by
      unfold longer
      split <;> omega
    refine ⟨both.1.trans kept, fun t' listed => ?_⟩
    obtain rfl | listed := List.mem_cons.1 listed
    · exact both.2.trans kept
    · exact others t' listed

/-- No sample is longer, once line breaks are gone. -/
theorem length_le_longest {texts : List Text} {t : Text} (listed : t ∈ texts) :
    (flat t).length ≤ (longest texts).length :=
  (length_le_foldl_longer texts []).2 t listed

/-- If there are samples, the longest one comes of one of them. -/
theorem exists_longest {texts : List Text} {t : Text} (listed : t ∈ texts) :
    ∃ t ∈ texts, flat t = longest texts := by
  obtain empty | found := foldl_longer_cases texts []
  · have short := length_le_longest listed
    rw [longest_eq, empty] at short
    refine ⟨t, listed, ?_⟩
    rw [longest_eq, empty]
    exact List.eq_nil_of_length_eq_zero (Nat.le_zero.1 short)
  · exact found

theorem longest_flat (texts : List Text) : IsFlat (longest texts) := by
  obtain empty | ⟨t, -, same⟩ := foldl_longer_cases texts []
  · rw [longest_eq, empty]
    exact nofun
  · rw [longest_eq, ← same, ← flat_eq_iff]
    simp [flat, List.filter_filter]

end Sampling

namespace Context

variable {ctx : Context} {group text s : Text} {ref : LexerRef} {σ σ' : Session}
  {met : GrammarError}

/-- Naming the token of a group ends in the report that the group does not match the sample `s`. -/
def Unmatched (ctx : Context) (group : Text) (ref : LexerRef) (σ : Session) (s : Text) : Prop :=
  ∃ met σ', Fails (ctx.dynamicToken group ref) σ met σ' ∧ met.fault = .unmatchedSample s

/-- No sub-lexer reports an unmatched sample. -/
theorem firstToken_matched (fails : Fails (ctx.firstToken ref text) σ met σ') :
    met.fault ≠ .unmatchedSample s := by
  cases firstToken_fails fails with
  | nowhere missing => obtain rfl | ⟨language, -, -, rfl⟩ := located_eq_error missing <;> exact nofun
  | unbuilt _ _ =>
    unfold buildError
    split <;> exact nofun
  | broken _ _ failed =>
    unfold SubLexer.firstToken at failed
    split at failed <;> cases failed
    exact nofun

/-- An unmatched sample is reported exactly where the longest sample is not matched. -/
theorem unmatched_iff : ctx.Unmatched group ref σ s ↔
    ∃ texts e, Sampling.samples group ctx.limits.maxCandidates ctx.limits.expansionLimit =
        .ok texts ∧ Regex.read? group = some e ∧ s = Sampling.longest texts ∧
      e.matchAt false s.toArray 0 = none := by
  constructor
  · rintro ⟨met, σ', fails, report⟩
    obtain unsampled | ⟨sample, sampled, unmatched⟩ | ⟨text, broken⟩ | ⟨text, rfl⟩ :=
      dynamicToken_fails fails
    · obtain ⟨met, -, rfl⟩ | rfl := Sampling.longestSample_eq_error unsampled <;> cases report
    · obtain ⟨texts, taken, rfl⟩ := except_map_eq_ok_iff.1 sampled
      obtain ⟨-, rfl⟩ | ⟨e, compiled, failed, rfl⟩ := matchedSample_eq_error unmatched
      · cases report
      · cases report
        exact ⟨texts, e, taken, compiled, rfl, failed⟩
    · exact absurd report (firstToken_matched broken)
    · cases report
  · rintro ⟨texts, e, taken, compiled, rfl, unmatched⟩
    refine ⟨.atPattern (.unmatchedSample (Sampling.longest texts)) group, σ, ?_, rfl⟩
    have sampled : Sampling.longestSample group ctx.limits.maxCandidates
        ctx.limits.expansionLimit = .ok (Sampling.longest texts) :=
      except_map_eq_ok_iff.2 ⟨texts, taken, rfl⟩
    have failed : matchedSample group (Sampling.longest texts) =
        .error (.atPattern (.unmatchedSample (Sampling.longest texts)) group) := by
      unfold matchedSample
      simp only [compiled, unmatched]
    exact fails_bind_iff.2 <| .inr ⟨_, σ, yields_ofExcept_iff.2 ⟨sampled, rfl⟩,
      fails_bind_iff.2 (.inl (fails_ofExcept_iff.2 ⟨failed, rfl⟩))⟩

/-- A report of an unmatched sample is about the longest sample alone. Of a group that depends on
nothing around it and is read alike by both readers, every sample without a line break matches at
its start. There is a report for such a group only where the longest sample is not of the group any
more once its line breaks are gone; and if no sample is lost in that way, there is a report only
where there are no samples. -/
theorem dynamicToken_unmatched {tree : NumberedPattern} {e : Regex}
    (accepted : Pattern.read group = .ok tree) (compiled : Regex.read? group = some e) :
    (∀ ref σ s, ctx.Unmatched group ref σ s ↔
      ∃ texts, Sampling.samples group ctx.limits.maxCandidates ctx.limits.expansionLimit =
          .ok texts ∧ s = Sampling.longest texts ∧ e.matchAt false s.toArray 0 = none) ∧
    ∀ texts, Sampling.samples group ctx.limits.maxCandidates ctx.limits.expansionLimit =
        .ok texts →
      (∀ t ∈ texts, (Sampling.flat t).length ≤ (Sampling.longest texts).length) ∧
      (Pattern.Samplable ctx.limits.expansionLimit.floorNat tree.root.parts →
        tree.root.isReadAs e = true →
        (∀ t ∈ texts, Sampling.flat t = t → (e.matchAt false t.toArray 0).isSome) ∧
        ∀ ref σ s, ctx.Unmatched group ref σ s →
          ¬ tree.root.Denotes (.sampled ctx.limits.expansionLimit.floorNat) s ∧
          ((∀ t ∈ texts, tree.root.Denotes (.sampled ctx.limits.expansionLimit.floorNat)
              (Sampling.flat t)) → texts = [])) := by
  have report (ref : LexerRef) (σ : Session) (s : Text) : ctx.Unmatched group ref σ s ↔
      ∃ texts, Sampling.samples group ctx.limits.maxCandidates ctx.limits.expansionLimit =
          .ok texts ∧ s = Sampling.longest texts ∧ e.matchAt false s.toArray 0 = none := by
    simp [unmatched_iff, compiled]
  refine ⟨report, fun texts taken => ⟨fun t => Sampling.length_le_longest, ?_⟩⟩
  intro samplable alike
  have matched {t : Text} (flat : Sampling.IsFlat t)
      (denoted : tree.root.Denotes (.sampled ctx.limits.expansionLimit.floorNat) t) :
      (e.matchAt false t.toArray 0).isSome :=
    (Pattern.canTake_of_isReadAs alike denoted flat).matchAt_isSome
  constructor
  · intro t listed whole
    exact matched (Sampling.flat_eq_iff.1 whole)
      (Sampling.denotes_of_sample accepted samplable taken t listed)
  · intro ref σ s unmatched
    obtain ⟨texts', taken', rfl, failed⟩ := (report ref σ s).1 unmatched
    obtain rfl : texts = texts' := Except.ok.inj (taken.symm.trans taken')
    have lost : ¬ tree.root.Denotes (.sampled ctx.limits.expansionLimit.floorNat)
        (Sampling.longest texts) := by
      intro denoted
      have found := matched (Sampling.longest_flat texts) denoted
      rw [failed] at found
      cases found
    refine ⟨lost, fun denoted => ?_⟩
    -- One of the samples is the longest, so if none were lost, that one would match.
    by_contra some
    obtain ⟨t, listed⟩ := List.exists_mem_of_ne_nil texts some
    obtain ⟨t', listed', same⟩ := Sampling.exists_longest listed
    exact lost (same ▸ denoted t' listed')

/-- Letters, or noughts behind a control unit, which may be a line break. -/
def blankGroup : Text := "(yx?|[^ -~]0\x7b2,3\x7d)"

/-- Up to twelve samples, with repetitions cut at two and a half. -/
def blankContext : Context where
  language := default
  limits := ⟨.integer 64, .integer 12, .finite 5 1⟩
  lookup _ := none

theorem dynamicToken_unmatched_blank : ∃ tree e texts, Pattern.read blankGroup = .ok tree ∧
    Regex.read? blankGroup = some e ∧ Pattern.Samplable 2 tree.root.parts ∧
    tree.root.isReadAs e = true ∧
    Sampling.samples blankGroup (.integer 12) (.finite 5 1) = .ok texts ∧
    [10, 48, 48] ∈ texts ∧ Sampling.longest texts = [9, 48, 48] ∧
    ∀ ref σ s, ¬ blankContext.Unmatched blankGroup ref σ s := by
  have facts : (do
      let tree ← (Pattern.read blankGroup).toOption
      let e ← Regex.read? blankGroup
      let texts ← (Sampling.samples blankGroup (.integer 12) (.finite 5 1)).toOption
      pure (tree.root.isReadAs e, tree.root.parts.all fun part => !part.isContextual && part.fits 2,
        texts.contains [10, 48, 48], texts.contains [9, 48, 48], Sampling.longest texts)) =
      some (true, true, true, true, [9, 48, 48]) := by
    decide +kernel
  obtain ⟨tree, read, facts⟩ := Option.bind_eq_some_iff.1 facts
  obtain ⟨e, compiled, facts⟩ := Option.bind_eq_some_iff.1 facts
  obtain ⟨texts, taken, facts⟩ := Option.bind_eq_some_iff.1 facts
  simp only [Option.pure_def, Option.some.injEq, Prod.mk.injEq, List.all_eq_true, Bool.and_eq_true,
    Bool.not_eq_true', List.contains_iff_mem] at facts
  obtain ⟨alike, parts, broken, listed, longest⟩ := facts
  have samplable : Pattern.Samplable 2 tree.root.parts :=
    ⟨fun part inside => (parts part inside).1, fun part inside => (parts part inside).2⟩
  have accepted := eq_ok_of_toOption read
  have taken := eq_ok_of_toOption taken
  refine ⟨tree, e, texts, accepted, compiled, samplable, alike, taken, broken, longest, ?_⟩
  intro ref σ s unmatched
  obtain ⟨report, plain⟩ := @dynamicToken_unmatched blankContext _ _ _ accepted compiled
  obtain ⟨texts', taken', rfl, failed⟩ := (report ref σ s).1 unmatched
  obtain rfl : texts = texts' := Except.ok.inj (taken.symm.trans taken')
  have found := ((plain texts taken).2 samplable alike).1 [9, 48, 48] listed rfl
  rw [longest] at failed
  rw [failed] at found
  cases found

/-- The end of the text stands in front of a letter, which no text matches. -/
def anchoredGroup : Text := "(a$b|c)"

/-- A language of the one letter that the group matches. -/
def anchoredContext : Context where
  language := { (default : Language) with graph := [("root", [.literal "c" (.literal "C")])] }
  limits := .standard
  lookup _ := none

/-- The longest sample passes the end of the text as if it were not there. It does not match, and
that another sample does is not seen. -/
theorem dynamicToken_overlooks :
    anchoredContext.Unmatched anchoredGroup ⟨"this", none⟩ [] "ab" ∧
      ∃ texts e, Sampling.samples anchoredGroup anchoredContext.limits.maxCandidates
          anchoredContext.limits.expansionLimit = .ok texts ∧
        Regex.read? anchoredGroup = some e ∧ Text.ofString "c" ∈ texts ∧
        (e.matchAt false (Sampling.flat "c").toArray 0).isSome := by
  have facts : (do
      let texts ← (Sampling.samples anchoredGroup anchoredContext.limits.maxCandidates
        anchoredContext.limits.expansionLimit).toOption
      let e ← Regex.read? anchoredGroup
      pure (Sampling.longest texts, texts.contains "c",
        (e.matchAt false (Text.ofString "ab").toArray 0).isNone,
        (e.matchAt false (Sampling.flat "c").toArray 0).isSome)) =
      some (Text.ofString "ab", true, true, true) := by
    decide +kernel
  obtain ⟨texts, taken, facts⟩ := Option.bind_eq_some_iff.1 facts
  obtain ⟨e, compiled, facts⟩ := Option.bind_eq_some_iff.1 facts
  simp only [Option.pure_def, Option.some.injEq, Prod.mk.injEq, List.contains_iff_mem,
    Option.isNone_iff_eq_none] at facts
  obtain ⟨longest, listed, failed, found⟩ := facts
  have taken := eq_ok_of_toOption taken
  exact ⟨unmatched_iff.2 ⟨texts, e, taken, compiled, longest.symm, failed⟩,
    texts, e, taken, compiled, listed, found⟩

end Context

end Highlight
