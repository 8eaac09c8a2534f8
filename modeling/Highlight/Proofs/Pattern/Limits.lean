import Highlight.Proofs.Pattern.Denotation

/-!
# Limits that are no whole numbers

The expansion limit of a search may be a fraction. That shows in one place only: a repetition whose
fewest rounds lie beyond the limit breaks the search down. Where all repetitions fit, a search under
a fraction is the one under its whole part (`Pattern.enumerator_whole`), and every sample is a text
that the pattern denotes as the sampler reads it, whatever the limits are
(`Sampling.denotes_of_sample`).
-/

namespace Highlight

namespace Enumerator

variable {quota : Quota} {whole : Bool}

theorem runAll_whole (parts : List Enumerator) :
    runAll { quota with isWhole := whole } parts = runAll quota parts := by
  induction parts with
  | nil => rfl
  | cons part parts ih =>
    funext captures next search
    simp only [runAll, ih]
    rfl

theorem runTimes_whole (part : Enumerator) (count : Nat) :
    runTimes { quota with isWhole := whole } part count = runTimes quota part count := by
  induction count with
  | zero => rfl
  | succ count ih =>
    funext captures next search
    simp only [runTimes, ih]
    rfl

theorem runCounts_whole (part : Enumerator) (captures : Captures) (next : Continuation)
    (more count : Nat) : runCounts { quota with isWhole := whole } part captures next more count =
      runCounts quota part captures next more count := by
  induction more generalizing count with
  | zero => rfl
  | succ more ih =>
    funext search
    simp only [runCounts, ih, runTimes_whole]

/-- Within the limit a repetition starts under a fraction as well. -/
theorem runRepeated_whole {body : Pattern} {least : Nat} {most : Option Nat} (part : Enumerator)
    (fit : (Pattern.repeated body least most).fits quota.expansion = true) :
    runRepeated { quota with isWhole := whole } part least most =
      runRepeated quota part least most := by
  have within : least ≤ quota.expansion := of_decide_eq_true (Bool.and_eq_true_iff.1 fit).2
  have starts (flag : Bool) : Quota.canStart { quota with isWhole := flag } least most = true := by
    simp [Quota.canStart, within]
  funext captures next search
  simp only [runRepeated, starts, runCounts_whole]

end Enumerator

namespace Pattern

open Enumerator

variable {quota : Quota} {whole : Bool}

mutual

/-- Where all repetitions fit, it does not matter whether the limit is a whole number. -/
theorem enumerator_whole : ∀ (pattern : Pattern),
    (∀ part ∈ pattern.parts, part.fits quota.expansion = true) →
      enumerator { quota with isWhole := whole } pattern = enumerator quota pattern
  | char _, _ | set _ _, _ | anchor, _ | look _, _ | backref (.index _), _ | backref (.name _), _ =>
    rfl
  | seq items, fits => by
    rw [enumerator, enumerator, runAll_whole,
      enumerators_whole items fun part inside => fits part (List.mem_cons_of_mem _ inside)]
    rfl
  | alt options, fits => by
    rw [enumerator, enumerator,
      enumerators_whole options fun part inside => fits part (List.mem_cons_of_mem _ inside)]
    rfl
  | group none body, fits => by
    rw [enumerator, enumerator,
      enumerator_whole body fun part inside => fits part (List.mem_cons_of_mem _ inside)]
    rfl
  | group (some _) body, fits => by
    rw [enumerator, enumerator,
      enumerator_whole body fun part inside => fits part (List.mem_cons_of_mem _ inside)]
    rfl
  | repeated body least most, fits => by
    rw [enumerator, enumerator, runRepeated_whole _ (fits _ (self_mem_parts _)),
      enumerator_whole body fun part inside => fits part (List.mem_cons_of_mem _ inside)]
    rfl

theorem enumerators_whole : ∀ (items : List Pattern),
    (∀ part ∈ partsOfAll items, part.fits quota.expansion = true) →
      enumerators { quota with isWhole := whole } items = enumerators quota items
  | [], _ => rfl
  | item :: items, fits => by
    rw [enumerators, enumerators,
      enumerator_whole item fun part inside => fits part (List.mem_append_left _ inside),
      enumerators_whole items fun part inside => fits part (List.mem_append_right _ inside)]

end

end Pattern

namespace NumberedPattern

variable {tree : NumberedPattern} {bounds : SampleBounds}

theorem search_whole (fits : ∀ part ∈ tree.root.parts, part.fits bounds.expansion = true) :
    tree.search { bounds with isWhole := true } = tree.search bounds := by
  have same : tree.root.enumerator (tree.quota { bounds with isWhole := true }) =
      tree.root.enumerator (tree.quota bounds) :=
    @Pattern.enumerator_whole (tree.quota bounds) true tree.root fits
  rw [search, search, same]
  rfl

theorem samples?_whole (fits : ∀ part ∈ tree.root.parts, part.fits bounds.expansion = true) :
    tree.samples? { bounds with isWhole := true } = tree.samples? bounds := by
  rw [samples?_eq, samples?_eq, search_whole fits]

end NumberedPattern

namespace Sampling

variable {pattern : Text} {tree : NumberedPattern}

/-- Under any limits a sample is a text that the pattern denotes as the sampler reads it. -/
theorem denotes_of_sample (accepted : Pattern.read pattern = .ok tree)
    {candidates expansion : Number}
    (samplable : Pattern.Samplable expansion.floorNat tree.root.parts) {texts : List Text}
    (taken : samples pattern candidates expansion = .ok texts) :
    ∀ t ∈ texts, tree.root.Denotes (.sampled expansion.floorNat) t := by
  intro t listed
  have found : tree.samples? (.ofNumbers candidates expansion) = some texts := by
    simp only [samples, accepted] at taken
    split at taken
    · cases taken
      assumption
    · cases taken
  rw [← NumberedPattern.samples?_whole samplable.fits] at found
  exact (Pattern.mem_expansions tree.root samplable [] t).1
    (NumberedPattern.samples?_subset found listed)

end Sampling

end Highlight
