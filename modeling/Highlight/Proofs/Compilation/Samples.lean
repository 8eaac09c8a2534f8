import Highlight.Compilation.Binding
import Highlight.Proofs.Number.Rounding
import Highlight.Proofs.Outcome
import Highlight.Proofs.Pattern.Budget
import Highlight.Proofs.Pattern.Members

/-!
# The samples of a pattern

The samples of a pattern begin the list of its expansions. They are fewer than were asked for only
where the expansions end or where the next one lies behind a step beyond those allowed, and asking
for more never changes those that came before (`Sampling.samples_isCut`). Under an expansion limit
that is no length of a list, a search can break down instead.
-/

namespace Highlight

/-- The first texts that a walk finds within a number of steps. -/
structure Walk.CutTo (walk : Walk) (candidates steps : Nat) (texts : List Text) : Prop where
  begins : texts <+: walk.finds.map (·.text)
  few : texts.length ≤ candidates
  /-- What a refused step leaves open gives no text. -/
  exact : texts = ((walk.within steps).finds.take candidates).map (·.text)
  /-- Fewer texts than there are come of a refused step only. -/
  refused : texts.length < min candidates walk.finds.length →
    ∃ before after : Walk, walk = before ++ .step :: after ∧ before.steps = steps ∧
      before.finds.map (·.text) = texts

theorem Walk.cutTo (walk : Walk) (candidates steps : Nat) :
    walk.CutTo candidates steps (((walk.within steps).finds.take candidates).map (·.text)) where
  begins := by
    obtain ⟨after, parts⟩ := Walk.within_isPrefix steps walk
    refine (List.take_prefix _ _).map _ |>.trans ?_
    conv => rhs; rw [← parts, Walk.finds_append, List.map_append]
    exact List.prefix_append _ _
  few := by
    rw [List.length_map, List.length_take]
    exact Nat.min_le_left _ _
  exact := rfl
  refused := by
    intro short
    rw [List.length_map, List.length_take] at short
    obtain whole | ⟨after, parts, all⟩ := Walk.within_cut steps walk
    · rw [whole] at short
      omega
    · refine ⟨walk.within steps, after, parts, all, ?_⟩
      rw [List.take_of_length_le (by omega)]

theorem Walk.CutTo.mono {walk : Walk} {candidates more steps steps' : Nat} {texts texts' : List Text}
    (cut : walk.CutTo candidates steps texts) (cut' : walk.CutTo more steps' texts')
    (candidates_le : candidates ≤ more) (steps_le : steps ≤ steps') : texts <+: texts' := by
  obtain ⟨after, parts⟩ := Walk.within_mono steps_le walk
  rw [cut.exact, cut'.exact, ← parts, Walk.finds_append]
  refine List.IsPrefix.map _ (List.prefix_take_iff.2 ⟨?_, ?_⟩)
  · exact (List.take_prefix _ _).trans (List.prefix_append _ _)
  · rw [List.length_take]
    omega

namespace NumberedPattern

variable {tree : NumberedPattern} {bounds : SampleBounds}

/-- All that happens when the samples of a pattern are taken. -/
def walk (tree : NumberedPattern) (limit : Nat) : Walk := tree.root.walk limit tree.names []

/-- The expansions of a pattern under a limit. -/
def expansions (tree : NumberedPattern) (limit : Nat) : List Expansion :=
  tree.root.expansions limit tree.names []

/-- What bounds the search for the samples of a pattern. -/
def quota (tree : NumberedPattern) (bounds : SampleBounds) : Quota :=
  ⟨bounds.steps, bounds.expansion, bounds.isWhole, tree.names⟩

/-- The search for the samples of a pattern before the first step. -/
def start (bounds : SampleBounds) : Search := ⟨0, bounds.candidates, [], false⟩

/-- The search for the samples of a pattern, as it ends. -/
def search (tree : NumberedPattern) (bounds : SampleBounds) : Search :=
  (tree.root.enumerator (tree.quota bounds)).run [] Search.keep (start bounds)

theorem samples?_eq : tree.samples? bounds =
    if (tree.search bounds).isBroken then none else some (tree.search bounds).found.reverse := rfl

theorem search_agrees (whole : bounds.isWhole = true) :
    ((start bounds).play (tree.quota bounds) (tree.walk bounds.expansion)).Agrees
      (tree.quota bounds) (tree.search bounds) := by
  have tracks := @Pattern.walks_enumerator (tree.quota bounds) whole tree.root [] _ _
    follows_keep
  rw [Walk.bind_self] at tracks
  exact tracks.agrees (Pattern.inert_enumerator tree.root [] Search.keep) (start bounds)

theorem samples?_cutTo (whole : bounds.isWhole = true) {texts : List Text}
    (taken : tree.samples? bounds = some texts) :
    (tree.walk bounds.expansion).CutTo bounds.candidates bounds.steps texts ∧
      ¬(tree.walk bounds.expansion).Breaks bounds.steps bounds.candidates := by
  rw [samples?_eq] at taken
  split at taken
  · cases taken
  · rename_i ended
    obtain ⟨played, found⟩ := (search_agrees whole).whole (Bool.eq_false_iff.2 ended)
    have steps : (start bounds).steps + bounds.steps = (tree.quota bounds).steps :=
      Nat.zero_add _
    have texts_eq := (Search.play_found _ _ steps played).1
    rw [← found, Option.some.inj taken] at texts_eq
    constructor
    · rw [texts_eq]
      exact Walk.cutTo _ _ _
    · intro breaks
      have broken := (Search.play_isBroken _ _ steps rfl).2 breaks
      rw [played] at broken
      cases broken

theorem samples?_eq_none (whole : bounds.isWhole = true) (none : tree.samples? bounds = none) :
    (tree.walk bounds.expansion).Breaks bounds.steps bounds.candidates ∨
      lengthBound ≤ bounds.expansion ∧ bounds.steps < (tree.walk bounds.expansion).steps ∧
        ((tree.walk bounds.expansion).within bounds.steps).finds.length < bounds.candidates := by
  have steps : (start bounds).steps + bounds.steps = (tree.quota bounds).steps :=
    Nat.zero_add _
  rw [samples?_eq] at none
  split at none
  · rename_i broken
    by_cases breaks : (tree.walk bounds.expansion).Breaks bounds.steps bounds.candidates
    · exact .inl breaks
    · have played := mt (Search.play_isBroken _ _ steps rfl).1 breaks
      obtain broken | ⟨long, wanting, beyond⟩ := (search_agrees whole).broken broken
      · exact absurd broken played
      · have wanted := (Search.play_found _ _ steps (Bool.eq_false_iff.2 played)).2
        have taken := @Search.play_steps_le (tree.quota bounds)
          (tree.walk bounds.expansion) (start bounds)
        have : (start bounds).wanted = bounds.candidates := rfl
        have : (tree.quota bounds).steps = bounds.steps := rfl
        have : (start bounds).steps = 0 := rfl
        exact .inr ⟨long, by omega, by omega⟩
  · cases none

end NumberedPattern

/-- The steps for two whole limits: ten times their product, in 64-bit numbers. -/
def SampleBounds.stepsFor (candidates limit : Nat) : Nat :=
  Number.rounded (Number.rounded (candidates * limit) * Sampling.stepsPerCandidate)

namespace SampleBounds

theorem ofNumbers_integer (candidates limit : Nat) :
    ofNumbers (.integer candidates) (.integer limit) =
      ⟨candidates, limit, true, stepsFor candidates limit⟩ := by
  have steps := Number.floorNat_times candidates limit (c := Sampling.stepsPerCandidate) (by decide)
  simp only [ofNumbers, steps]
  simp [stepsFor, Number.integer, Number.ceilNat, Number.floorNat, Number.isInteger]

theorem stepsFor_mono {fewer more : Nat} (le : fewer ≤ more) (limit : Nat) :
    stepsFor fewer limit ≤ stepsFor more limit := by
  apply Number.rounded_mono
  apply Nat.mul_le_mul_right
  apply Number.rounded_mono
  exact Nat.mul_le_mul_right _ le

/-- Up to 53 binary places nothing is rounded. -/
theorem stepsFor_eq {candidates limit : Nat} (short : candidates * limit * 10 < 2 ^ 53) :
    stepsFor candidates limit = candidates * limit * 10 := by
  have short' : candidates * limit < 2 ^ 53 := by omega
  rw [stepsFor, Number.rounded_short short']
  exact Number.rounded_short short

end SampleBounds

namespace Sampling

variable {pattern : Text} {tree : NumberedPattern} {candidates limit : Nat}

/-- The outcome of a search that breaks down. -/
def brokenDown : Except GrammarError (List Text) := .error (.ofFault (.breakdown .badLength))

theorem samples_eq (accepted : Pattern.read pattern = .ok tree) (candidates limit : Nat) :
    samples pattern (.integer candidates) (.integer limit) =
      match tree.samples? ⟨candidates, limit, true, SampleBounds.stepsFor candidates limit⟩ with
      | some texts => .ok texts
      | none => brokenDown := by
  simp only [samples, accepted, SampleBounds.ofNumbers_integer]
  rfl

theorem samples_eq_ok (accepted : Pattern.read pattern = .ok tree) {texts : List Text}
    (taken : samples pattern (.integer candidates) (.integer limit) = .ok texts) :
    tree.samples? ⟨candidates, limit, true, SampleBounds.stepsFor candidates limit⟩ =
      some texts := by
  rw [samples_eq accepted] at taken
  split at taken
  · rename_i found
    cases taken
    exact found
  · cases taken

theorem samples_cutTo (accepted : Pattern.read pattern = .ok tree) {texts : List Text}
    (taken : samples pattern (.integer candidates) (.integer limit) = .ok texts) :
    (tree.walk limit).CutTo candidates (SampleBounds.stepsFor candidates limit) texts :=
  (NumberedPattern.samples?_cutTo rfl (samples_eq_ok accepted taken)).1

theorem samples_of_breaks (accepted : Pattern.read pattern = .ok tree)
    (breaks : (tree.walk limit).Breaks (SampleBounds.stepsFor candidates limit) candidates) :
    samples pattern (.integer candidates) (.integer limit) = brokenDown := by
  rw [samples_eq accepted]
  split
  · rename_i found
    exact absurd breaks (NumberedPattern.samples?_cutTo rfl found).2
  · rfl

theorem bound_le_of_breaks {steps : Nat} (breaks : (tree.walk limit).Breaks steps candidates) :
    lengthBound ≤ limit := by
  obtain ⟨before, after, parts, _⟩ := breaks
  have inside : Event.breaks ∈ tree.walk limit := by
    apply (Walk.within_isPrefix steps (tree.walk limit)).subset
    rw [parts]
    simp
  exact Pattern.bound_le_of_breaks tree.root [] inside

theorem samples_dichotomy (accepted : Pattern.read pattern = .ok tree) (candidates limit : Nat) :
    (∃ texts, samples pattern (.integer candidates) (.integer limit) = .ok texts) ∨
      samples pattern (.integer candidates) (.integer limit) = brokenDown ∧
      lengthBound ≤ limit ∧
      let steps := SampleBounds.stepsFor candidates limit
      ((tree.walk limit).Breaks steps candidates ∨
        steps < (tree.walk limit).steps ∧
          ((tree.walk limit).within steps).finds.length < candidates) := by
  rw [samples_eq accepted]
  split
  · exact .inl ⟨_, rfl⟩
  · rename_i none
    right
    obtain breaks | ⟨long, beyond, few⟩ := NumberedPattern.samples?_eq_none rfl none
    · exact ⟨rfl, bound_le_of_breaks breaks, .inl breaks⟩
    · exact ⟨rfl, long, .inr ⟨beyond, few⟩⟩

/-- The samples of a pattern are the first of its expansions: in the order of the enumeration, at
most as many as are wanted, and fewer only behind a refused step. Wanting more of them changes
none. There is a list for each limit that is a length. For a greater one the search can break down
instead, at a count that no list is long: within its steps, or in a repetition that is still open
when they are used up. -/
theorem samples_isCut (accepted : Pattern.read pattern = .ok tree) (candidates limit : Nat) :
    let walk := tree.walk limit
    let steps := SampleBounds.stepsFor candidates limit
    let taken := samples pattern (.integer candidates) (.integer limit)
    walk.finds = tree.expansions limit ∧
    (∀ negated items, (members negated items).Pairwise (· < ·)) ∧
    (candidates * limit * 10 < 2 ^ 53 → steps = candidates * limit * 10) ∧
    (∀ texts, taken = .ok texts → walk.CutTo candidates steps texts) ∧
    (∀ fewer ≤ candidates, ∀ first texts,
      samples pattern (.integer fewer) (.integer limit) = .ok first → taken = .ok texts →
      first <+: texts) ∧
    (limit < lengthBound → ∃ texts, taken = .ok texts) ∧
    (walk.Breaks steps candidates → taken = brokenDown) ∧
    ((∃ texts, taken = .ok texts) ∨
      taken = brokenDown ∧ lengthBound ≤ limit ∧
      (walk.Breaks steps candidates ∨
        steps < walk.steps ∧ (walk.within steps).finds.length < candidates)) := by
  intro walk steps taken
  have dichotomy := samples_dichotomy accepted candidates limit
  refine ⟨Pattern.finds_walk tree.root [], members_ascending, SampleBounds.stepsFor_eq,
    fun texts => samples_cutTo accepted, ?_, ?_, samples_of_breaks accepted, dichotomy⟩
  · intro fewer le first texts taken_first taken_texts
    have cut := samples_cutTo accepted taken_first
    exact cut.mono (samples_cutTo accepted taken_texts) le (SampleBounds.stepsFor_mono le limit)
  · intro short
    obtain listed | ⟨_, long, _⟩ := dichotomy
    · exact listed
    · omega

/-- The second alternative takes more steps than are allowed for two samples. -/
def tiringPattern : Text := "a|bbbbbbbbbbbb"

theorem samples_tiringPattern : ∃ tree, Pattern.read tiringPattern = .ok tree ∧
    (tree.walk 1).CutTo 2 20 [[97]] ∧
    (tree.expansions 1).map (·.text) = [[97], List.replicate 12 98] := by
  have listed : (Pattern.read tiringPattern).toOption.map
      (fun tree => (tree.expansions 1).map (·.text)) = some [[97], List.replicate 12 98] := by
    decide +kernel
  obtain ⟨tree, read, all⟩ := Option.map_eq_some_iff.1 listed
  have taken : (samples tiringPattern (.integer 2) (.integer 1)).toOption = some [[97]] := by
    decide +kernel
  have accepted := eq_ok_of_toOption read
  obtain ⟨_, _, steps, cut, _⟩ := samples_isCut accepted 2 1
  refine ⟨tree, accepted, ?_, all⟩
  rw [← show SampleBounds.stepsFor 2 1 = 20 from steps (by decide)]
  exact cut _ (eq_ok_of_toOption taken)

/-- An empty part is to be repeated more often than any list is long. -/
def longPattern : Text := "$\x7b4294967296\x7d"

def longTree : NumberedPattern := ⟨.repeated .anchor 4294967296 (some 4294967296), 0, []⟩

theorem copyExpansions_empty (count : Nat) (captures : Captures) :
    Pattern.copyExpansions (fun captures => [⟨[], captures⟩]) count captures =
      [⟨[], captures⟩] := by
  induction count with
  | zero => rfl
  | succ count ih => simp [Pattern.copyExpansions, ih, Expansion.after]

theorem steps_copyWalk_empty (count : Nat) (captures : Captures) :
    (Pattern.copyWalk (fun captures => [.step, .found ⟨[], captures⟩]) count captures).steps =
      2 * count + 1 := by
  induction count with
  | zero => rfl
  | succ count ih =>
    simp only [Pattern.copyWalk, Walk.bind_step, Walk.bind_single, Walk.steps_step,
      Walk.steps_bind_found, ih]
    omega

theorem read_longPattern : Pattern.read longPattern = .ok longTree := by cbv

theorem walk_longTree : longTree.walk 4294967296 = .step :: .breaks ::
    Pattern.copyWalk (fun captures => [.step, .found ⟨[], captures⟩]) 4294967296 [] := by
  have counts : Pattern.copies 4294967296 4294967296 (some 4294967296) = [4294967296] := by decide
  simp only [NumberedPattern.walk, longTree, Pattern.walk, counts, List.flatMap_singleton]
  rfl

/-- A single empty text is to be found, within the steps that are allowed, and none is. -/
theorem samples_longPattern :
    Pattern.read longPattern = .ok longTree ∧
      samples longPattern (.integer 1) (.integer 4294967296) =
        .error (.ofFault (.breakdown .badLength)) ∧
      longTree.expansions 4294967296 = [⟨[], []⟩] ∧
      (longTree.walk 4294967296).steps ≤ SampleBounds.stepsFor 1 4294967296 := by
  have allowed : SampleBounds.stepsFor 1 4294967296 = 42949672960 :=
    SampleBounds.stepsFor_eq (by decide)
  refine ⟨read_longPattern, samples_of_breaks read_longPattern ?_, ?_, ?_⟩
  · rw [allowed, walk_longTree]
    exact ⟨[.step], _, rfl, by decide⟩
  · have counts : Pattern.copies 4294967296 4294967296 (some 4294967296) = [4294967296] := by
      decide
    simp only [NumberedPattern.expansions, longTree, Pattern.expansions, counts,
      List.flatMap_singleton]
    exact copyExpansions_empty 4294967296 []
  · rw [allowed, walk_longTree, Walk.steps_step, Walk.steps_breaks, steps_copyWalk_empty]
    decide

end Sampling

end Highlight
