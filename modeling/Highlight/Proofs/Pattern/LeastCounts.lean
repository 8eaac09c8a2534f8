import Highlight.Proofs.Pattern.Limits
import Highlight.Proofs.Pattern.Seams

/-!
# The fewest rounds of a repetition

What is repeated with a count in braces denotes that many texts of its body, one behind the other,
or more. The expansion limit is there to hold back the rounds beyond that count, but where it is the
smaller number it holds back the count as well: what is offered then has as many rounds as the limit
allows, which are too few (`Sampling.samples_repeated`). Where that limit is no whole number, the
repetition gives nothing at all.
-/

namespace Highlight

open Reader Grammar

namespace Pattern

/-- The quantifiers in braces that ask for `n` rounds, with the most that they allow. -/
inductive Counted (n : Nat) : Text → Option Nat → Prop where
  | exactly : Counted n ("\x7b" ++ (Text.ofNat n ++ "\x7d")) (some n)
  | orMore : Counted n ("\x7b" ++ (Text.ofNat n ++ ",\x7d")) none
  | upTo {m : Nat} (order : n ≤ m) :
    Counted n ("\x7b" ++ (Text.ofNat n ++ ("," ++ (Text.ofNat m ++ "\x7d")))) (some m)

/-- The pattern in a group that captures nothing, with a quantifier behind it. -/
def repeatedText (p q : Text) : Text := "(?:" ++ (p ++ (")" ++ q))

/-- The part is a repetition. -/
def isRepetition : Pattern → Bool
  | repeated .. => true
  | _ => false

theorem fits_of_not_repetition {limit : Nat} {part : Pattern} (plain : part.isRepetition = false) :
    part.fits limit = true := by
  cases part with
  | repeated => cases plain
  | _ => rfl

variable {n : Nat} {p q : Text} {most : Option Nat} {root body : Pattern}

theorem Counted.le (counted : Counted n q most) : ∀ bound ∈ most, n ≤ bound := by
  cases counted with
  | exactly => simp
  | orMore => simp
  | upTo order => simpa using order

/-- The quantifier is read to its end. -/
theorem Counted.read (counted : Counted n q most) :
    quantifier.result q = some (⟨n, most⟩, []) := by
  cases counted with
  | exactly =>
    have number : integer.result (Text.ofNat n ++ "\x7d") = some (n, Text.ofString "\x7d") :=
      integer_ofNat n (oneOf_fail (by decide) [])
    have counts : bounds.result ("\x7b" ++ (Text.ofNat n ++ "\x7d")) = some (⟨n, some n⟩, []) := by
      -- the alternatives with a comma are tried first, and miss it
      refine orElse_of_fail rfl (orElse_of_fail rfl (orElse_of_fail rfl (orElse_of_fail ?_
        (orElse_of_fail ?_ (orElse_of_read ?_)))))
      · exact bind_of_read (literal_append _ _) (bind_of_read number rfl)
      · exact bind_of_read (literal_append _ _) (bind_of_read number rfl)
      · exact bind_of_read (literal_append _ _) (bind_of_read number rfl)
    exact bind_of_read counts rfl
  | orMore =>
    have read : quantifier.result (spellBounds n none ++ []) = some (⟨n, none⟩, []) :=
      quantifier_spellBounds n none nofun
    rwa [List.append_nil] at read
  | @upTo m _ =>
    have read : quantifier.result (spellBounds n (some m) ++ []) = some (⟨n, some m⟩, []) :=
      quantifier_spellBounds n (some m) nofun
    rwa [List.append_nil] at read

theorem readTree_repeated (counted : Counted n q most) (read : readTree p = .ok root) :
    readTree (repeatedText p q) = .ok (.repeated (.group none root) n most) := by
  have atom : Derives .atom (repeatedText p q) [.group none root] q := .enclosed .uncaptured read q
  have times : (Reader.optional quantifier).result q = some (some ⟨n, most⟩, []) :=
    optional_of_read counted.read
  exact readTree_iff_derives.2 ⟨[sequenceOf [quantify (some ⟨n, most⟩) (.group none root)]], rfl,
    .last (.cons (.item atom times) (.nil headIn_nil)) headIn_nil⟩

/-- The repeated pattern is accepted, and its root repeats that of the pattern. -/
theorem read_repeated {tree : NumberedPattern} (counted : Counted n q most)
    (accepted : Pattern.read p = .ok tree) :
    ∃ whole, Pattern.read (repeatedText p q) = .ok whole ∧
      whole.root = .repeated (.group none tree.root) n most := by
  obtain ⟨root, read, rfl⟩ := read_eq_ok.1 accepted
  exact ⟨_, read_eq_ok.2 ⟨_, readTree_repeated counted read, rfl⟩, rfl⟩

section Counts

variable {limit count : Nat} {names : Table Text Nat}

theorem repeated_fits (order : ∀ bound ∈ most, n ≤ bound) (within : n ≤ limit) :
    (repeated body n most).fits limit = true := by
  rw [fits, Bool.and_eq_true, decide_eq_true_eq]
  refine ⟨?_, within⟩
  rw [Option.all_eq_true]
  exact fun bound isBound => decide_eq_true (order bound isBound)

/-- Below the fewest rounds, the limit is the only count that is left. -/
theorem copies_of_lt (order : ∀ bound ∈ most, n ≤ bound) (below : limit < n) :
    copies limit n most = [limit] := by
  have greatest : mostCopies limit most = limit := by
    cases most with
    | none => exact Nat.min_self limit
    | some m => exact Nat.min_eq_right (Nat.le_trans (Nat.le_of_lt below) (order m rfl))
  rw [copies, leastCopies, greatest, Nat.min_eq_right (Nat.le_of_lt below), Nat.add_sub_cancel_left]
  rfl

/-- The counts at which a repetition is expanded. -/
theorem mem_copies_iff (order : ∀ bound ∈ most, n ≤ bound) : count ∈ copies limit n most ↔
    (∀ bound ∈ most, count ≤ bound) ∧ count ≤ limit ∧
      (n ≤ count ∨ limit < n ∧ count = limit) := by
  obtain below | within := Nat.lt_or_ge limit n
  · rw [copies_of_lt order below, List.mem_singleton]
    constructor
    · rintro rfl
      exact ⟨fun bound isBound => Nat.le_trans (Nat.le_of_lt below) (order bound isBound),
        Nat.le_refl _, .inr ⟨below, rfl⟩⟩
    · rintro ⟨_, limited, least | ⟨_, same⟩⟩
      · omega
      · exact same
  · have fit : (repeated .anchor n most).fits limit = true := repeated_fits order within
    rw [mem_copies fit]
    constructor
    · exact fun ⟨least, bounded, limited⟩ => ⟨bounded, limited, .inl least⟩
    · rintro ⟨bounded, limited, least | ⟨below, _⟩⟩
      · exact ⟨least, bounded, limited⟩
      · exact absurd within (Nat.not_le.2 below)

/-- The enumeration of a repetition lists the texts of its body one behind the other, for each of
the counts at which it is expanded. -/
theorem mem_expansions_repeated (samplable : Samplable limit body.parts) (captures : Captures)
    (t : Text) :
    t ∈ (expansions limit names (.repeated (.group none body) n most) captures).map (·.text) ↔
      ∃ count ∈ copies limit n most, Times (body.Denotes (.sampled limit)) count t := by
  have lists (captures : Captures) (t : Text) :
      t ∈ (expansions limit names (.group none body) captures).map (·.text) ↔
        body.Denotes (.sampled limit) t := by
    rw [expansions]
    exact mem_expansions body samplable captures t
  simp only [expansions, List.map_flatMap, List.mem_flatMap]
  exact exists_congr fun count => and_congr_right fun _ => mem_copyExpansions lists count captures t

end Counts

end Pattern

namespace NumberedPattern

open Enumerator

variable {tree : NumberedPattern} {bounds : SampleBounds} {body : Pattern} {least : Nat}
  {most : Option Nat}

/-- A repetition that cannot start offers nothing. -/
theorem found_of_unstarted (repeats : tree.root = .repeated body least most)
    (stuck : (tree.quota bounds).canStart least most = false) : (tree.search bounds).found = [] := by
  have run : tree.search bounds = (start bounds).tick (tree.quota bounds) Search.breakDown := by
    have breaks (part : Enumerator) (captures : Captures) (next : Continuation) :
        runRepeated (tree.quota bounds) part least most captures next = Search.breakDown := by
      funext search
      simp only [runRepeated, stuck, Bool.not_false, if_true]
    rw [search, repeats, Pattern.enumerator]
    simp only [step, breaks]
  rw [run, Search.tick]
  split
  · rfl
  · dsimp only
    split <;> rfl

/-- Under a whole limit, and under any where the repetition fits, what is found is in the
enumeration. -/
theorem listed_of_found {t : Text} (repeats : tree.root = .repeated body least most)
    (order : ∀ bound ∈ most, least ≤ bound)
    (fits : ∀ part ∈ body.parts, part.fits bounds.expansion = true)
    (found : t ∈ (tree.search bounds).found) :
    t ∈ (tree.expansions bounds.expansion).map (·.text) ∧
      (bounds.isWhole = true ∨ least ≤ bounds.expansion) := by
  have starts : bounds.isWhole = true ∨ least ≤ bounds.expansion := by
    by_contra stuck
    obtain ⟨fraction, below⟩ := not_or.1 stuck
    have unstarted : (tree.quota bounds).canStart least most = false := by
      cases most with
      | none => simp [Quota.canStart, quota, fraction, below]
      | some m =>
        have above : ¬ m ≤ bounds.expansion := fun le => below (Nat.le_trans (order m rfl) le)
        simp [Quota.canStart, quota, fraction, below, above]
    rw [found_of_unstarted repeats unstarted] at found
    cases found
  refine ⟨?_, starts⟩
  obtain whole | within := starts
  · obtain ⟨candidates, limit, isWhole, steps⟩ := bounds
    cases whole
    exact mem_texts_of_found found
  · have allFit : ∀ part ∈ tree.root.parts, part.fits bounds.expansion = true := by
      rw [repeats]
      exact List.forall_mem_cons.2 ⟨Pattern.repeated_fits order within, fits⟩
    rw [← search_whole allFit] at found
    exact mem_texts_of_found found

end NumberedPattern

namespace Sampling

open Pattern

variable {p q : Text} {tree : NumberedPattern} {n : Nat} {most : Option Nat}

/-- The samples are what the search found. -/
theorem samples_subset_found {texts : List Text} {candidates expansion : Number}
    (accepted : Pattern.read p = .ok tree) (taken : samples p candidates expansion = .ok texts) :
    texts ⊆ (tree.search (.ofNumbers candidates expansion)).found := by
  simp only [samples, accepted, NumberedPattern.samples?_eq] at taken
  split at taken
  · rename_i found
    cases taken
    split at found
    · cases found
    · cases found
      exact fun t => List.mem_reverse.1
  · cases taken

/-- Take a pattern that has no repetition and in which nothing depends on what is around it. With a
quantifier in braces behind it, it is accepted. Whatever is found under any limits, also before a
breakdown, is of texts that the pattern denotes, one behind the other, and no more than the
quantifier allows. They are as many as it asks for unless the limit is a smaller whole number, and
then they are as many as the limit. Under such a limit, which is a length of a list, a search with
enough steps does offer all those texts. -/
theorem samples_repeated (accepted : Pattern.read p = .ok tree)
    (free : ∀ part ∈ tree.root.parts, part.isContextual = false ∧ part.isRepetition = false)
    (counted : Counted n q most) :
    ∃ whole, Pattern.read (repeatedText p q) = .ok whole ∧
      (∀ candidates expansion, ∀ t ∈ (whole.search (.ofNumbers candidates expansion)).found,
        ∃ count, Times (tree.root.Denotes .full) count t ∧ (∀ bound ∈ most, count ≤ bound) ∧
          (n ≤ count ∨ (SampleBounds.ofNumbers candidates expansion).isWhole = true ∧
            expansion.floorNat < n ∧ count = expansion.floorNat)) ∧
      (∀ candidates expansion texts, samples (repeatedText p q) candidates expansion = .ok texts →
        texts ⊆ (whole.search (.ofNumbers candidates expansion)).found) ∧
      ∀ limit < n, limit < lengthBound → ∀ t,
        Times (tree.root.Denotes (.sampled limit)) limit t ↔
          ∃ candidates steps texts,
            whole.samples? ⟨candidates, limit, true, steps⟩ = some texts ∧ t ∈ texts := by
  obtain ⟨whole, read, repeats⟩ := read_repeated counted accepted
  have samplable (limit : Nat) : Samplable limit tree.root.parts :=
    ⟨fun part inside => (free part inside).1, fun part inside =>
      fits_of_not_repetition (free part inside).2⟩
  have listed (limit : Nat) (t : Text) : t ∈ (whole.expansions limit).map (·.text) ↔
      ∃ count ∈ copies limit n most, Times (tree.root.Denotes (.sampled limit)) count t := by
    rw [NumberedPattern.expansions, repeats]
    exact mem_expansions_repeated (samplable limit) [] t
  refine ⟨whole, read, fun candidates expansion t found => ?_, fun candidates expansion texts =>
    samples_subset_found read, fun limit below short t => ?_⟩
  · obtain ⟨inside, whole⟩ := NumberedPattern.listed_of_found repeats counted.le
      (List.forall_mem_cons.2 ⟨rfl, (samplable _).fits⟩) found
    obtain ⟨count, isCount, times⟩ := (listed _ t).1 inside
    obtain ⟨bounded, _, enough⟩ := (mem_copies_iff counted.le).1 isCount
    refine ⟨count, times.mono fun _ => Denotes.mono (Reading.sampled_within_full _), bounded, ?_⟩
    obtain least | ⟨below, same⟩ := enough
    · exact .inl least
    · exact .inr ⟨whole.resolve_right (Nat.not_le.2 below), below, same⟩
  · have only : (∃ count ∈ copies limit n most,
        Times (tree.root.Denotes (.sampled limit)) count t) ↔
        Times (tree.root.Denotes (.sampled limit)) limit t := by
      rw [copies_of_lt counted.le below]
      simp only [List.mem_singleton, exists_eq_left]
    rw [← only, ← listed]
    constructor
    · exact fun inside => ⟨_, _, _, NumberedPattern.samples?_eq_all short, inside⟩
    · rintro ⟨candidates, steps, texts, taken, inside⟩
      exact NumberedPattern.samples?_subset taken inside

/-- Two rounds or three of one letter or two. -/
def optionsPattern : Text := repeatedText "a|bc" "\x7b2,3\x7d"

theorem samples_repeated_options :
    ∃ tree whole, Pattern.read "a|bc" = .ok tree ∧ Pattern.read optionsPattern = .ok whole ∧
      samples optionsPattern (.integer 10) (.integer 2) =
        .ok ["aa", "abc", "bca", "bcbc"] ∧
      ∀ t ∈ (["aa", "abc", "bca", "bcbc"] : List Text), ∃ count,
        Times (tree.root.Denotes .full) count t ∧ 2 ≤ count ∧ count ≤ 3 := by
  have facts : (Pattern.read "a|bc").toOption.map (fun tree =>
      tree.root.parts.all fun part => !part.isContextual && !part.isRepetition) = some true := by
    decide +kernel
  have taken : (samples optionsPattern (.integer 10) (.integer 2)).toOption =
      some [Text.ofString "aa", "abc", "bca", "bcbc"] := by
    decide +kernel
  obtain ⟨tree, read, free⟩ := Option.map_eq_some_iff.1 facts
  simp only [List.all_eq_true, Bool.and_eq_true, Bool.not_eq_true'] at free
  have accepted := eq_ok_of_toOption read
  have taken := eq_ok_of_toOption taken
  obtain ⟨whole, readWhole, rounds, found, _⟩ :=
    samples_repeated accepted free (.upTo (show 2 ≤ 3 by decide))
  refine ⟨tree, whole, accepted, readWhole, taken, fun t inside => ?_⟩
  obtain ⟨count, times, bounded, least | ⟨_, below, _⟩⟩ := rounds _ _ t (found _ _ _ taken inside)
  · exact ⟨count, times, least, bounded 3 rfl⟩
  · exact absurd below (by decide)

theorem length_of_times {u : CodeUnit} {count : Nat} {t : Text}
    (times : Times ((Pattern.char u).Denotes .full) count t) : t.length = count := by
  induction count generalizing t with
  | zero =>
    obtain rfl : t = [] := times
    rfl
  | succ count ih =>
    obtain ⟨head, tail, first, later, rfl⟩ := times
    rw [Denotes] at first
    rw [first, List.length_append, ih later, List.length_singleton, Nat.add_comm]

/-- Two letters are offered where three are asked for. -/
theorem samples_too_few :
    Pattern.read "a" = .ok ⟨.char 97, 0, []⟩ ∧ Counted 3 "\x7b3\x7d" (some 3) ∧
      samples (repeatedText "a" "\x7b3\x7d") (.integer 100) (.integer 2) = .ok ["aa"] ∧
      ∀ count, Times ((Pattern.char 97).Denotes .full) count "aa" → ¬ 3 ≤ count := by
  have taken : (samples (repeatedText "a" "\x7b3\x7d") (.integer 100) (.integer 2)).toOption =
      some [Text.ofString "aa"] := by
    decide +kernel
  refine ⟨rfl, .exactly, eq_ok_of_toOption taken, fun count times => ?_⟩
  rw [← length_of_times times]
  decide

end Sampling

end Highlight
