import Highlight.Proofs.Compilation.Samples
import Highlight.Proofs.Pattern.Parts

/-!
# What a pattern denotes, and what its enumeration lists

A pattern without anchors, lookarounds and back-references denotes a set of texts. Which one
depends on how its sets and repetitions are read: in full, or as the sampler reads them, with open
classes cut to an alphabet, ranges to a width and repetitions to a limit (`Reading`). By recursion
on the pattern, the enumeration lists the texts that the pattern denotes as the sampler reads it,
all of them and no other (`mem_expansions`). Each of them is one that the pattern denotes in full
(`Denotes.mono`), so that no sample can fail its own pattern.
-/

namespace Highlight

/-- How the sets and the repetitions of a pattern are read. -/
structure Reading where
  /-- The units that a set, negated or not, admits. -/
  admits : Bool → List ClassItem → CodeUnit → Prop
  /-- How often a repetition may go on at most, whatever bounds it has itself. -/
  limit : Option Nat

namespace Reading

/-- Every unit counts, and nothing but its own bounds holds a repetition back. -/
def full : Reading where
  admits negated items u := negated = false ↔ ∃ item ∈ items, item.holds u = true
  limit := none

/-- Tab, line feed, vertical tab, form feed, carriage return and printable ASCII. -/
def IsSampled (u : CodeUnit) : Prop := (9 ≤ u ∧ u ≤ 13) ∨ (0x20 ≤ u ∧ u ≤ 0x7E)

/-- What the sampler takes of an item of a set: of a range the first 256 units, of a class those
of the alphabet. -/
def Contributes : ClassItem → CodeUnit → Prop
  | .range lo hi, u => lo ≤ u ∧ u ≤ hi ∧ u.toNat < lo.toNat + 256
  | .named name, u => IsSampled u ∧ name.holds u = true

/-- The sampler's reading: open classes within the alphabet, ranges cut, and no repetition beyond
the expansion limit. -/
def sampled (limit : Nat) : Reading where
  admits
    | true, items, u => IsSampled u ∧ ∀ item ∈ items, item.holds u = false
    | false, items, u => ∃ item ∈ items, Contributes item u
  limit := some limit

/-- What one reading allows, the other one allows too. -/
structure Within (narrow wide : Reading) : Prop where
  admits : ∀ negated items u, narrow.admits negated items u → wide.admits negated items u
  limit : ∀ bound ∈ wide.limit, ∃ bound' ∈ narrow.limit, bound' ≤ bound

theorem contributes_holds {item : ClassItem} {u : CodeUnit} (part : Contributes item u) :
    item.holds u = true := by
  cases item with
  | range lo hi => simpa [ClassItem.holds] using And.intro part.1 part.2.1
  | named name => exact part.2

theorem sampled_within_full (limit : Nat) : (sampled limit).Within full where
  admits negated items u admitted := by
    cases negated with
    | true =>
      refine iff_of_false Bool.noConfusion ?_
      rintro ⟨item, inside, holds⟩
      exact Bool.false_ne_true ((admitted.2 item inside).symm.trans holds)
    | false =>
      obtain ⟨item, inside, part⟩ := admitted
      exact iff_of_true rfl ⟨item, inside, contributes_holds part⟩
  limit := by simp [full]

end Reading

namespace Pattern

/-- A number of texts of one kind, one behind the other. -/
def Times (body : Text → Prop) : Nat → Text → Prop
  | 0, t => t = []
  | count + 1, t => ∃ head tail, body head ∧ Times body count tail ∧ t = head ++ tail

mutual

/-- The texts that a pattern denotes. What an anchor, a lookaround or a back-reference stands for
depends on what is around it, so that none of them denotes a text by itself. -/
def Denotes (reading : Reading) : Pattern → Text → Prop
  | char value, t => t = [value]
  | set negated items, t => ∃ u, reading.admits negated items u ∧ t = [u]
  | group _ body, t => Denotes reading body t
  | seq items, t => DenotesAll reading items t
  | alt options, t => DenotesAny reading options t
  | repeated body least most, t => ∃ count, least ≤ count ∧ (∀ bound ∈ most, count ≤ bound) ∧
      (∀ bound ∈ reading.limit, count ≤ bound) ∧ Times (Denotes reading body) count t
  | anchor, _ => False
  | look _, _ => False
  | backref _, _ => False

/-- The texts of patterns one behind the other. -/
def DenotesAll (reading : Reading) : List Pattern → Text → Prop
  | [], t => t = []
  | item :: items, t =>
    ∃ head tail, Denotes reading item head ∧ DenotesAll reading items tail ∧ t = head ++ tail

/-- The texts of alternatives. -/
def DenotesAny (reading : Reading) : List Pattern → Text → Prop
  | [], _ => False
  | option :: options, t => Denotes reading option t ∨ DenotesAny reading options t

end

/-- What the part stands for depends on what is around it. -/
def isContextual : Pattern → Bool
  | anchor | look _ | backref _ => true
  | _ => false

/-- A repetition goes from its least count up to its most, and the least is within the limit. -/
def fits (limit : Nat) : Pattern → Bool
  | repeated _ least most => most.all (least ≤ ·) && least ≤ limit
  | _ => true

theorem Times.mono {narrow wide : Text → Prop} (within : ∀ t, narrow t → wide t) {count : Nat}
    {t : Text} (times : Times narrow count t) : Times wide count t := by
  induction count generalizing t with
  | zero => exact times
  | succ count ih =>
    obtain ⟨head, tail, first, rest, parts⟩ := times
    exact ⟨head, tail, within head first, ih rest, parts⟩

section Mono

variable {narrow wide : Reading}

mutual

/-- A wider reading denotes no fewer texts. -/
theorem Denotes.mono (within : narrow.Within wide) : ∀ {pattern : Pattern} {t : Text},
    Denotes narrow pattern t → Denotes wide pattern t
  | char _, _, denoted => denoted
  | set negated items, _, ⟨u, admitted, same⟩ => ⟨u, within.admits negated items u admitted, same⟩
  | group _ _, _, denoted => by
    rw [Denotes] at denoted ⊢
    exact Denotes.mono within denoted
  | seq _, _, denoted => by
    rw [Denotes] at denoted ⊢
    exact DenotesAll.mono within denoted
  | alt _, _, denoted => by
    rw [Denotes] at denoted ⊢
    exact DenotesAny.mono within denoted
  | repeated _ _ _, _, denoted => by
    rw [Denotes] at denoted ⊢
    obtain ⟨count, least, most, limited, times⟩ := denoted
    refine ⟨count, least, most, fun bound isBound => ?_, times.mono fun _ => Denotes.mono within⟩
    obtain ⟨bound', isBound', le⟩ := within.limit bound isBound
    exact Nat.le_trans (limited bound' isBound') le

theorem DenotesAll.mono (within : narrow.Within wide) : ∀ {items : List Pattern} {t : Text},
    DenotesAll narrow items t → DenotesAll wide items t
  | [], _, denoted => denoted
  | _ :: _, _, ⟨head, tail, first, rest, parts⟩ =>
    ⟨head, tail, Denotes.mono within first, DenotesAll.mono within rest, parts⟩

theorem DenotesAny.mono (within : narrow.Within wide) : ∀ {options : List Pattern} {t : Text},
    DenotesAny narrow options t → DenotesAny wide options t
  | _ :: _, _, .inl first => .inl (Denotes.mono within first)
  | _ :: _, _, .inr rest => .inr (DenotesAny.mono within rest)

end

end Mono

section Sampled

open Reading

theorem toNat_toUInt16 {n : Nat} (short : n < 65536) : n.toUInt16.toNat = n := by
  rw [Nat.toUInt16_eq, UInt16.toNat_ofNat']
  exact Nat.mod_eq_of_lt short

/-- The units of the alphabet are those that the sampler's reading names. -/
theorem mem_alphabet {u : CodeUnit} : u ∈ Sampling.alphabet ↔ IsSampled u := by
  have printable : (∃ i < 95, (0x20 + i).toUInt16 = u) ↔ 0x20 ≤ u.toNat ∧ u.toNat ≤ 0x7E := by
    constructor
    · rintro ⟨i, lt, rfl⟩
      rw [toNat_toUInt16 (by omega)]
      omega
    · rintro ⟨least, most⟩
      refine ⟨u.toNat - 0x20, by omega, ?_⟩
      rw [Nat.add_sub_of_le least]
      exact UInt16.ofNat_toNat
  simp only [Sampling.alphabet, List.mem_append, List.mem_cons, List.not_mem_nil, or_false,
    List.mem_map, List.mem_range, Nat.reduceSub, printable]
  simp only [IsSampled, UInt16.le_iff_toNat_le, ← UInt16.toNat_inj, UInt16.reduceToNat]
  omega

theorem mem_itemMembers {item : ClassItem} {u : CodeUnit} :
    u ∈ Sampling.itemMembers item ↔ Contributes item u := by
  cases item with
  | named name => rw [Sampling.itemMembers, List.mem_filter, mem_alphabet]; rfl
  | range lo hi =>
    have small := hi.toNat_lt
    simp only [Sampling.itemMembers, List.mem_map, List.mem_range'_1, Contributes,
      UInt16.le_iff_toNat_le, Sampling.widestRange]
    constructor
    · rintro ⟨code, ⟨least, most⟩, rfl⟩
      rw [toNat_toUInt16 (by omega)]
      omega
    · rintro ⟨least, most, cut⟩
      exact ⟨u.toNat, by omega, UInt16.ofNat_toNat⟩

theorem mem_members_sampled {limit : Nat} {negated : Bool} {items : List ClassItem}
    {u : CodeUnit} :
    u ∈ Sampling.members negated items ↔ (sampled limit).admits negated items u := by
  cases negated with
  | true => rw [Sampling.mem_members_negated, mem_alphabet]; rfl
  | false => simp only [Sampling.mem_members, mem_itemMembers]; rfl

variable {limit : Nat} {names : Table Text Nat}

/-- The counts of a repetition that fits are those within its bounds and the limit. -/
theorem mem_copies {body : Pattern} {least count : Nat} {most : Option Nat}
    (fit : (repeated body least most).fits limit = true) :
    count ∈ copies limit least most ↔
      least ≤ count ∧ (∀ bound ∈ most, count ≤ bound) ∧ count ≤ limit := by
  rw [copies, List.mem_range'_1, leastCopies, mostCopies]
  cases most with
  | none =>
    simp only [fits, Option.all_none, Bool.true_and, decide_eq_true_eq] at fit
    simp only [Option.getD_none, Nat.min_self, Nat.min_eq_left fit, Option.mem_def, reduceCtorEq,
      false_implies, implies_true, true_and]
    omega
  | some most =>
    simp only [fits, Option.all_some, Bool.and_eq_true, decide_eq_true_eq] at fit
    simp only [Option.getD_some, Option.mem_def, Option.some.injEq, forall_eq']
    omega

/-- The texts of an enumeration that goes on behind each expansion it comes to. -/
theorem mem_texts_after {heads : List Expansion} {tails : Captures → List Expansion}
    {first rest : Text → Prop} (head : ∀ t, t ∈ heads.map (·.text) ↔ first t)
    (tail : ∀ captures t, t ∈ (tails captures).map (·.text) ↔ rest t) (t : Text) :
    t ∈ (heads.flatMap fun head => (tails head.captures).map head.after).map (·.text) ↔
      ∃ left right, first left ∧ rest right ∧ t = left ++ right := by
  constructor
  · intro inside
    obtain ⟨whole, listed, rfl⟩ := List.mem_map.1 inside
    obtain ⟨left, isHead, listed⟩ := List.mem_flatMap.1 listed
    obtain ⟨right, isTail, rfl⟩ := List.mem_map.1 listed
    exact ⟨left.text, right.text, (head _).1 (List.mem_map_of_mem isHead),
      (tail left.captures _).1 (List.mem_map_of_mem isTail), rfl⟩
  · rintro ⟨_, _, isFirst, isRest, rfl⟩
    obtain ⟨left, isHead, rfl⟩ := List.mem_map.1 ((head _).2 isFirst)
    obtain ⟨right, isTail, rfl⟩ := List.mem_map.1 ((tail left.captures _).2 isRest)
    exact List.mem_map.2 ⟨left.after right,
      List.mem_flatMap.2 ⟨left, isHead, List.mem_map_of_mem isTail⟩, rfl⟩

theorem mem_copyExpansions {body : Captures → List Expansion} {denoted : Text → Prop}
    (lists : ∀ captures t, t ∈ (body captures).map (·.text) ↔ denoted t) (count : Nat)
    (captures : Captures) (t : Text) :
    t ∈ (copyExpansions body count captures).map (·.text) ↔ Times denoted count t := by
  induction count generalizing captures t with
  | zero => simp [copyExpansions, Times]
  | succ count ih => exact mem_texts_after (lists captures) ih t

/-- Nothing in the pattern depends on what is around it, and all its repetitions fit. -/
structure Samplable (limit : Nat) (parts : List Pattern) : Prop where
  free : ∀ part ∈ parts, part.isContextual = false
  fits : ∀ part ∈ parts, part.fits limit = true

theorem Samplable.mono {small large : List Pattern} (samplable : Samplable limit large)
    (subset : small ⊆ large) : Samplable limit small :=
  ⟨fun part inside => samplable.free part (subset inside),
    fun part inside => samplable.fits part (subset inside)⟩

mutual

/-- The enumeration of a pattern lists what the pattern denotes as the sampler reads it: every
such text and no other, whatever was captured before. -/
theorem mem_expansions : ∀ (pattern : Pattern), Samplable limit pattern.parts →
    ∀ (captures : Captures) (t : Text),
      t ∈ (expansions limit names pattern captures).map (·.text) ↔
        Denotes (sampled limit) pattern t
  | char value, _, captures, t => by simp [expansions, Denotes]
  | set negated items, _, captures, t => by
    simp [expansions, Denotes, @mem_members_sampled limit, eq_comm]
  | anchor, samplable, _, _ | look _, samplable, _, _ | backref _, samplable, _, _ =>
    Bool.noConfusion (samplable.free _ (self_mem_parts _))
  | seq items, samplable, captures, t => by
    rw [expansions, Denotes]
    exact mem_seqExpansions items (samplable.mono (List.subset_cons_self _ _)) captures t
  | alt options, samplable, captures, t => by
    rw [expansions, Denotes]
    exact mem_altExpansions options (samplable.mono (List.subset_cons_self _ _)) captures t
  | group none body, samplable, captures, t => by
    rw [expansions, Denotes]
    exact mem_expansions body (samplable.mono (List.subset_cons_self _ _)) captures t
  | group (some _) body, samplable, captures, t => by
    rw [expansions, Denotes, List.map_map]
    exact mem_expansions body (samplable.mono (List.subset_cons_self _ _)) captures t
  | repeated body least most, samplable, captures, t => by
    have body_lists := mem_expansions body (samplable.mono (List.subset_cons_self _ _))
    have counts (count : Nat) : count ∈ copies limit least most ↔
        least ≤ count ∧ (∀ bound ∈ most, count ≤ bound) ∧ count ≤ limit :=
      mem_copies (samplable.fits _ (self_mem_parts _))
    simp only [expansions, Denotes, List.map_flatMap, List.mem_flatMap, counts,
      mem_copyExpansions body_lists, sampled, Option.mem_some_iff, forall_eq', and_assoc]

theorem mem_seqExpansions : ∀ (items : List Pattern), Samplable limit (partsOfAll items) →
    ∀ (captures : Captures) (t : Text),
      t ∈ (seqExpansions limit names items captures).map (·.text) ↔
        DenotesAll (sampled limit) items t
  | [], _, _, t => by simp [seqExpansions, DenotesAll]
  | item :: items, samplable, captures, t => by
    rw [seqExpansions, DenotesAll]
    exact mem_texts_after
      (mem_expansions item (samplable.mono (List.subset_append_left _ _)) captures)
      (mem_seqExpansions items (samplable.mono (List.subset_append_right _ _))) t

theorem mem_altExpansions : ∀ (options : List Pattern), Samplable limit (partsOfAll options) →
    ∀ (captures : Captures) (t : Text),
      t ∈ (altExpansions limit names options captures).map (·.text) ↔
        DenotesAny (sampled limit) options t
  | [], _, _, t => by simp [altExpansions, DenotesAny]
  | option :: options, samplable, captures, t => by
    rw [altExpansions, DenotesAny, List.map_append, List.mem_append]
    exact or_congr (mem_expansions option (samplable.mono (List.subset_append_left _ _)) captures t)
      (mem_altExpansions options (samplable.mono (List.subset_append_right _ _)) captures t)

end

end Sampled

end Pattern

namespace NumberedPattern

variable {tree : NumberedPattern} {limit : Nat}

/-- A search whose steps are enough lists the whole enumeration, if all counts are lengths. -/
theorem samples?_eq_all (short : limit < lengthBound) :
    tree.samples? ⟨(tree.walk limit).finds.length, limit, true, (tree.walk limit).steps⟩ =
      some ((tree.expansions limit).map (·.text)) := by
  cases taken : tree.samples? ⟨(tree.walk limit).finds.length, limit, true,
    (tree.walk limit).steps⟩ with
  | none =>
    obtain breaks | ⟨long, _⟩ := samples?_eq_none rfl taken
    · exact absurd (Sampling.bound_le_of_breaks breaks) (Nat.not_le.2 short)
    · exact absurd long (Nat.not_le.2 short)
  | some texts =>
    rw [(samples?_cutTo rfl taken).1.exact, Walk.within_all (Nat.le_refl _), List.take_length]
    exact congrArg (fun found : List Expansion => some (found.map (·.text)))
      (Pattern.finds_walk tree.root [])

theorem samples?_subset {candidates steps : Nat} {texts : List Text}
    (taken : tree.samples? ⟨candidates, limit, true, steps⟩ = some texts) :
    texts ⊆ (tree.expansions limit).map (·.text) := by
  have begins := (samples?_cutTo rfl taken).1.begins
  rw [walk, Pattern.finds_walk] at begins
  exact begins.subset

/-- What is found, in the end or up to a breakdown, is in the enumeration. -/
theorem mem_texts_of_found {candidates steps : Nat} {t : Text}
    (found : t ∈ (tree.search ⟨candidates, limit, true, steps⟩).found) :
    t ∈ (tree.expansions limit).map (·.text) := by
  let bounds : SampleBounds := ⟨candidates, limit, true, steps⟩
  have same : (tree.search bounds).found =
      ((start bounds).play (tree.quota bounds) (tree.walk limit)).found :=
    Search.Agrees.found_eq (search_agrees rfl)
  rw [same] at found
  have listed := (Search.mem_play_found _ _ found).resolve_left List.not_mem_nil
  rwa [walk, Pattern.finds_walk] at listed

end NumberedPattern

namespace Sampling

variable {pattern : Text} {tree : NumberedPattern} {limit : Nat}

theorem samples_eq_ok_of_whole (accepted : Pattern.read pattern = .ok tree) {candidates : Number}
    {texts : List Text} (taken : samples pattern candidates (.integer limit) = .ok texts) :
    ∃ steps, tree.samples? ⟨candidates.ceilNat, limit, true, steps⟩ = some texts := by
  have bounds : SampleBounds.ofNumbers candidates (.integer limit) =
      ⟨candidates.ceilNat, limit, true,
        (SampleBounds.ofNumbers candidates (.integer limit)).steps⟩ := by
    simp [SampleBounds.ofNumbers, Number.integer, Number.floorNat, Number.isInteger]
  simp only [samples, accepted] at taken
  rw [bounds] at taken
  split at taken
  · rename_i found
    cases taken
    exact ⟨_, found⟩
  · cases taken

/-- Sampling is sound and complete. Of a pattern in which nothing depends on what is around it and
every repetition fits under the expansion limit, the enumeration lists exactly the texts that the
pattern denotes as the sampler reads it. A search that may take enough steps finds each of them, if
no repetition is longer than a list can be. Every text that is found with whatever bounds, also
before a breakdown, and so every sample, is one that the pattern denotes in full. -/
theorem samples_denoted (accepted : Pattern.read pattern = .ok tree) (limit : Nat)
    (samplable : Pattern.Samplable limit tree.root.parts) :
    (∀ t, t ∈ (tree.expansions limit).map (·.text) ↔
      tree.root.Denotes (.sampled limit) t) ∧
    (limit < lengthBound → ∀ t, tree.root.Denotes (.sampled limit) t ↔
      ∃ candidates steps texts,
        tree.samples? ⟨candidates, limit, true, steps⟩ = some texts ∧ t ∈ texts) ∧
    (∀ candidates steps, ∀ t ∈ (tree.search ⟨candidates, limit, true, steps⟩).found,
      tree.root.Denotes .full t) ∧
    (∀ (candidates : Number) (texts : List Text),
      samples pattern candidates (.integer limit) = .ok texts →
        ∀ t ∈ texts, tree.root.Denotes .full t) := by
  have listed : ∀ t, t ∈ (tree.expansions limit).map (·.text) ↔
      tree.root.Denotes (.sampled limit) t :=
    Pattern.mem_expansions tree.root samplable []
  have inFull : ∀ t ∈ (tree.expansions limit).map (·.text), tree.root.Denotes .full t :=
    fun t inside => ((listed t).1 inside).mono (Reading.sampled_within_full limit)
  refine ⟨listed, fun short t => ?_, fun candidates steps t found => ?_, ?_⟩
  · rw [← listed]
    constructor
    · exact fun inside => ⟨_, _, _, NumberedPattern.samples?_eq_all short, inside⟩
    · rintro ⟨candidates, steps, texts, taken, inside⟩
      exact NumberedPattern.samples?_subset taken inside
  · exact inFull t (NumberedPattern.mem_texts_of_found found)
  · intro candidates texts taken t inside
    obtain ⟨steps, found⟩ := samples_eq_ok_of_whole accepted taken
    exact inFull t (NumberedPattern.samples?_subset found inside)

/-- Of the alphabet the set leaves two letters, and the repetition may go on for longer than the
limit. -/
def cutPattern : Text := "[^\\s!-x\x7b-~](?:c\x7b1,3\x7d)"

theorem samples_denoted_cutPattern : ∃ tree, Pattern.read cutPattern = .ok tree ∧
    (∀ t, t ∈ ([[121, 99], [121, 99, 99], [122, 99], [122, 99, 99]] : List Text) ↔
      tree.root.Denotes (.sampled 2) t) ∧
    samples cutPattern (.integer 3) (.integer 2) =
      .ok [[121, 99], [121, 99, 99], [122, 99]] ∧
    ∀ t ∈ ([[121, 99], [121, 99, 99], [122, 99]] : List Text), tree.root.Denotes .full t := by
  have facts : (Pattern.read cutPattern).toOption.map
      (fun tree => (tree.root.parts.map fun part => (part.isContextual, part.fits 2),
        (tree.expansions 2).map (·.text))) =
      some (List.replicate 5 (false, true),
        [[121, 99], [121, 99, 99], [122, 99], [122, 99, 99]]) := by
    decide +kernel
  obtain ⟨tree, read, facts⟩ := Option.map_eq_some_iff.1 facts
  obtain ⟨checked, all⟩ := Prod.mk.inj facts
  have checked_part : ∀ part ∈ tree.root.parts, (part.isContextual, part.fits 2) = (false, true) :=
    fun part inside => List.eq_of_mem_replicate (checked ▸ List.mem_map_of_mem inside)
  have samplable : Pattern.Samplable 2 tree.root.parts :=
    ⟨fun part inside => congrArg Prod.fst (checked_part part inside),
      fun part inside => congrArg Prod.snd (checked_part part inside)⟩
  have taken : (samples cutPattern (.integer 3) (.integer 2)).toOption =
      some [[121, 99], [121, 99, 99], [122, 99]] := by decide +kernel
  have accepted := eq_ok_of_toOption read
  obtain ⟨listed, _, _, sampled⟩ := samples_denoted accepted 2 samplable
  rw [all] at listed
  exact ⟨tree, accepted, listed, eq_ok_of_toOption taken, sampled _ _ (eq_ok_of_toOption taken)⟩

end Sampling

end Highlight
