import Highlight.Proofs.Pattern.Meaning
import Highlight.Proofs.Pattern.Seams

/-!
# Patterns with a tail trimmed

A tail is a text that no part of a pattern in front of it reaches into, unless a backslash stands
right in front. Where a pattern ends in a tail, the text in front of the tail is a pattern as well,
and the last option of the whole is the last option of the front with the items of the tail behind
it (`Grammar.Derives.trim`). Such a pattern matches what the options in front match, and what the
last one matches with what the tail matches behind it (`NumberedPattern.matches_trimmed`).
-/

namespace Highlight

open Reader Grammar

namespace Pattern

/-! ## Lists of items and options as one pattern -/

section Lists

variable {names : Table Text Nat} {items options : List Pattern} {bound after : Bindings} {t : Text}

theorem numberAll_append (xs ys : List Pattern) (s : Numbering) :
    numberAll (xs ++ ys) s = ((numberAll xs s).1 ++ (numberAll ys (numberAll xs s).2).1,
      (numberAll ys (numberAll xs s).2).2) := by
  induction xs generalizing s with
  | nil => rfl
  | cons x xs ih => simp only [List.cons_append, numberAll, ih]

theorem number_sequenceOf (items : List Pattern) (s : Numbering) :
    (sequenceOf items).number s = (sequenceOf (numberAll items s).1, (numberAll items s).2) := by
  match items with
  | [] | [_] | _ :: _ :: _ => rfl

theorem number_alternativesOf (options : List Pattern) (s : Numbering) :
    (alternativesOf options).number s =
      (alternativesOf (numberAll options s).1, (numberAll options s).2) := by
  match options with
  | [] | [_] | _ :: _ :: _ => rfl

/-- The last option is numbered behind the others. -/
theorem numbered_options (others items : List Pattern) {s : Numbering}
    (behind : (numberAll others .empty).2 = s) :
    (alternativesOf (others ++ [sequenceOf items])).numbered =
      ⟨alternativesOf ((numberAll others .empty).1 ++ [sequenceOf (numberAll items s).1]),
        (numberAll items s).2.count, (numberAll items s).2.names⟩ := by
  subst behind
  simp only [numbered, number_alternativesOf, numberAll_append, numberAll, number_sequenceOf]

theorem partsOfAll_subset (items : List Pattern) :
    partsOfAll items ⊆ (sequenceOf items).parts := by
  match items with
  | [] => exact List.nil_subset _
  | [item] => exact (List.append_nil (parts item)) ▸ List.Subset.refl _
  | first :: second :: items => exact List.subset_cons_self _ _

theorem spells_sequenceOf :
    Spells names (sequenceOf items) bound t after ↔ SpellsAll names items bound t after := by
  match items with
  | [] | _ :: _ :: _ => simp only [sequenceOf, Spells]
  | [item] => simp [sequenceOf, SpellsAll]

theorem spellsAny_iff : SpellsAny names options bound t after ↔
    ∃ option ∈ options, Spells names option bound t after := by
  induction options with
  | nil => simp [SpellsAny]
  | cons option options ih => simp [SpellsAny, ih]

theorem spells_alternativesOf : Spells names (alternativesOf options) bound t after ↔
    ∃ option ∈ options, Spells names option bound t after := by
  rw [← spellsAny_iff]
  match options with
  | [] | _ :: _ :: _ => simp only [alternativesOf, Spells]
  | [option] => simp [alternativesOf, SpellsAny]

/-- Where nothing at the end depends on what is around it, the end is spelled by what it denotes. -/
theorem spells_sequenceOf_append {more : List Pattern} (free : ContextFree (partsOfAll more)) :
    (∃ after, Spells names (sequenceOf (items ++ more)) bound t after) ↔ ∃ x y, t = x ++ y ∧
      (∃ after, Spells names (sequenceOf items) bound x after) ∧ DenotesAll .full more y := by
  simp only [spells_sequenceOf, spellsAll_append]
  constructor
  · rintro ⟨after, x, y, between, first, last, rfl⟩
    exact ⟨x, y, rfl, ⟨between, first⟩, (spellsAll_iff_denotes more free between y).1 ⟨after, last⟩⟩
  · rintro ⟨x, y, rfl, ⟨between, first⟩, denoted⟩
    obtain ⟨after, last⟩ := (spellsAll_iff_denotes more free between y).2 denoted
    exact ⟨after, x, y, between, first, last, rfl⟩

end Lists

/-- No group of the pattern captures, and nothing in it depends on what is around it. -/
structure IsConstant (parts : List Pattern) : Prop where
  captureless : ∀ part ∈ parts, part.captureIndex = none
  free : ContextFree parts

theorem IsConstant.mono {small large : List Pattern} (constant : IsConstant large)
    (subset : small ⊆ large) : IsConstant small :=
  ⟨fun part inside => constant.captureless part (subset inside), constant.free.mono subset⟩

mutual

/-- Where no group captures, nothing is numbered. -/
theorem number_constant : ∀ pattern : Pattern, IsConstant pattern.parts →
    ∀ s, pattern.number s = (pattern, s)
  | alt options, constant, s => by
    simp only [number, numberAll_constant options (constant.mono (List.subset_cons_self _ _))]
  | seq items, constant, s => by
    simp only [number, numberAll_constant items (constant.mono (List.subset_cons_self _ _))]
  | group none body, constant, s => by
    simp only [number, number_constant body (constant.mono (List.subset_cons_self _ _))]
  | group (some capture) body, constant, s => by
    cases constant.captureless _ (self_mem_parts _)
  | look body, constant, s => by
    simp only [number, number_constant body (constant.mono (List.subset_cons_self _ _))]
  | repeated body _ _, constant, s => by
    simp only [number, number_constant body (constant.mono (List.subset_cons_self _ _))]
  | char _, _, _ | set _ _, _, _ | anchor, _, _ | backref _, _, _ => rfl

theorem numberAll_constant : ∀ items : List Pattern, IsConstant (partsOfAll items) →
    ∀ s, numberAll items s = (items, s)
  | [], _, _ => rfl
  | item :: items, constant, s => by
    simp only [numberAll, number_constant item (constant.mono (List.subset_append_left _ _)),
      numberAll_constant items (constant.mono (List.subset_append_right _ _))]

end

end Pattern

namespace Grammar

/-- A text that begins at a seam and holds nothing that ends a set, a group or an option. As a
pattern it means the same wherever it stands. -/
structure IsTail (s : Text) : Prop where
  filled : s ≠ []
  seam : HeadIn seams s
  avoids : unit ']' ∉ s ∧ unit ')' ∉ s ∧ unit '|' ∉ s
  reads : ∃ root, Pattern.readTree s = .ok root ∧ Pattern.IsConstant root.parts

section Trim

variable {s l t rest : Text} {a : Pattern} {as : List Pattern}

/-- A unit that does not stand in the tail stands in front of it. -/
theorem split_behind {m : CodeUnit} {z r : Text} (out : m ∉ s) (parts : z ++ m :: r = l ++ s) :
    ∃ y, l = z ++ m :: y ∧ r = y ++ s := by
  obtain ⟨w, rfl, behind⟩ | ⟨w, rfl, behind⟩ := List.append_eq_append_iff.1 parts
  · cases w with
    | nil =>
      rw [List.nil_append] at behind
      rw [← behind] at out
      exact absurd List.mem_cons_self out
    | cons u w =>
      obtain ⟨rfl, rfl⟩ := List.cons.inj behind
      exact ⟨w, rfl, rfl⟩
  · rw [behind] at out
    exact absurd List.mem_append_cons_self out

/-- Where no backslash escapes the tail, an atom without a pattern ends in front of it. -/
theorem leaf_inside (tail : IsTail s) (filled : l ≠ []) (code : Ground.run .code l ≠ .escaped)
    (read : (bracketed <|> short).result (l ++ s) = some (a, rest)) : ∃ y, rest = y ++ s := by
  obtain ⟨u, l, rfl⟩ := List.exists_cons_of_ne_nil filled
  obtain set | ⟨-, single⟩ := orElse_eq_some.1 read
  · obtain ⟨_, _, opens, further⟩ := bind_eq_some.1 set
    obtain ⟨_, _, inside, further⟩ := bind_eq_some.1 further
    obtain ⟨_, _, closes, rfl, rfl⟩ := bind_eq_some.1 further
    obtain rfl := literal_eq_some.1 closes
    obtain ⟨b, rfl, _⟩ := takes_bracketBody inside
    have parts : (unit '[' :: b) ++ unit ']' :: rest = u :: l ++ s := (literal_eq_some.1 opens).symm
    obtain ⟨y, _, same⟩ := split_behind tail.avoids.1 parts
    exact ⟨y, same⟩
  · by_cases escape : u = unit '\\'
    · subst escape
      have room : l ≠ [] := by
        rintro rfl
        exact code rfl
      obtain ⟨v, l, rfl⟩ := List.exists_cons_of_ne_nil room
      rw [List.cons_append, short_escape] at single
      obtain coded | ⟨-, self⟩ := orElse_eq_some.1 single
      · obtain ⟨_, _, y, same, _⟩ := keeps_codedAtom.carry
          (inStep_sameFront tail.seam tail.seam) ⟨v :: l, rfl, rfl⟩ coded
        exact ⟨y, same⟩
      · obtain ⟨w, _, any, rfl, rfl⟩ := bind_eq_some.1 self
        exact ⟨l, (List.cons.inj (anyUnit_eq_some.1 any)).2.symm⟩
    · obtain ⟨rfl, _⟩ := short_unit escape single
      exact ⟨l, rfl⟩

theorem Derives.atom_inside (tail : IsTail s) (filled : l ≠ [])
    (code : Ground.run .code l ≠ .escaped) (derives : Derives .atom t [a] rest)
    (front : t = l ++ s) : ∃ y, rest = y ++ s := by
  cases derives with
  | leaf read =>
    subst front
    exact leaf_inside tail filled code read
  | @bare x rest a bare =>
    have parts : (unit '(' :: x) ++ unit ')' :: rest = l ++ s := front
    obtain ⟨y, _, same⟩ := split_behind tail.avoids.2.1 parts
    exact ⟨y, same⟩
  | @group w t rest node options mark inside =>
    obtain ⟨x, rfl⟩ := inside.suffix
    have parts : (unit '(' :: (w ++ x)) ++ unit ')' :: rest = l ++ s := by
      rw [← front, List.cons_append, List.append_assoc]
    obtain ⟨y, _, same⟩ := split_behind tail.avoids.2.1 parts
    exact ⟨y, same⟩

/-- Where no backslash escapes the tail, an item ends in front of it. -/
theorem Derives.item_inside (tail : IsTail s) (filled : l ≠ [])
    (code : Ground.run .code l ≠ .escaped) (derives : Derives .item (l ++ s) [a] rest) :
    ∃ y, rest = y ++ s := by
  cases derives with
  | item first times =>
    obtain ⟨z, rfl⟩ := first.atom_inside tail filled code rfl
    obtain ⟨_, _, y, same, _⟩ := (keeps_optional keeps_quantifier).carry
      (inStep_sameFront tail.seam tail.seam) ⟨z, rfl, rfl⟩ times
    exact ⟨y, same⟩

/-- A derivation in front of the tail needs no tail. -/
theorem Derives.without {category : Category} {y : Text} (tail : IsTail s)
    (derives : Derives category (l ++ s) as (y ++ s)) : Derives category l as y := by
  have alone : Derives category (l ++ []) as (y ++ []) :=
    derives.context tail.seam headIn_nil rfl rfl
  rwa [List.append_nil, List.append_nil] at alone

theorem Derives.ground_behind {category : Category} {y : Text} (derives : Derives category l as y)
    (code : Ground.run .code l ≠ .escaped) : Ground.run .code y ≠ .escaped := by
  obtain ⟨x, rfl, ends⟩ := derives.taken
  rwa [Ground.run_append, ends] at code

/-- A sequence ends in front of the tail, or it is one in front of the tail and one in the tail. -/
theorem Derives.sequence_trim (tail : IsTail s) (derives : Derives .sequence t as rest)
    (front : t = l ++ s) (code : Ground.run .code l ≠ .escaped) :
    (∃ y, rest = y ++ s) ∨ ∃ before behind, as = before ++ behind ∧
      Derives .sequence l before [] ∧ Derives .sequence s behind rest := by
  generalize sequence : Category.sequence = category at derives
  induction derives generalizing l with
  | leaf | bare | group | item | last | more => cases sequence
  | nil => exact .inl ⟨l, front⟩
  | @cons t middle rest a as first later _ ih =>
    subst front
    by_cases filled : l = []
    · subst filled
      exact .inr ⟨[], a :: as, rfl, .nil headIn_nil, .cons first later⟩
    · obtain ⟨y, rfl⟩ := first.item_inside tail filled code
      have alone := first.without tail
      obtain ends | ⟨before, behind, rfl, others, inside⟩ :=
        ih rfl (alone.ground_behind code) rfl
      · exact .inl ends
      · exact .inr ⟨a :: before, behind, rfl, .cons alone others, inside⟩

/-- Of a pattern that ends in a tail, the last option has the items of the tail behind it. -/
theorem Derives.trim {options : List Pattern} (tail : IsTail s)
    (derives : Derives .options (l ++ s) options []) (code : Ground.run .code l ≠ .escaped) :
    ∃ others before behind, options = others ++ [sequenceOf (before ++ behind)] ∧
      Derives .options l (others ++ [sequenceOf before]) [] ∧ Derives .sequence s behind [] := by
  generalize front : l ++ s = t at derives
  generalize whole : Category.options = category at derives
  generalize end_ : ([] : Text) = rest at derives
  induction derives generalizing l with
  | leaf | bare | group | item | nil | cons => cases whole
  | last only ends =>
    subst end_
    obtain ⟨y, same⟩ | ⟨before, behind, rfl, others, inside⟩ :=
      only.sequence_trim tail front.symm code
    · exact absurd (List.append_eq_nil_iff.1 same.symm).2 tail.filled
    · exact ⟨[], before, behind, rfl, .last others headIn_nil, inside⟩
  | @more t middle rest as options first later _ ih =>
    subst end_
    obtain ⟨y, same⟩ | ⟨_, _, _, _, inside⟩ := first.sequence_trim tail front.symm code
    · have bar : ([] : Text) ++ unit '|' :: middle = y ++ s := same
      obtain ⟨y', rfl, rfl⟩ := split_behind tail.avoids.2.2 bar
      subst front
      have alone : Derives .sequence l as (unit '|' :: y') := first.without tail
      have behind : Ground.run .code y' ≠ .escaped := alone.ground_behind code
      obtain ⟨others, before, behind, rfl, further, inside⟩ := ih behind rfl rfl rfl
      exact ⟨sequenceOf as :: others, before, behind, rfl, .more alone further, inside⟩
    · exact absurd (inside.suffix.subset List.mem_cons_self) tail.avoids.2.2

end Trim

end Grammar

namespace NumberedPattern

/-- The groups of the pattern around another root. -/
def withRoot (tree : NumberedPattern) (root : Pattern) : NumberedPattern := { tree with root }

variable {l s : Text} {tree front tail : NumberedPattern}

/-- In front of a tail stands a pattern, unless a backslash escapes the tail. -/
theorem read_front_iff (isTail : IsTail s) (whole : Pattern.read (l ++ s) = .ok tree) :
    (∃ front, Pattern.read l = .ok front) ↔ Ground.run .code l ≠ .escaped := by
  constructor
  · rintro ⟨front, alone⟩ escaped
    obtain ⟨root, alone, -⟩ := Pattern.read_eq_ok.1 alone
    obtain ⟨options, -, derives⟩ := Pattern.readTree_iff_derives.1 alone
    obtain ⟨x, rfl, code⟩ := derives.taken
    rw [List.append_nil, code] at escaped
    cases escaped
  · intro code
    obtain ⟨root, whole, -⟩ := Pattern.read_eq_ok.1 whole
    obtain ⟨options, -, derives⟩ := Pattern.readTree_iff_derives.1 whole
    obtain ⟨others, before, behind, -, alone, -⟩ := derives.trim isTail code
    exact ⟨_, Pattern.read_eq_ok.2 ⟨_, Pattern.readTree_iff_derives.2 ⟨_, rfl, alone⟩, rfl⟩⟩

/-- A pattern that ends in a tail matches what the options in front of the last one match, and what
the last one matches with what the tail matches behind it. -/
theorem matches_trimmed (isTail : IsTail s) (whole : Pattern.read (l ++ s) = .ok tree)
    (alone : Pattern.read l = .ok front) (behind : Pattern.read s = .ok tail) :
    ∃ others last, front.root = alternativesOf (others ++ [last]) ∧ ∀ t, tree.Matches t ↔
      (∃ option ∈ others, (front.withRoot option).Matches t) ∨
        ∃ x y, t = x ++ y ∧ (front.withRoot last).Matches x ∧ tail.Matches y := by
  have code := (read_front_iff isTail whole).1 ⟨front, alone⟩
  obtain ⟨_, wholeTree, rfl⟩ := Pattern.read_eq_ok.1 whole
  obtain ⟨_, frontTree, rfl⟩ := Pattern.read_eq_ok.1 alone
  obtain ⟨_, tailTree, rfl⟩ := Pattern.read_eq_ok.1 behind
  obtain ⟨options, rfl, derives⟩ := Pattern.readTree_iff_derives.1 wholeTree
  obtain ⟨others, items, more, rfl, lead, ends⟩ := derives.trim isTail code
  have leadTree := Pattern.readTree_iff_derives.2 ⟨_, rfl, lead⟩
  have endsTree := Pattern.readTree_iff_derives.2 ⟨_, rfl, .last ends headIn_nil⟩
  obtain rfl := Except.ok.inj (frontTree.symm.trans leadTree)
  obtain rfl := Except.ok.inj (tailTree.symm.trans endsTree)
  obtain ⟨_, constantTree, constant⟩ := isTail.reads
  obtain rfl := Except.ok.inj (constantTree.symm.trans endsTree)
  have constant : Pattern.IsConstant (sequenceOf more).parts := constant
  have constants := constant.mono (Pattern.partsOfAll_subset more)
  -- the options in front are numbered alike in both patterns, and so are the items of the last one
  have frontNumbers := Pattern.numbered_options others items rfl
  have wholeNumbers := Pattern.numbered_options others (items ++ more) rfl
  rw [Pattern.numberAll_append, Pattern.numberAll_constant more constants] at wholeNumbers
  have tailMatches (y : Text) :
      (alternativesOf [sequenceOf more]).numbered.Matches y ↔ Pattern.DenotesAll .full more y := by
    have tailNumbers : ((sequenceOf more).number .empty).1 = sequenceOf more := by
      rw [Pattern.number_constant _ constant]
    show (∃ after, ((sequenceOf more).number .empty).1.Spells _ _ y after) ↔ _
    simp only [tailNumbers, Pattern.spells_sequenceOf]
    exact Pattern.spellsAll_iff_denotes more constants.free _ y
  rw [frontNumbers, wholeNumbers]
  refine ⟨_, _, rfl, fun t => ?_⟩
  simp only [tailMatches]
  simp only [Matches, withRoot, Pattern.spells_alternativesOf, List.mem_append, List.mem_singleton,
    or_and_right, exists_or, exists_eq_left, Pattern.spells_sequenceOf_append constants.free]
  rw [exists_comm]
  simp only [exists_and_left]

end NumberedPattern

end Highlight
