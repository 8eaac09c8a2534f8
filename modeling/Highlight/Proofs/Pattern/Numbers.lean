import Highlight.Proofs.Pattern.Renumbered
import Highlight.Proofs.Pattern.Seams
import Highlight.Proofs.Table

/-!
# The numbers of capturing groups

Numbering goes through the parts of a pattern in order and counts the groups that capture. What one
part adds to the numbering is a stretch of numbers and the names among them (`Counts`), and the
stretches of parts one behind the other join. So the groups of a pattern have the numbers from one
on, and a name belongs to the last group that bears it (`isNumbered_numbered`). The order of the
parts is that of the text: each capturing group stands where its parenthesis opens, and these places
rise (`Derives.opened`), so the groups are numbered by their opening parentheses
(`read_numbers`).
-/

namespace Highlight

namespace Pattern

/-- A group that captures. -/
def isCapturing : Pattern → Bool
  | group (some _) _ => true
  | _ => false

/-- The name of a capturing group. -/
def groupName : Pattern → Option Text
  | group (some capture) _ => capture.name
  | _ => none

/-- The name of a capturing group with its number. -/
def bearing (part : Pattern) : Option (Text × Nat) :=
  part.groupName.bind fun name => part.captureIndex.map fun n => (name, n)

/-- The capturing groups of a pattern, each in front of those inside it. -/
def capturing (pattern : Pattern) : List Pattern := pattern.parts.filter isCapturing

/-! ## Counting -/

/-- From one numbering to another these parts are counted: the numbers among them go on without a
gap, and their names are set in order. -/
structure Counts (s s' : Numbering) (parts : List Pattern) : Prop where
  grows : s.count ≤ s'.count
  indices : parts.filterMap captureIndex = List.range' (s.count + 1) (s'.count - s.count)
  names : s'.names =
    (parts.filterMap bearing).foldl (fun table entry => Table.set table entry.1 entry.2) s.names

section Counts

variable {s s' s'' : Numbering} {part body : Pattern} {parts others : List Pattern}

theorem Counts.nil : Counts s s [] where
  grows := Nat.le_refl _
  indices := by simp
  names := rfl

theorem Counts.append (first : Counts s s' parts) (second : Counts s' s'' others) :
    Counts s s'' (parts ++ others) where
  grows := Nat.le_trans first.grows second.grows
  indices := by
    have le := first.grows
    have le' := second.grows
    rw [List.filterMap_append, first.indices, second.indices,
      show s'.count + 1 = s.count + 1 + (s'.count - s.count) by omega, List.range'_append_1]
    congr 1
    omega
  names := by rw [List.filterMap_append, List.foldl_append, ← first.names, second.names]

/-- A part that is no capturing group is passed. -/
theorem Counts.pass (other : part.isCapturing = false) (counts : Counts s s' parts) :
    Counts s s' (part :: parts) := by
  have numberless : part.captureIndex = none ∧ part.bearing = none := by
    cases part with
    | group capture body =>
      cases capture with
      | none => exact ⟨rfl, rfl⟩
      | some capture => cases other
    | _ => exact ⟨rfl, rfl⟩
  refine ⟨counts.grows, ?_, ?_⟩
  · rw [List.filterMap_cons_none numberless.1, counts.indices]
  · rw [List.filterMap_cons_none numberless.2, counts.names]

/-- A capturing group takes the next number, in front of the parts inside it. -/
theorem Counts.enter {name : Option Text} (counts : Counts (s.enter name) s' parts) :
    Counts s s' (group (some ⟨s.count + 1, name⟩) body :: parts) := by
  have grows := counts.grows
  have indices := counts.indices
  rw [enter_count] at grows indices
  refine ⟨by omega, ?_, ?_⟩
  · have number : captureIndex (group (some ⟨s.count + 1, name⟩) body) = some (s.count + 1) := rfl
    rw [List.filterMap_cons_some number, indices,
      show s'.count - s.count = s'.count - (s.count + 1) + 1 by omega, List.range'_succ]
  · rw [counts.names]
    cases name <;> rfl

end Counts

mutual

/-- Numbering a pattern counts its parts. -/
theorem number_counts : ∀ (pattern : Pattern) (s : Numbering),
    Counts s (pattern.number s).2 (pattern.number s).1.parts
  | alt options, s => (numberAll_counts options s).pass rfl
  | seq items, s => (numberAll_counts items s).pass rfl
  | group none body, s => (number_counts body s).pass rfl
  | group (some capture) body, s => (number_counts body (s.enter capture.name)).enter
  | look body, s => (number_counts body s).pass rfl
  | repeated body _ _, s => (number_counts body s).pass rfl
  | char _, _ | set _ _, _ | anchor, _ | backref _, _ => Counts.nil.pass rfl

theorem numberAll_counts : ∀ (items : List Pattern) (s : Numbering),
    Counts s (numberAll items s).2 (partsOfAll (numberAll items s).1)
  | [], _ => .nil
  | item :: items, s => (number_counts item s).append (numberAll_counts items (item.number s).2)

end

/-! ## The numbered pattern -/

/-- The groups that capture have the numbers from one to the count, in the order of the parts, and
nothing else has a number. The names are those of the groups, and a name stands for the last group
that bears it. -/
structure IsNumbered (pattern : NumberedPattern) : Prop where
  indices : pattern.root.capturing.map captureIndex = (List.range' 1 pattern.groupCount).map some
  bare : ∀ part ∈ pattern.root.parts, part.isCapturing = false → part.captureIndex = none
  single : (Table.keys pattern.names).Nodup
  named : ∀ name, name ∈ Table.keys pattern.names ↔
    ∃ group ∈ pattern.root.capturing, group.groupName = some name
  last : ∀ name n, Table.get? pattern.names name = some n →
    ∃ before group after, pattern.root.capturing = before ++ group :: after ∧
      group.groupName = some name ∧ group.captureIndex = some n ∧
      ∀ later ∈ after, later.groupName ≠ some name

theorem isCapturing_of_isLeaf {part : Pattern} (leaf : part.isLeaf = true) :
    part.isCapturing = false := by
  cases part <;> first | rfl | cases leaf

theorem captureIndex_eq_none_iff {part : Pattern} :
    part.captureIndex = none ↔ part.isCapturing = false := by
  cases part with
  | group capture body => cases capture <;> simp [captureIndex, isCapturing]
  | _ => simp [captureIndex, isCapturing]

theorem bearing_eq_some_iff {part : Pattern} {name : Text} {n : Nat} :
    part.bearing = some (name, n) ↔ part.groupName = some name ∧ part.captureIndex = some n := by
  simp [bearing, Option.bind_eq_some_iff]

/-- A group with a name has a number. -/
theorem exists_bearing {part : Pattern} {name : Text} (named : part.groupName = some name) :
    ∃ n, part.bearing = some (name, n) := by
  cases part with
  | group capture body =>
    cases capture with
    | none => cases named
    | some capture => exact ⟨capture.index, bearing_eq_some_iff.2 ⟨named, rfl⟩⟩
  | _ => cases named

theorem map_captureIndex (parts : List Pattern) :
    (parts.filter isCapturing).map captureIndex = (parts.filterMap captureIndex).map some := by
  induction parts with
  | nil => rfl
  | cons part parts ih =>
    cases index : part.captureIndex with
    | none =>
      have other := captureIndex_eq_none_iff.1 index
      rw [List.filterMap_cons_none index, List.filter_cons_of_neg (by simp [other]), ih]
    | some n =>
      have captures : part.isCapturing = true := by
        by_contra other
        rw [captureIndex_eq_none_iff.2 (Bool.eq_false_iff.2 other)] at index
        cases index
      rw [List.filterMap_cons_some index, List.filter_cons_of_pos captures, List.map_cons,
        List.map_cons, ih, index]

theorem filterMap_bearing (parts : List Pattern) :
    (parts.filter isCapturing).filterMap bearing = parts.filterMap bearing := by
  rw [List.filterMap_filter]
  refine List.filterMap_congr fun part _ => ?_
  split
  · rfl
  · next other =>
    rw [bearing, captureIndex_eq_none_iff.2 (Bool.eq_false_iff.2 other)]
    cases part.groupName <;> rfl

theorem isNumbered_numbered (root : Pattern) : IsNumbered root.numbered := by
  have counts : Counts .empty (root.number .empty).2 root.numbered.root.parts :=
    number_counts root .empty
  have names : root.numbered.names =
      Table.ofList (root.numbered.root.capturing.filterMap bearing) := by
    rw [capturing, filterMap_bearing]
    exact counts.names
  refine ⟨?_, fun part _ => captureIndex_eq_none_iff.2, ?_, fun name => ?_, fun name n found => ?_⟩
  · rw [capturing, map_captureIndex, counts.indices]
    rfl
  · rw [names]
    exact Table.nodup_keys_ofList _
  · rw [names, Table.mem_keys_ofList, Table.keys, List.mem_map]
    constructor
    · rintro ⟨entry, listed, rfl⟩
      obtain ⟨group, inside, bears⟩ := List.mem_filterMap.1 listed
      exact ⟨group, inside, (bearing_eq_some_iff.1 bears).1⟩
    · rintro ⟨group, inside, named⟩
      obtain ⟨n, bears⟩ := exists_bearing named
      exact ⟨(name, n), List.mem_filterMap.2 ⟨group, inside, bears⟩, rfl⟩
  · rw [names] at found
    obtain ⟨first, others, entries, last⟩ := Table.get?_ofList_eq_some_iff.1 found
    obtain ⟨front, back, parts, -, further⟩ := List.filterMap_eq_append_iff.1 entries
    obtain ⟨passed, group, after, rfl, -, bears, behind⟩ := List.filterMap_eq_cons_iff.1 further
    obtain ⟨named, number⟩ := bearing_eq_some_iff.1 bears
    refine ⟨front ++ passed, group, after, by rw [parts, List.append_assoc], named, number, ?_⟩
    intro later inside same
    obtain ⟨m, bears'⟩ := exists_bearing same
    refine last (List.mem_map.2 ⟨(name, m), ?_, rfl⟩)
    rw [← behind]
    exact List.mem_filterMap.2 ⟨later, inside, bears'⟩

end Pattern

/-! ## Where the groups open -/

namespace Grammar

open Pattern Reader

/-- The text begins with this group, from the parenthesis that opens it to its closing one. -/
def Heads (group : Pattern) (s : Text) : Prop :=
  ∃ g rest, s = g ++ rest ∧ g.head? = some (unit '(') ∧ readTree g = .ok group

/-- Between the two texts the capturing groups of these parts open one behind the other, each where
one of the openings begins. -/
structure Opened (t rest : Text) (parts : List Pattern) (openings : List Text) : Prop where
  each : List.Forall₂ Heads (parts.filter isCapturing) openings
  order : openings.Pairwise fun s s' => s'.length < s.length
  inside : ∀ s ∈ openings, s <:+ t ∧ rest.length < s.length

section Openings

variable {t t' middle rest w : Text} {nodes others options as : List Pattern} {part : Pattern}
  {openings openings' : List Text} {node : Pattern → Pattern}

theorem Opened.nil : Opened t rest [] [] := ⟨.nil, .nil, nofun⟩

/-- A part that is no capturing group opens nowhere. -/
theorem Opened.pass (other : part.isCapturing = false) (opened : Opened t rest nodes openings) :
    Opened t rest (part :: nodes) openings := by
  refine ⟨?_, opened.order, opened.inside⟩
  rw [List.filter_cons_of_neg (by simp [other])]
  exact opened.each

/-- A capturing group opens in front of the groups inside it. -/
theorem Opened.enter (captures : part.isCapturing = true) (heads : Heads part t)
    (opened : Opened t rest nodes openings) (shorter : ∀ s ∈ openings, s.length < t.length)
    (back : rest.length < t.length) : Opened t rest (part :: nodes) (t :: openings) := by
  refine ⟨?_, List.pairwise_cons.2 ⟨shorter, opened.order⟩,
    List.forall_mem_cons.2 ⟨⟨List.suffix_rfl, back⟩, opened.inside⟩⟩
  rw [List.filter_cons_of_pos captures]
  exact .cons heads opened.each

theorem Opened.widen (opened : Opened t middle nodes openings) (front : t <:+ t')
    (back : rest <:+ middle) : Opened t' rest nodes openings := by
  refine ⟨opened.each, opened.order, fun s listed => ?_⟩
  obtain ⟨behind, longer⟩ := opened.inside s listed
  have shorter := back.length_le
  exact ⟨behind.trans front, by omega⟩

theorem Opened.append (first : Opened t middle nodes openings)
    (later : Opened middle rest others openings') (front : middle <:+ t) (back : rest <:+ middle) :
    Opened t rest (nodes ++ others) (openings ++ openings') := by
  refine ⟨?_, ?_, ?_⟩
  · rw [List.filter_append]
    exact List.rel_append first.each later.each
  · refine List.pairwise_append.2 ⟨first.order, later.order, fun s listed s' listed' => ?_⟩
    have longer := (first.inside s listed).2
    have shorter := (later.inside s' listed').1.length_le
    omega
  · exact List.forall_mem_append.2
      ⟨(first.widen List.suffix_rfl back).inside, (later.widen front List.suffix_rfl).inside⟩

theorem partsOfAll_singleton (part : Pattern) : partsOfAll [part] = part.parts :=
  List.append_nil part.parts

theorem Opened.sequenceOf (opened : Opened t rest (partsOfAll as) openings) :
    Opened t rest (partsOfAll [sequenceOf as]) openings := by
  match as with
  | [item] => exact opened
  | [] | _ :: _ :: _ =>
    rw [partsOfAll_singleton]
    exact opened.pass rfl

theorem Opened.alternativesOf (opened : Opened t rest (partsOfAll options) openings) :
    Opened t rest (alternativesOf options).parts openings := by
  match options with
  | [option] => rwa [partsOfAll_singleton] at opened
  | [] | _ :: _ :: _ => exact opened.pass rfl

theorem Mark.parts (mark : Mark w node) (body : Pattern) :
    (node body).parts = node body :: body.parts := by
  cases mark <;> rfl

/-- The text of a group is read alone. -/
theorem heads_group (mark : Mark w node)
    (inside : Derives .options t options (unit ')' :: rest)) :
    Heads (node (alternativesOf options)) (unit '(' :: (w ++ t)) := by
  obtain ⟨x, rfl⟩ := inside.suffix
  have closed : Derives .options (x ++ ")") options ")" :=
    inside.context (headIn_cons (by decide)) (headIn_cons (by decide)) rfl (List.nil_append _).symm
  have whole : unit '(' :: (w ++ (x ++ unit ')' :: rest)) =
      unit '(' :: (w ++ (x ++ ")")) ++ rest := by
    simp [Text.ofString, unit, CodeUnit.ofScalar]
  refine ⟨_, rest, whole, rfl, readTree_iff_derives.2 ⟨[node (alternativesOf options)], rfl, ?_⟩⟩
  have alone : Derives .item (unit '(' :: (w ++ (x ++ ")"))) [node (alternativesOf options)] [] :=
    .item (.group mark closed) rfl
  exact .last (.cons alone (.nil headIn_nil)) headIn_nil

/-- The groups that are read open one behind the other, in the order of the parts. -/
theorem Derives.opened {category : Category} (derives : Derives category t as rest) :
    ∃ openings, Opened t rest (partsOfAll as) openings := by
  induction derives with
  | leaf read =>
    obtain ⟨x, rfl, leafText⟩ := takes_leaf read
    refine ⟨[], ?_⟩
    rw [partsOfAll_singleton, parts_of_isLeaf leafText.leaf]
    exact Opened.nil.pass (isCapturing_of_isLeaf leafText.leaf)
  | bare bare =>
    refine ⟨[], ?_⟩
    cases bare <;> exact Opened.nil.pass rfl
  | @group w t rest node options mark inside ih =>
    obtain ⟨openings, opened⟩ := ih
    have front : t <:+ unit '(' :: (w ++ t) := (List.suffix_append w t).trans (List.suffix_cons _ _)
    have body := opened.alternativesOf.widen front (List.suffix_cons (unit ')') rest)
    rw [partsOfAll_singleton, mark.parts]
    cases captures : (node (alternativesOf options)).isCapturing with
    | false => exact ⟨openings, body.pass captures⟩
    | true =>
      -- The group opens in front of its body, and so in front of every group inside it.
      have size : (unit '(' :: (w ++ t)).length = 1 + w.length + t.length := by
        simp
        omega
      have behind := inside.suffix.length_le
      refine ⟨_, body.enter captures (heads_group mark inside) (fun s listed => ?_) ?_⟩
      · have shorter := (opened.inside s listed).1.length_le
        omega
      · rw [List.length_cons] at behind
        omega
  | @item t middle rest a bounds first times ih =>
    obtain ⟨openings, opened⟩ := ih
    obtain ⟨x, rfl, -⟩ := inert_optional inert_quantifier times
    have opened := opened.widen List.suffix_rfl (List.suffix_append x rest)
    refine ⟨openings, ?_⟩
    -- A quantifier puts a repetition around the item, which has no number.
    cases bounds with
    | none => exact opened
    | some bounds => exact opened.pass rfl
  | nil ends => exact ⟨[], .nil⟩
  | cons first later ih ih' =>
    obtain ⟨openings, opened⟩ := ih
    obtain ⟨openings', opened'⟩ := ih'
    rw [partsOfAll_singleton] at opened
    exact ⟨openings ++ openings', opened.append opened' first.suffix later.suffix⟩
  | last only ends ih =>
    obtain ⟨openings, opened⟩ := ih
    exact ⟨openings, opened.sequenceOf⟩
  | @more t middle rest as options first later ih ih' =>
    obtain ⟨openings, opened⟩ := ih
    obtain ⟨openings', opened'⟩ := ih'
    have bar : middle <:+ unit '|' :: middle := List.suffix_cons _ _
    have head := opened.sequenceOf.widen List.suffix_rfl bar
    rw [partsOfAll_singleton] at head
    exact ⟨openings ++ openings', head.append opened' (bar.trans first.suffix) later.suffix⟩

end Openings

end Grammar

namespace Pattern

open Grammar

/-- At this place of the text the parenthesis of the group opens: what stands there up to the
parenthesis that closes it is read as the group, but for the numbers. -/
def OpensAt (t : Text) (group : Pattern) (place : Nat) : Prop :=
  ∃ g rest tree, t.drop place = g ++ rest ∧ g.head? = some (unit '(') ∧ readTree g = .ok tree ∧
    tree.unnumbered = group.unnumbered

mutual

/-- Numbering keeps the parts in their order. -/
theorem parts_number : ∀ (pattern : Pattern) (s : Numbering),
    (pattern.number s).1.parts.map unnumbered = pattern.parts.map unnumbered
  | alt options, s =>
    congrArg₂ List.cons (unnumbered_number (alt options) s) (partsOfAll_numberAll options s)
  | seq items, s =>
    congrArg₂ List.cons (unnumbered_number (seq items) s) (partsOfAll_numberAll items s)
  | group none body, s =>
    congrArg₂ List.cons (unnumbered_number (group none body) s) (parts_number body s)
  | group (some capture) body, s =>
    congrArg₂ List.cons (unnumbered_number (group (some capture) body) s)
      (parts_number body (s.enter capture.name))
  | look body, s => congrArg₂ List.cons (unnumbered_number (look body) s) (parts_number body s)
  | repeated body least most, s =>
    congrArg₂ List.cons (unnumbered_number (repeated body least most) s) (parts_number body s)
  | char _, _ | set _ _, _ | anchor, _ | backref _, _ => rfl

theorem partsOfAll_numberAll : ∀ (items : List Pattern) (s : Numbering),
    (partsOfAll (numberAll items s).1).map unnumbered = (partsOfAll items).map unnumbered
  | [], _ => rfl
  | item :: items, s => by
    simp only [numberAll, partsOfAll, List.map_append, parts_number item,
      partsOfAll_numberAll items]

end

theorem isCapturing_unnumbered (part : Pattern) :
    part.unnumbered.isCapturing = part.isCapturing := by
  cases part with
  | group capture body => cases capture <;> rfl
  | _ => rfl

theorem capturing_number (pattern : Pattern) (s : Numbering) :
    (pattern.number s).1.capturing.map unnumbered = pattern.capturing.map unnumbered := by
  have kept (nodes : List Pattern) :
      (nodes.filter isCapturing).map unnumbered = (nodes.map unnumbered).filter isCapturing := by
    rw [List.filter_map]
    simp only [Function.comp_def, isCapturing_unnumbered]
  rw [capturing, capturing, kept, kept, parts_number]

/-- A group opens at the place where the rest of the text begins with it. -/
theorem opensAt_of_heads {t s : Text} {group numbered : Pattern} (heads : Heads group s)
    (behind : s <:+ t) (same : group.unnumbered = numbered.unnumbered) :
    OpensAt t numbered (t.length - s.length) := by
  obtain ⟨g, rest, text, begins, read⟩ := heads
  refine ⟨g, rest, group, ?_, begins, read, same⟩
  rw [← List.suffix_iff_eq_drop.1 behind, text]

/-- The groups of a pattern that is read are numbered by their opening parentheses: there are rising
places in the text where they open in this order. -/
theorem read_numbers {t : Text} {pattern : NumberedPattern} (read : Pattern.read t = .ok pattern) :
    IsNumbered pattern ∧ ∃ places : List Nat,
      places.Pairwise (· < ·) ∧ List.Forall₂ (OpensAt t) pattern.root.capturing places := by
  obtain ⟨root, tree, rfl⟩ := read_eq_ok.1 read
  obtain ⟨options, rfl, derives⟩ := readTree_iff_derives.1 tree
  obtain ⟨openings, opened⟩ := derives.opened
  have opened := opened.alternativesOf
  refine ⟨isNumbered_numbered _, openings.map fun s => t.length - s.length, ?_, ?_⟩
  · refine List.pairwise_map.2 (opened.order.imp_of_mem fun listed listed' shorter => ?_)
    have length := (opened.inside _ listed).1.length_le
    omega
  · -- The openings are those of the tree as it was read, whose groups differ from the numbered ones
    -- by the numbers alone.
    have same := capturing_number (alternativesOf options) .empty
    have behind (s : Text) (listed : s ∈ openings) : s <:+ t := (opened.inside s listed).1
    have each := (List.forall₂_and_left _ _).2 ⟨behind, opened.each.flip⟩
    have groups : List.Forall₂ (fun u s => ∃ group, s <:+ t ∧ Heads group s ∧ group.unnumbered = u)
        ((alternativesOf options).capturing.map unnumbered) openings :=
      List.forall₂_map_left_iff.2 (each.flip.imp fun group s ⟨suffix, heads⟩ =>
        ⟨group, suffix, heads, rfl⟩)
    rw [← same, List.forall₂_map_left_iff] at groups
    refine List.forall₂_map_right_iff.2 (groups.imp fun numbered s found => ?_)
    obtain ⟨group, suffix, heads, same⟩ := found
    exact opensAt_of_heads heads suffix same

/-- Groups in each other, in a lookaround, a repetition and options, with one name borne twice. -/
def nestedPattern : Text := "(?P<y>a(b)|(?:c))(?=(?<z>d)+)(?<y>)"

theorem read_numbers_nestedPattern : ∃ pattern, Pattern.read nestedPattern = .ok pattern ∧
    pattern.groupCount = 4 ∧ pattern.names = [(Text.ofString "y", 4), (Text.ofString "z", 3)] ∧
    pattern.root.capturing.map captureIndex = [some 1, some 2, some 3, some 4] ∧
    ∃ places : List Nat, places.Pairwise (· < ·) ∧
      List.Forall₂ (OpensAt nestedPattern) pattern.root.capturing places := by
  have counted : (Pattern.read nestedPattern).toOption.map
      (fun pattern => (pattern.groupCount, pattern.names)) =
        some (4, [(Text.ofString "y", 4), (Text.ofString "z", 3)]) := by decide +kernel
  obtain ⟨pattern, accepted, same⟩ := Option.map_eq_some_iff.1 counted
  obtain ⟨count, names⟩ := Prod.mk.inj same
  have read := eq_ok_of_toOption accepted
  obtain ⟨numbered, places⟩ := read_numbers read
  have indices := numbered.indices
  rw [count] at indices
  exact ⟨pattern, read, count, names, indices, places⟩

end Pattern

end Highlight
