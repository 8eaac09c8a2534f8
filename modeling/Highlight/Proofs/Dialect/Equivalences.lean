import Highlight.Proofs.Pattern.Swapped
import Highlight.Proofs.Text.Replacing

/-!
# Idioms that are replaced by equivalent patterns

Three idioms are written with groups that capture and are to mean the same as before. They do
(`replaceIn_equivalent`) where each occurrence in the pattern is a group of its own: its parenthesis
opens a group, and no braces follow that were units of the pattern behind the old quantifier and
would be one behind the new text. In a set, or behind a backslash that escapes the parenthesis, the
same text is something else, and so is what is written for it.
-/

namespace Highlight

namespace Dialect

open Reader Grammar Pattern

/-- The idioms whose replacement is to mean the same. -/
def equivalences : List Text :=
  ["optional-ellipsis", "generic-identifier", "generic-identifier-or-star"]

/-- Where the idiom ends with a quantifier, no braces follow that would be the next one. -/
def Idiom.Separate (idiom : Idiom) (after : Text) : Prop :=
  idiom.source.getLast? = some (unit '?') → after.head? = some (unit '\x7b') →
    (quantifier.result after).isNone = true

instance (idiom : Idiom) (after : Text) : Decidable (idiom.Separate after) :=
  inferInstanceAs (Decidable (_ → _ → _))

/-- Each occurrence of the idiom in the pattern is a group, and separate from what follows. -/
def Idiom.Stands (idiom : Idiom) (pattern : Text) : Prop :=
  ∀ before after, pattern = before ++ idiom.source ++ after →
    (Ground.run .code before).opensGroup = true ∧ idiom.Separate after

/-- The occurrences are told by their offsets. -/
theorem Idiom.stands_iff {idiom : Idiom} {pattern : Text} : idiom.Stands pattern ↔
    ∀ i < pattern.length + 1, idiom.source.isPrefixOf (pattern.drop i) = true →
      (Ground.run .code (pattern.take i)).opensGroup = true ∧
        idiom.Separate (pattern.drop (i + idiom.source.length)) := by
  constructor
  · intro stands i _ begins
    obtain ⟨after, parts⟩ := List.isPrefixOf_iff_prefix.1 begins
    have behind : pattern.drop (i + idiom.source.length) = after := by
      rw [← List.drop_drop, ← parts, List.drop_left]
    rw [behind]
    refine stands _ _ ?_
    rw [List.append_assoc, parts, List.take_append_drop]
  · rintro offsets before after rfl
    have found := offsets before.length (by simp only [List.length_append]; omega) <| by
      rw [List.append_assoc, List.drop_left, List.isPrefixOf_iff_prefix]
      exact List.prefix_append _ _
    rwa [← List.length_append, List.drop_left, List.append_assoc, List.take_left] at found

instance (idiom : Idiom) (pattern : Text) : Decidable (idiom.Stands pattern) :=
  decidable_of_iff _ Idiom.stands_iff.symm

/-- Replacing the idiom, told behind the parenthesis. -/
def Idiom.swap (idiom : Idiom) : Swap := ⟨idiom.source.tail, idiom.target.tail, idiom.Separate⟩

section Generic

/-- The first unit of an identifier and the others. -/
def identifier : List Pattern := [
  .set false [.range (unit '$') (unit '$'), .range (unit 'a') (unit 'z'),
    .range (unit 'A') (unit 'Z'), .range (unit '_') (unit '_')],
  .repeated (.set false [.named .word]) 0 none]

/-- A dot and a word in angle brackets. -/
def argument : List Pattern :=
  [.char (unit '.'), .char (unit '<'), .repeated (.set false [.named .word]) 1 none,
    .char (unit '>')]

/-- An identifier and perhaps an argument, in a group that does not capture. -/
def generic : Pattern := .seq (identifier ++ [.repeated (.group none (.seq argument)) 0 (some 1)])

/-- The same as two alternatives. -/
def genericOptions : List Pattern := [.seq identifier, .seq (identifier ++ argument)]

/-- The identifier with its argument is one of the two alternatives. -/
theorem spells_generic (names : Table Text Nat) (bound : Bindings) (t : Text) (after : Bindings) :
    Spells names generic bound t after ↔ SpellsAny names genericOptions bound t after := by
  have options : SpellsAny names genericOptions bound t after ↔
      Spells names (.seq identifier) bound t after ∨
        Spells names (.seq (identifier ++ argument)) bound t after := by
    simp only [genericOptions, SpellsAny, or_false]
  rw [options]
  exact spells_optional_end rfl

theorem generic_interchangeable : Interchangeable generic (.alt genericOptions) where
  numbering _ := rfl
  indices _ := rfl
  spells names s := by
    show Spells names (.alt genericOptions) = Spells names generic
    funext bound t after
    rw [spells_generic, Spells]

/-- With one more alternative, the two take the place of the one. -/
theorem starred_interchangeable (u : CodeUnit) :
    Interchangeable (.alt [generic, .char u]) (.alt (genericOptions ++ [.char u])) where
  numbering _ := rfl
  indices _ := rfl
  spells names s := by
    show Spells names (.alt (genericOptions ++ [.char u])) = Spells names (.alt [generic, .char u])
    funext bound t after
    simp only [Spells, SpellsAny, spells_generic, genericOptions, List.cons_append, List.nil_append,
      or_false, or_assoc]

end Generic

section Ellipsis

/-- Three dots. -/
def dots : Pattern := .seq [.char (unit '.'), .char (unit '.'), .char (unit '.')]

/-- Nothing, or three dots. -/
def dotsOptions : Pattern := .alt [.seq [], dots]

variable {names : Table Text Nat} {bound after : Bindings} {t : Text} {n : Nat}

theorem spells_dots : Spells names dots bound t after ↔
    t = [unit '.', unit '.', unit '.'] ∧ after = bound := by
  simp [dots, Spells, SpellsAll, and_comm]

/-- The text of the group is empty or three dots, and the group has matched that text. -/
def SpellsEllipsis (n : Nat) (bound : Bindings) (t : Text) (after : Bindings) : Prop :=
  (t = [] ∨ t = [unit '.', unit '.', unit '.']) ∧ after = Function.update bound n t

theorem spells_dotsOptions :
    Spells names (.group (some ⟨n, none⟩) dotsOptions) bound t after ↔
      SpellsEllipsis n bound t after := by
  simp only [dotsOptions, Spells, SpellsAny, SpellsAll, spells_dots, or_false, SpellsEllipsis,
    ← or_and_right, and_assoc, exists_eq_left, exists_and_left]

theorem spells_optional_dots :
    Spells names (.repeated (.group (some ⟨n, none⟩) dots) 0 (some 1)) bound t after ↔
      SpellsEllipsis n bound t after := by
  have within : (Pattern.group (some ⟨n, none⟩) dots).indices = [n] := rfl
  rw [spells_optional, within, Bindings.forget_singleton]
  simp only [Spells, spells_dots, SpellsEllipsis, and_assoc, exists_and_left, exists_eq_left,
    Function.update_idem, or_and_right]
  refine or_congr_left (and_congr_right ?_)
  rintro rfl
  rfl

/-- A group that may be empty may as well be left out. -/
theorem spells_optional_dotsOptions :
    Spells names (.repeated (.group (some ⟨n, none⟩) dotsOptions) 0 (some 1)) bound t after ↔
      SpellsEllipsis n bound t after := by
  have within : (Pattern.group (some ⟨n, none⟩) dotsOptions).indices = [n] := rfl
  rw [spells_optional, within, Bindings.forget_singleton, spells_dotsOptions]
  simp only [SpellsEllipsis, Function.update_idem]
  refine ⟨?_, .inr⟩
  rintro (⟨rfl, rfl⟩ | spells)
  · exact ⟨.inl rfl, rfl⟩
  · exact spells

theorem dots_interchangeable :
    Interchangeable (.repeated (captured none dots) 0 (some 1)) (captured none dotsOptions) where
  numbering _ := rfl
  indices _ := rfl
  spells names s := by
    funext bound t after
    exact propext (spells_dotsOptions.trans spells_optional_dots.symm)

theorem lazy_dots_interchangeable :
    Interchangeable (.repeated (captured none dots) 0 (some 1))
      (.repeated (captured none dotsOptions) 0 (some 1)) where
  numbering _ := rfl
  indices _ := rfl
  spells names s := by
    funext bound t after
    exact propext (spells_optional_dotsOptions.trans spells_optional_dots.symm)

end Ellipsis

section Sound

/-- Writing a group for a group is sound if the two are interchangeable. -/
theorem sound_of_groups {swap : Swap} {a b : Pattern} (same : Interchangeable a b)
    (old : ∀ depth y, (unit '(' :: swap.old).count (unit '(') ≤ depth →
      (group (pattern depth)).result (unit '(' :: (swap.old ++ y)) = some (a, y))
    (new : ∀ depth y, (unit '(' :: swap.new).count (unit '(') ≤ depth →
      (group (pattern depth)).result (unit '(' :: (swap.new ++ y)) = some (b, y)) : swap.Sound := by
  intro depth depth' y y' rest c _ along room room' read _
  have first := (atom_group (pattern depth) rfl).trans (old depth y room)
  have first' := (atom_group (pattern depth') rfl).trans (new depth' y' room')
  exact Swap.quantified_of_atoms read first first' same along

theorem quantifier_eq_none {t : Text} (plain : Unquantified t)
    (brace : t.head? ≠ some (unit '\x7b')) : quantifier.result t = none := by
  have fails {β : Type} {text : Text} {u : CodeUnit} {f : Unit → Reader β}
      (begins : text.head? = some u) (other : t.head? ≠ some u) :
      (literal text >>= f).result t = none := bind_of_fail (literal_differs other begins)
  have marks {u : CodeUnit} (mark : u ∈ ("*+?" : Text)) : t.head? ≠ some u :=
    fun first => plain u first mark
  exact bind_of_fail <| orElse_of_fail (fails rfl (marks (by decide))) <|
    orElse_of_fail (fails rfl (marks (by decide))) <|
    orElse_of_fail (fails rfl (marks (by decide))) <| orElse_of_fail (fails rfl brace) <|
    orElse_of_fail (fails rfl brace) <| orElse_of_fail (fails rfl brace) (fails rfl brace)

/-- A question mark is a quantifier, and takes a second one with it. -/
theorem optional_quantifier {t : Text} (greedy : t.head? ≠ some (unit '?')) :
    (optional quantifier).result (unit '?' :: t) = some (some ⟨0, some 1⟩, t) := by
  have last : (optional (literal "?")).result t = some (none, t) :=
    optional_of_fail (literal_differs greedy rfl)
  have bounds : Grammar.bounds.result (unit '?' :: t) = some (⟨0, some 1⟩, t) := rfl
  exact optional_of_read (bind_of_read bounds (bind_of_read last rfl))

/-- The old text has a quantifier and the new one does not, but may take one from what follows. -/
theorem sound_ellipsis {fits : Text → Prop} (separate : ∀ {t}, fits t →
    t.head? = some (unit '\x7b') → quantifier.result t = none) :
    Swap.Sound ⟨"\\.\\.\\.)?", "|\\.\\.\\.)", fits⟩ := by
  intro depth depth' y y' rest c fit along room room' read live
  obtain ⟨depth, rfl⟩ := Nat.exists_eq_add_of_le' (show 1 ≤ depth from room)
  obtain ⟨depth', rfl⟩ := Nat.exists_eq_add_of_le' (show 1 ≤ depth' from room')
  have first : (atom (pattern (depth + 1))).result (unit '(' :: ("\\.\\.\\.)?" ++ y)) =
      some (captured none dots, unit '?' :: y) := rfl
  have first' : (atom (pattern (depth' + 1))).result (unit '(' :: ("|\\.\\.\\.)" ++ y')) =
      some (captured none dotsOptions, y') := rfl
  obtain ⟨_, _, read₁, further⟩ := bind_eq_some.1 read
  cases first.symm.trans read₁
  obtain ⟨bounds, _, second, rfl, rfl⟩ := bind_eq_some.1 further
  have heads := along.turns.head?_eq
  by_cases lazy_ : y.head? = some (unit '?')
  · obtain ⟨w, rfl⟩ := List.head?_eq_some_iff.1 lazy_
    obtain ⟨w', rfl, behind⟩ := along.split_bare (w := [unit '?']) (by decide)
    have both : (optional quantifier).result (unit '?' :: unit '?' :: w) =
        some (some ⟨0, some 1⟩, w) := rfl
    cases second.symm.trans both
    have greedy : w'.head? ≠ some (unit '?') := fun front =>
      live (unit '?') (behind.turns.head?_eq ▸ front) (by decide)
    exact ⟨_, w', bind_of_read first' (bind_of_read (optional_quantifier greedy) rfl),
      lazy_dots_interchangeable, behind⟩
  · rw [optional_quantifier lazy_] at second
    cases second
    have none_ : quantifier.result y' = none := by
      by_cases brace : y.head? = some (unit '\x7b')
      · obtain ⟨_, failed⟩ | ⟨_, _, _, _, read, _⟩ :=
          along.inert (stays_quantifier (.inr (.inl rfl))) inert_quantifier
        · exact failed
        · cases (separate fit brace).symm.trans read
      · refine quantifier_eq_none (fun u front => live u (heads ▸ front)) ?_
        rwa [heads]
    exact ⟨_, y', bind_of_read first' (bind_of_read (optional_of_fail none_) rfl),
      dots_interchangeable, along⟩

theorem sound_swap {idiom : Idiom} (known : idiom ∈ idioms) (named : idiom.name ∈ equivalences) :
    idiom.swap.Sound := by
  simp only [idioms, List.mem_cons, List.not_mem_nil, or_false] at known
  obtain rfl | rfl | rfl | rfl | rfl := known
  · exact absurd named (by decide)
  · exact sound_ellipsis fun fits brace => Option.isNone_iff_eq_none.1 (fits rfl brace)
  · exact absurd named (by decide)
  · refine sound_of_groups (.group (some ⟨0, none⟩) generic_interchangeable) ?_ ?_
    · intro depth y room
      obtain ⟨depth, rfl⟩ := Nat.exists_eq_add_of_le' (show 2 ≤ depth from room)
      rfl
    · intro depth y room
      obtain ⟨depth, rfl⟩ := Nat.exists_eq_add_of_le' (show 1 ≤ depth from room)
      rfl
  · refine sound_of_groups (.group (some ⟨0, none⟩) (starred_interchangeable (unit '*'))) ?_ ?_
    · intro depth y room
      obtain ⟨depth, rfl⟩ := Nat.exists_eq_add_of_le' (show 2 ≤ depth from room)
      rfl
    · intro depth y room
      obtain ⟨depth, rfl⟩ := Nat.exists_eq_add_of_le' (show 1 ≤ depth from room)
      rfl

end Sound

section Replaced

variable {idiom : Idiom} (known : idiom ∈ idioms) (named : idiom.name ∈ equivalences)

include known named

/-- The old text and the new one begin with a parenthesis, and the old one is a whole group. -/
theorem idiom_group : idiom.source = unit '(' :: idiom.swap.old ∧
    idiom.target = unit '(' :: idiom.swap.new ∧
    ∀ ground : Ground, ground.opensGroup = true → ground.run idiom.source = .code := by
  simp only [idioms, List.mem_cons, List.not_mem_nil, or_false] at known
  obtain rfl | rfl | rfl | rfl | rfl := known
  case inl => exact absurd named (by decide)
  case inr.inr.inl => exact absurd named (by decide)
  all_goals
    refine ⟨rfl, rfl, fun ground opens => ?_⟩
    cases ground with
    | code | paren | mark => rfl
    | _ => cases opens

/-- Replacing the idiom swaps groups. -/
theorem turns_replaceIn {pattern before x : Text} (parts : pattern = before ++ x)
    (stands : idiom.Stands pattern) :
    idiom.swap.Turns (Ground.run .code before) x (idiom.replaceIn x) := by
  obtain ⟨source, target, whole⟩ := idiom_group known named
  have nonempty : idiom.source ≠ [] := by
    rw [source]
    exact List.cons_ne_nil _ _
  revert before
  unfold Idiom.replaceIn
  refine Text.replace_induction nonempty idiom.target (motive := fun x y => ∀ {before},
    pattern = before ++ x → idiom.swap.Turns (Ground.run .code before) x y) (fun _ => .nil) ?_ ?_ x
  · intro r ih before parts
    rw [← List.append_assoc] at parts
    obtain ⟨opens, separate⟩ := stands before r parts
    have later := ih parts
    rw [Ground.run_append, whole _ opens] at later
    have spelled : idiom.source ++ r = unit '(' :: (idiom.swap.old ++ r) :=
      congrArg (· ++ r) source
    have written (y : Text) : idiom.target ++ y = unit '(' :: (idiom.swap.new ++ y) :=
      congrArg (· ++ y) target
    rw [written, spelled]
    exact .write opens separate later
  · intro u r _ ih before parts
    have parts : pattern = (before ++ [u]) ++ r := by rw [parts, List.append_assoc]; rfl
    have later := ih parts
    rw [Ground.run_append] at later
    exact .keep u later

/-- Where each occurrence of an idiom is a group and separate from what follows, replacing the idiom
gives a pattern again, and one that matches the same texts as a whole. -/
theorem replaceIn_equivalent {pattern : Text} {tree : NumberedPattern}
    (accepted : Pattern.read pattern = .ok tree) (stands : idiom.Stands pattern) :
    ∃ tree', Pattern.read (idiom.replaceIn pattern) = .ok tree' ∧
      ∀ t, tree'.Matches t ↔ tree.Matches t := by
  obtain ⟨root, read, rfl⟩ := Pattern.read_eq_ok.1 accepted
  have turns : idiom.swap.Turns .code pattern (idiom.replaceIn pattern) :=
    turns_replaceIn known named (List.nil_append pattern).symm stands
  obtain ⟨root', read', same⟩ := (sound_swap known named).readTree turns read
  exact ⟨root'.numbered, Pattern.read_eq_ok.2 ⟨root', read', rfl⟩,
    NumberedPattern.matches_of_interchangeable same⟩

end Replaced

/-- The idiom for an ellipsis. -/
def ellipsis : Idiom := ⟨"optional-ellipsis", "(\\.\\.\\.)?", "(|\\.\\.\\.)"⟩

/-- A set of the units of which the idiom is made. -/
def ellipsisSet : Text := "[(\\.\\.\\.)?]"

/-- In a set the units are replaced by others, and the question mark is none of them. -/
theorem replaceIn_ellipsisSet : ellipsis ∈ idioms ∧ ellipsis.name ∈ equivalences ∧
    ∃ tree tree', Pattern.read ellipsisSet = .ok tree ∧
      Pattern.read (ellipsis.replaceIn ellipsisSet) = .ok tree' ∧
      tree.Matches "?" ∧ ¬ tree'.Matches "?" := by
  refine ⟨List.mem_cons_of_mem _ List.mem_cons_self, by decide, _, _, rfl, rfl, ?_, ?_⟩
  · exact ⟨_, ⟨unit '?', iff_of_true rfl (by decide), rfl⟩, rfl⟩
  · rintro ⟨_, ⟨u, admitted, same⟩, _⟩
    obtain rfl := (List.cons.inj same).1
    exact absurd (admitted.1 rfl) (by decide)

/-- The idiom alone, lazy, quantified within a group, and twice on end, with a reference to it. -/
def ellipsesPattern : Text := "(\\.\\.\\.)?(a(\\.\\.\\.)??|(\\.\\.\\.)?(\\.\\.\\.)?\\1)\x7b2\x7d[(]"

theorem replaceIn_equivalent_ellipses : ∃ tree tree',
    Pattern.read ellipsesPattern = .ok tree ∧ ellipsis.Stands ellipsesPattern ∧
    Pattern.read (ellipsis.replaceIn ellipsesPattern) = .ok tree' ∧
    ∀ t, tree'.Matches t ↔ tree.Matches t := by
  have accepted : (Pattern.read ellipsesPattern).toOption.isSome = true := by decide +kernel
  obtain ⟨tree, read⟩ := Option.isSome_iff_exists.1 accepted
  have stands : ellipsis.Stands ellipsesPattern := by decide +kernel
  obtain ⟨tree', read', same⟩ := replaceIn_equivalent (List.mem_cons_of_mem _ List.mem_cons_self)
    (by decide : ellipsis.name ∈ equivalences) (eq_ok_of_toOption read) stands
  exact ⟨tree, tree', eq_ok_of_toOption read, stands, read', same⟩

end Dialect

end Highlight
