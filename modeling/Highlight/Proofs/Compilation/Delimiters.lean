import Highlight.Proofs.Dialect.Opening
import Highlight.Proofs.Pattern.Denotation
import Highlight.Proofs.Pattern.Renumbered
import Highlight.Proofs.Pattern.Seams

/-!
# Delimiters of several rules

The delimiter of several rules is one pattern with their patterns as alternative groups. It is a
pattern wherever they are (`read_alternatives`). Its expansions are those of the patterns one behind
the other, as long as every reference in it still refers to the group that it refers to in the
pattern alone (`delimiterOf_expansions`); the groups around the patterns change the numbers, and a
name may stand in several patterns.
-/

namespace Highlight.Region

open Reader Grammar

section Reading

variable {p rest : Text} {root : Pattern}

/-- A pattern in a group, in front of an end of an option. -/
theorem derives_group (read : Pattern.readTree p = .ok root) (ends : HeadIn sequenceEnds rest) :
    Derives .sequence ((unit '(' :: p) ++ unit ')' :: rest) [captured none root] rest := by
  have single : (Reader.optional quantifier).result rest = some (none, rest) :=
    optional_of_fail (Rereads.quantifier_eq_none (ends.mono (by decide)))
  exact .cons (.item (.enclosed .plain read rest) single) (.nil ends)

theorem derives_alternatives {ps : List Text} {roots : List Pattern} (filled : ps ≠ [])
    (reads : List.Forall₂ (fun p root => Pattern.readTree p = .ok root) ps roots) :
    Derives .options (alternatives ps) (roots.map (captured none)) [] := by
  induction reads with
  | nil => exact absurd rfl filled
  | @cons p root ps roots read reads ih =>
    cases reads with
    | nil =>
      rw [alternatives_singleton]
      exact .last (derives_group read headIn_nil) headIn_nil
    | cons second others =>
      rw [alternatives_cons]
      exact .more (derives_group read (headIn_cons (by decide))) (ih (List.cons_ne_nil _ _))

end Reading

/-! ## Numbers and expansions -/

/-- Where the patterns stand as groups behind `base` other ones and the names are those of the whole,
every reference in one of the patterns refers to the same group as in the pattern alone. -/
def KeepsReferences (names : Table Text Nat) : Nat → List NumberedPattern → Prop
  | _, [] => True
  | base, tree :: trees =>
    (∀ target, .backref target ∈ tree.root.parts →
      target.Follows (base + 1) tree.groupCount tree.names names) ∧
    KeepsReferences names (base + 1 + tree.groupCount) trees

section Expansions

variable {names : Table Text Nat} {s : Numbering}

/-- In a group a pattern is numbered behind the group. -/
theorem number_captured (root : Pattern) (s : Numbering) : ∃ s',
    (captured none root).number s =
      (.group (some ⟨s.count + 1, none⟩) (root.numbered.root.raised (s.count + 1)), s') ∧
    s'.count = s.count + 1 + root.numbered.groupCount := by
  obtain ⟨tree, counts⟩ := Pattern.number_raised root
    (show (s.enter none).count = (s.count + 1) + Numbering.empty.count from rfl)
  refine ⟨_, ?_, counts⟩
  simp only [captured, Pattern.number, tree]
  rfl

/-- A pattern that keeps its references has the same expansions behind other groups. -/
theorem expansions_moved {base : Nat} (root : Pattern)
    (keeps : ∀ target, .backref target ∈ root.numbered.root.parts →
      target.Follows base root.numbered.groupCount root.numbered.names names) (limit : Nat) :
    ((root.numbered.root.raised base).expansions limit names []).map (·.text) =
      (root.numbered.expansions limit).map (·.text) := by
  have own : ∀ i ∈ root.numbered.root.indices, 1 ≤ i ∧ i ≤ root.numbered.groupCount :=
    (Pattern.indices_number root .empty).2
  have carried : Pattern.Carried base root.numbered.groupCount (root.numbered.expansions limit)
      ((root.numbered.root.raised base).expansions limit names []) :=
    Pattern.expansions_raised root.numbered.root ⟨own, keeps⟩ [] nofun
  rw [carried.raised, List.map_map]
  rfl

theorem expansions_options (roots : List Pattern)
    (keeps : KeepsReferences names s.count (roots.map Pattern.numbered)) (limit : Nat) :
    (Pattern.altExpansions limit names (Pattern.numberAll (roots.map (captured none)) s).1 []).map
        (·.text) =
      (roots.map Pattern.numbered).flatMap fun tree => (tree.expansions limit).map (·.text) := by
  induction roots generalizing s with
  | nil => rfl
  | cons root roots ih =>
    obtain ⟨here, later⟩ := keeps
    obtain ⟨s', group, counts⟩ := number_captured root s
    rw [← counts] at later
    have texts := expansions_moved root here limit
    simp only [List.map_cons, List.flatMap_cons, Pattern.numberAll, group, Pattern.altExpansions,
      Pattern.expansions, List.map_append, List.map_map, ih later]
    rw [← texts]
    rfl

end Expansions

theorem exists_roots {ps : List Text} {trees : List NumberedPattern}
    (accepted : List.Forall₂ (fun p tree => Pattern.read p = .ok tree) ps trees) :
    ∃ roots, List.Forall₂ (fun p root => Pattern.readTree p = .ok root) ps roots ∧
      trees = roots.map Pattern.numbered := by
  induction accepted with
  | nil => exact ⟨[], .nil, rfl⟩
  | cons first _ ih =>
    obtain ⟨root, read, rfl⟩ := Pattern.read_eq_ok.1 first
    obtain ⟨roots, reads, rfl⟩ := ih
    exact ⟨root :: roots, .cons read reads, rfl⟩

theorem delimiter_several {patterns ps : List Text}
    (converted : patterns.mapM Dialect.convert = .ok ps) (several : 2 ≤ ps.length) :
    delimiter patterns = .ok (alternatives ps) := by
  unfold delimiter
  rw [converted]
  match ps with
  | first :: second :: rest => rfl

/-- The delimiter of several rules, whose converted patterns are all accepted, is a pattern as well.
If all references keep their groups, it has the expansions of the patterns one behind the other, in
the order of the rules and under every limit, and a search that may go on for long enough finds just
them. -/
theorem delimiterOf_expansions {rules : List Rule} {ps : List Text} {trees : List NumberedPattern}
    (converted : (rules.filterMap Rule.pattern?).mapM Dialect.convert = .ok ps)
    (several : 2 ≤ ps.length)
    (accepted : List.Forall₂ (fun p tree => Pattern.read p = .ok tree) ps trees) :
    ∃ joined, delimiterOf rules = .ok (alternatives ps) ∧
      Pattern.read (alternatives ps) = .ok joined ∧
      (KeepsReferences joined.names 0 trees → ∀ limit,
        (joined.expansions limit).map (·.text) =
          trees.flatMap (fun tree => (tree.expansions limit).map (·.text)) ∧
        (limit < lengthBound → ∃ candidates steps,
          joined.samples? ⟨candidates, limit, true, steps⟩ =
            some (trees.flatMap fun tree => (tree.expansions limit).map (·.text)))) := by
  obtain ⟨roots, reads, rfl⟩ := exists_roots accepted
  have filled : ps ≠ [] := by
    rintro rfl
    cases several
  have read := Pattern.readTree_iff_derives.2 ⟨_, rfl, derives_alternatives filled reads⟩
  refine ⟨_, delimiter_several converted several, Pattern.read_eq_ok.2 ⟨_, read, rfl⟩, ?_⟩
  intro keeps limit
  have texts : ((alternativesOf (roots.map (captured none))).numbered.expansions limit).map (·.text) =
      (roots.map Pattern.numbered).flatMap fun tree => (tree.expansions limit).map (·.text) := by
    rw [reads.length_eq] at several
    match roots with
    | first :: second :: roots => exact expansions_options (first :: second :: roots) keeps limit
  exact ⟨texts, fun short => ⟨_, _, texts ▸ NumberedPattern.samples?_eq_all short⟩⟩

/-- Rules that enter a region: a reference by name stays in its pattern. -/
def quotedRules : List Rule := [
  .push "^\x7b+" (.literal "Token.A"), .push "(?P<q>x|y)b?(?P=q)" (.literal "Token.A")]

theorem delimiterOf_expansions_quotedRules : ∃ joined,
    delimiterOf quotedRules = .ok "(\x7b+)|((?P<q>x|y)b?(?P=q))" ∧
    Pattern.read "(\x7b+)|((?P<q>x|y)b?(?P=q))" = .ok joined ∧
    (joined.expansions 2).map (·.text) =
      (["\x7b", "\x7b\x7b", "xx", "xbx", "yy", "yby"] : List Text) := by
  let either : Pattern := .alt [.char 120, .char 121]
  let first : NumberedPattern := ⟨.repeated (.char 123) 1 none, 0, []⟩
  let second : NumberedPattern := ⟨.seq [.group (some ⟨1, some "q"⟩) either,
    .repeated (.char 98) 0 (some 1), .backref (.name "q")], 1, [(Text.ofString "q", 1)]⟩
  have converted : (quotedRules.filterMap Rule.pattern?).mapM Dialect.convert =
      .ok ["\x7b+", "(?P<q>x|y)b?(?P=q)"] := by rfl
  have accepted : List.Forall₂ (fun p tree => Pattern.read p = .ok tree)
      ["\x7b+", "(?P<q>x|y)b?(?P=q)"] [first, second] := .cons rfl (.cons rfl .nil)
  obtain ⟨joined, delimiter, read, means⟩ :=
    delimiterOf_expansions converted (Nat.le_refl 2) accepted
  have names : joined.names = [(Text.ofString "q", 3)] := by
    have names : (Pattern.read "(\x7b+)|((?P<q>x|y)b?(?P=q))").map (·.names) =
      .ok [(Text.ofString "q", 3)] := by rfl
    have joinedNames := congrArg (Except.map (·.names)) read
    exact Except.ok.inj (joinedNames.symm.trans names)
  have keeps : KeepsReferences joined.names 0 [first, second] := by
    rw [names]
    refine ⟨fun target inside => ?_, fun target inside => ?_, trivial⟩
    · simp [first, Pattern.parts] at inside
    · simp [second, either, Pattern.parts, Pattern.partsOfAll] at inside
      subst inside
      intro k least most
      obtain rfl : k = 1 := Nat.le_antisymm most least
      exact iff_of_true rfl rfl
  exact ⟨joined, delimiter, read, (means keeps 2).1.trans (by decide +kernel)⟩

/-- A number refers to another group behind the groups around the patterns. -/
theorem delimiterOf_changes_reference : ∃ first second joined,
    Pattern.read "(a)\\1" = .ok first ∧ Pattern.read "b" = .ok second ∧
    delimiterOf [.push "(a)\\1" (.literal "Token.A"), .push "b" (.literal "Token.A")] =
      .ok "((a)\\1)|(b)" ∧
    Pattern.read "((a)\\1)|(b)" = .ok joined ∧
    (joined.expansions 1).map (·.text) = [[97], [98]] ∧
    [first, second].flatMap (fun tree => (tree.expansions 1).map (·.text)) = [[97, 97], [98]] := by
  exact ⟨_, _, _, rfl, rfl, rfl, rfl, rfl, rfl⟩

end Highlight.Region
