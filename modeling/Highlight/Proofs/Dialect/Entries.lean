import Highlight.Proofs.Pattern.Captures

/-!
# The top-level groups and the tree of a pattern

The scan for top-level groups and the grammar agree on patterns in which all groups capture. The
scan splits whatever a rule of the grammar takes into the texts of the outermost groups that are
read in it (`Matches.contract`). The text of such a group is read the same wherever it stands
(`portable`, by induction on the room for nested groups), so it is also read alone, and gives the
same group up to the numbers of the captures (`topLevelGroups_read`).
-/

namespace Highlight.Dialect

open Reader Grammar

/-- Every parenthesis that opens, neither escaped nor inside a set, opens a plain or a named
capturing group. -/
def OnlyCaptures (pattern : Text) : Prop := ∀ r ∈ openingsFrom .outside pattern, OpensCapture r

instance (pattern : Text) : Decidable (OnlyCaptures pattern) :=
  inferInstanceAs (Decidable (∀ r ∈ _, _))

section OnlyCaptures

variable {x r t : Text} {groups : List Text}

theorem OnlyCaptures.behind (only : OnlyCaptures (x ++ r)) (splits : Splits x groups) :
    OnlyCaptures r :=
  fun t opens => only t (splits.openings r opens)

theorem OnlyCaptures.opens (only : OnlyCaptures (unit '(' :: t)) :
    OpensCapture t ∧ OnlyCaptures t := by
  unfold OnlyCaptures at only
  rw [openingsFrom_open] at only
  exact List.forall_mem_cons.1 only

/-- What stands in parentheses, in front of the rest. -/
theorem OnlyCaptures.inside (only : OnlyCaptures (unit '(' :: x ++ [unit ')'] ++ r)) :
    OpensCapture (x ++ unit ')' :: r) ∧ OnlyCaptures (x ++ unit ')' :: r) := by
  rw [List.append_assoc] at only
  exact only.opens

end OnlyCaptures

/-- A capturing group in front of the rest: behind its parenthesis stands how it opens, with a name
if it has one, and then a pattern. -/
structure Captures (depth : Nat) (front w rest : Text) (name : Option Text) (body : Pattern) :
    Prop where
  inert : InertText front
  opens : OpensCapture (front ++ w ++ unit ')' :: rest)
  named : ∀ r, (optional groupName).result (front ++ w ++ unit ')' :: r) =
    some (name, w ++ unit ')' :: r)
  only : OnlyCaptures (w ++ unit ')' :: rest)
  inner : (pattern depth).result (w ++ unit ')' :: rest) = some (body, unit ')' :: rest)

theorem captures_of_group {depth : Nat} {g rest : Text} {node : Pattern}
    (only : OnlyCaptures (g ++ rest))
    (read : (group (pattern depth)).result (g ++ rest) = some (node, rest)) :
    ∃ front w name body, g = unit '(' :: (front ++ w) ++ [unit ')'] ∧
      node = captured name body ∧ Captures depth front w rest name body := by
  obtain ⟨x, parts, b, rfl, inside⟩ := takes_group (shaped_pattern depth) read
  obtain rfl := List.append_cancel_right parts
  obtain ⟨opens, within⟩ := only.inside
  rw [groupBody_captures opens fun y failed => pattern_fails failed _] at inside
  obtain ⟨front, w, name, body, rfl, inert, rfl, named, inner⟩ := capture_eq_some inside
  rw [List.append_assoc] at within
  exact ⟨front, w, name, body, rfl, rfl, inert, opens, named,
    within.behind (Passes.inert inert).splits, inner⟩

/-- The node is read in the text of a group, wherever that stands. -/
def ReadsGroup (text : Text) (node : Pattern) : Prop := ∃ depth rest,
  OnlyCaptures (text ++ rest) ∧ (group (pattern depth)).result (text ++ rest) = some (node, rest)

/-- Where all groups capture, the scan splits the text into the outermost groups that are read
in it. -/
def Matches (x : Text) (patterns : List Pattern) (rest : Text) : Prop :=
  OnlyCaptures (x ++ rest) →
    ∃ groups, Splits x groups ∧ List.Forall₂ ReadsGroup groups (Pattern.outermostOfAll patterns)

theorem outermost_of_isLeaf {node : Pattern} (leaf : node.isLeaf = true) : node.outermost = [] := by
  cases node with
  | char | set | anchor | backref => rfl
  | _ => cases leaf

theorem Matches.contract : Contract Matches where
  append {x y as bs rest} left right only := by
    rw [List.append_assoc] at only
    obtain ⟨groups, splits, read⟩ := left only
    obtain ⟨groups', splits', read'⟩ := right (only.behind splits)
    rw [Pattern.outermostOfAll_append]
    exact ⟨groups ++ groups', splits.append splits', List.rel_append read read'⟩
  inert inert _ := ⟨[], (Passes.inert inert).splits, .nil⟩
  leaf {x a rest} leafText _ := by
    refine ⟨[], leafText.passes.splits, ?_⟩
    rw [Pattern.outermostOfAll, outermost_of_isLeaf leafText.leaf]
    exact .nil
  group {depth} ih := by
    intro t a rest read
    obtain ⟨x, rfl, _⟩ := takes_group (shaped_pattern depth) read
    refine ⟨x, rfl, fun only => ?_⟩
    obtain ⟨front, w, name, body, rfl, rfl, captures⟩ := captures_of_group only read
    obtain ⟨w', same, held⟩ := ih captures.inner
    obtain rfl := List.append_cancel_right same
    obtain ⟨groups, splits, _⟩ := held captures.only
    have inside : Splits (front ++ w) groups := (Passes.inert captures.inert).splits.append splits
    exact ⟨_, inside.group, .cons ⟨depth, rest, only, read⟩ .nil⟩
  repeated held := held
  seq held only := by
    obtain ⟨groups, splits, read⟩ := held only
    refine ⟨groups, splits, ?_⟩
    rwa [Pattern.outermostOfAll, Pattern.outermost, Pattern.outermostOfAll, List.append_nil]
  alt held only := by
    obtain ⟨groups, splits, read⟩ := held only
    refine ⟨groups, splits, ?_⟩
    rwa [Pattern.outermostOfAll, Pattern.outermost, Pattern.outermostOfAll, List.append_nil]

/-- A pattern in front of a closing parenthesis does not depend on what stands behind it, nor on the
room for nested groups where that is enough. -/
def Portable (depth : Nat) : Prop :=
  ∀ ⦃x r a r' depth'⦄, OnlyCaptures (x ++ unit ')' :: r) → x.count (unit '(') < depth' →
    (pattern depth).result (x ++ unit ')' :: r) = some (a, unit ')' :: r) →
    (pattern depth').result (x ++ unit ')' :: r') = some (a, unit ')' :: r')

/-- The text in front of a closing parenthesis has captures for groups, and room for them. -/
structure Room (depth : Nat) (r z : Text) : Prop where
  only : OnlyCaptures (z ++ unit ')' :: r)
  count_le : z.count (unit '(') ≤ depth

theorem Room.behind {depth : Nat} {r x z : Text} {groups : List Text}
    (room : Room depth r (x ++ z)) (splits : Splits x groups) : Room depth r z where
  only := by
    have only := room.only
    rw [List.append_assoc] at only
    exact only.behind splits
  count_le := by
    have := room.count_le
    rw [List.count_append] at this
    omega

theorem head?_append_cons {z r r' : Text} {u : CodeUnit} :
    (z ++ u :: r).head? = (z ++ u :: r').head? := by
  cases z <;> rfl

/-- A sequence that is followed by an alternative, or by nothing more, ends there. -/
theorem ends_of_next {depth : Nat} {r middle : Text} (next : middle = unit ')' :: r ∨
    ((barred (pattern depth)).result middle).isSome = true) :
    middle = unit ')' :: r ∨ middle.head? = some (unit '|') := by
  refine next.imp_right fun further => ?_
  obtain ⟨found, further⟩ := Option.isSome_iff_exists.1 further
  obtain ⟨behind, rfl, _⟩ := barred_eq_some.1 further
  rfl

section Carry

variable {depth depth' : Nat} (portable : Portable depth)

include portable

/-- A group does not depend on what stands behind it. -/
theorem group_carry {g r : Text} {a : Pattern} (only : OnlyCaptures (g ++ r))
    (enough : g.count (unit '(') ≤ depth') (r' : Text)
    (read : (group (pattern depth)).result (g ++ r) = some (a, r)) :
    (group (pattern depth')).result (g ++ r') = some (a, r') := by
  obtain ⟨front, w, name, body, rfl, rfl, captures⟩ := captures_of_group only read
  have fewer : w.count (unit '(') < depth' := by
    simp only [List.cons_append, List.count_append, List.count_cons_self] at enough
    omega
  have moved : (pattern depth').result (w ++ unit ')' :: r') = some (body, unit ')' :: r') :=
    portable captures.only fewer captures.inner
  have inside : (capture (pattern depth')).result (front ++ w ++ unit ')' :: r') =
      some (captured name body, unit ')' :: r') :=
    bind_eq_some.2 ⟨name, _, captures.named r', bind_eq_some.2 ⟨body, _, moved, rfl⟩⟩
  have whole := (group_captures (captures.opens.carry r')).2 inside
  rw [List.append_assoc]
  exact whole

theorem atom_carry {z r middle : Text} {a : Pattern} (room : Room depth' r z)
    (read : (atom (pattern depth)).result (z ++ unit ')' :: r) = some (a, middle))
    (long : r.length < middle.length) (r' : Text) : ∃ y, middle = y ++ unit ')' :: r ∧
      (atom (pattern depth')).result (z ++ unit ')' :: r') = some (a, y ++ unit ')' :: r') := by
  -- the first unit tells a group, which is moved whole, from the atoms that hold no pattern
  by_cases opens : (z ++ unit ')' :: r).head? = some (unit '(')
  · rw [atom_group _ opens] at read
    rw [head?_append_cons] at opens
    rw [atom_group _ opens]
    obtain ⟨x, parts, _⟩ := takes_group (shaped_pattern depth) read
    obtain ⟨y, rfl, rfl⟩ := split_before parts long
    have only := room.only
    have enough : x.count (unit '(') ≤ depth' := by
      have := room.count_le
      rw [List.count_append] at this
      omega
    rw [List.append_assoc] at read only ⊢
    exact ⟨y, rfl, group_carry portable only enough _ read⟩
  · rw [atom_leaf _ opens] at read
    rw [head?_append_cons] at opens
    rw [atom_leaf _ opens]
    exact leaf_carry (.inr rfl) read long r'

theorem quantified_carry {z r middle : Text} {a : Pattern} (room : Room depth' r z)
    (read : (quantified (pattern depth)).result (z ++ unit ')' :: r) = some (a, middle))
    (long : r.length < middle.length) (r' : Text) :
    ∃ y, middle = y ++ unit ')' :: r ∧ Room depth' r y ∧
      (quantified (pattern depth')).result (z ++ unit ')' :: r') = some (a, y ++ unit ')' :: r') := by
  obtain ⟨x, parts, matched⟩ := Matches.contract.quantified (Matches.contract.pattern depth) read
  obtain ⟨body, afterBody, first, further⟩ := bind_eq_some.1 read
  obtain ⟨bounds, _, second, rfl, rfl⟩ := bind_eq_some.1 further
  have longer : r.length < afterBody.length :=
    Nat.lt_of_lt_of_le long ((inert_optional inert_quantifier).length_le second)
  obtain ⟨w, rfl, first'⟩ := atom_carry portable room first longer r'
  obtain ⟨y, rfl, second'⟩ := (stays_optional (stays_quantifier (.inr (.inr rfl)))).carry second
  have only := room.only
  rw [parts] at only
  obtain ⟨groups, splits, _⟩ := matched only
  rw [← List.append_assoc] at parts
  obtain rfl := List.append_cancel_right parts
  exact ⟨y, rfl, room.behind splits, bind_eq_some.2 ⟨body, _, first', bind_eq_some.2
    ⟨bounds, _, second' r', rfl⟩⟩⟩

theorem sequence_carry {z r middle : Text} {a : Pattern} (room : Room depth' r z)
    (read : (sequence (pattern depth)).result (z ++ unit ')' :: r) = some (a, middle))
    (long : r.length < middle.length)
    (ends : middle = unit ')' :: r ∨ middle.head? = some (unit '|')) (r' : Text) :
    ∃ y, middle = y ++ unit ')' :: r ∧ Room depth' r y ∧
      (sequence (pattern depth')).result (z ++ unit ')' :: r') = some (a, y ++ unit ')' :: r') := by
  obtain ⟨x, parts, _⟩ := Matches.contract.sequence (Matches.contract.pattern depth) read
  obtain ⟨y, rfl, rfl⟩ := split_before parts long
  obtain ⟨items, _, reads, rfl, rfl⟩ := bind_eq_some.1 read
  -- the rounds end in both contexts, since no atom begins with a bar or a closing parenthesis
  have stop : (quantified (pattern depth')).result (y ++ unit ')' :: r') = none := by
    cases y with
    | nil => exact quantified_stops _ (.inr rfl) r'
    | cons u y =>
      have bar : u = unit '|' := by
        obtain same | begins := ends
        · exact absurd (congrArg List.length same) (by simp; omega)
        · exact Option.some.inj begins
      exact quantified_stops _ (.inl bar) _
  have advances (depth : Nat) := advances_quantified (shaped_pattern depth)
  obtain ⟨rounds', room'⟩ := Rounds.carry (advances depth)
    (fun room read long _ => quantified_carry portable room read long r') stop rfl room rfl
    ((many_eq_some (advances depth)).1 reads)
  have reads' := (many_eq_some (advances depth')).2 rounds'
  exact ⟨y, rfl, room', bind_eq_some.2 ⟨items, _, reads', rfl⟩⟩

theorem barred_carry {z r middle : Text} {a : Pattern} (room : Room depth' r z)
    (read : (barred (pattern depth)).result (z ++ unit ')' :: r) = some (a, middle))
    (long : r.length < middle.length)
    (ends : middle = unit ')' :: r ∨ middle.head? = some (unit '|')) (r' : Text) :
    ∃ y, middle = y ++ unit ')' :: r ∧ Room depth' r y ∧
      (barred (pattern depth')).result (z ++ unit ')' :: r') = some (a, y ++ unit ')' :: r') := by
  obtain ⟨behind, parts, further⟩ := barred_eq_some.1 read
  have longer : r.length < behind.length := Nat.lt_of_lt_of_le long
    ((Matches.contract.sequence (Matches.contract.pattern depth)).length_le further)
  obtain ⟨w, rfl, rfl⟩ := split_before parts longer
  have bar : Splits "|" [] := (Passes.inert (by decide)).splits
  obtain ⟨y, rfl, room', further'⟩ := sequence_carry portable (room.behind bar) further long ends r'
  exact ⟨y, rfl, room', barred_eq_some.2 ⟨w ++ unit ')' :: r', List.append_assoc _ _ _, further'⟩⟩

theorem alternatives_carry {z r : Text} {a : Pattern} (room : Room depth' r z)
    (read : (alternatives (pattern depth)).result (z ++ unit ')' :: r) = some (a, unit ')' :: r))
    (r' : Text) :
    (alternatives (pattern depth')).result (z ++ unit ')' :: r') = some (a, unit ')' :: r') := by
  obtain ⟨head, middle, options, first, second, rfl⟩ := alternatives_eq_some.1 read
  have advances (depth : Nat) := advances_barred (shaped_pattern depth)
  have rounds := (many_eq_some (advances depth)).1 second
  have long : r.length < middle.length := rounds.length_le (advances depth)
  have next : middle = unit ')' :: r ∨ ((barred (pattern depth)).result middle).isSome = true := by
    cases rounds with
    | stop => exact .inl rfl
    | more read' _ =>
      rw [read']
      exact .inr rfl
  obtain ⟨y, rfl, room', first'⟩ :=
    sequence_carry portable room first long (ends_of_next next) r'
  have stop : (barred (pattern depth')).result ([] ++ unit ')' :: r') = none := by rfl
  obtain ⟨rounds', _⟩ := Rounds.carry (advances depth)
    (fun room read long next => barred_carry portable room read long (ends_of_next next) r')
    stop rfl room' rfl rounds
  have second' := (many_eq_some (advances depth')).2 rounds'
  exact alternatives_eq_some.2 ⟨head, _, options, first', second', rfl⟩

end Carry

/-- Every pattern is portable. A group uses up one step of the depth and one parenthesis of the
room, so the induction on the depth goes through with any room that is enough. -/
theorem portable (depth : Nat) : Portable depth := by
  induction depth with
  | zero => exact fun _ _ _ _ _ _ _ read => nomatch read
  | succ depth ih =>
    intro x r a r' depth' only enough read
    cases depth' with
    | zero => exact absurd enough (Nat.not_lt_zero _)
    | succ depth' => exact alternatives_carry ih ⟨only, Nat.le_of_lt_succ enough⟩ read r'

/-- A group alone is a pattern. -/
theorem pattern_of_group {depth : Nat} {g : Text} {node : Pattern}
    (read : (group (pattern depth)).result g = some (node, [])) :
    (pattern (depth + 1)).result g = some (node, []) := by
  have atom : (atom (pattern depth)).result g = some (node, []) := orElse_of_read read
  have quantified : (quantified (pattern depth)).result g = some (node, []) :=
    bind_of_read atom rfl
  have rounds : Rounds (Grammar.quantified (pattern depth)) g [node] [] :=
    .more quantified (.stop (quantified_nil _))
  have items := (many_eq_some (advances_quantified (shaped_pattern depth))).2 rounds
  have sequence : (sequence (pattern depth)).result g = some (node, []) :=
    bind_of_read items rfl
  exact bind_of_read sequence rfl

theorem ReadsGroup.readTree {g : Text} {node : Pattern} (reads : ReadsGroup g node) :
    Pattern.readTree g = .ok node := by
  obtain ⟨depth, rest, only, read⟩ := reads
  have alone := group_carry (portable depth) only (Nat.le_refl _) [] read
  rw [List.append_nil] at alone
  exact Pattern.readTree_eq_ok.2 (pattern_of_group alone)

/-- Of a pattern in which all groups capture, the top-level groups are the texts of the outermost
groups of the tree, in order; each is a pattern by itself, and its tree is the group up to the
numbers of the captures. -/
theorem topLevelGroups_read {source : Text} {tree : NumberedPattern}
    (accepted : Pattern.read source = .ok tree) (only : OnlyCaptures source) :
    List.Forall₂ (fun entry node => ∃ alone, Pattern.read entry = .ok alone ∧
        alone.root.unnumbered = node.unnumbered)
      (topLevelGroups source) tree.root.outermost := by
  obtain ⟨root, read, rfl⟩ := Pattern.read_eq_ok.1 accepted
  obtain ⟨x, parts, matched⟩ := Matches.contract.pattern _ (Pattern.readTree_eq_ok.1 read)
  rw [List.append_nil] at parts
  subst parts
  obtain ⟨groups, splits, met⟩ := matched (by rwa [List.append_nil])
  rw [Pattern.outermostOfAll, Pattern.outermostOfAll, List.append_nil] at met
  rw [splits.topLevelGroups]
  -- without numbers a group is the same in its own tree and in the tree of the whole
  have plain : List.Forall₂ (fun entry node => ∃ alone, Pattern.read entry = .ok alone ∧
      alone.root.unnumbered = node) groups (root.outermost.map Pattern.unnumbered) := by
    refine List.forall₂_map_right_iff.2 (met.imp fun entry node reads => ?_)
    exact ⟨node.numbered, Pattern.read_eq_ok.2 ⟨node, reads.readTree, rfl⟩,
      Pattern.unnumbered_number node .empty⟩
  rw [← Pattern.outermost_number root .empty] at plain
  exact List.forall₂_map_right_iff.1 plain

/-- A set that begins with its closing bracket and holds parentheses, a group in a group, a name,
an escaped parenthesis, alternatives and quantifiers. -/
def mixedPattern : Text := "(a[]()](b))|(?P<n>\\))*c(d\x7b2\x7d)"

theorem topLevelGroups_read_mixedPattern : ∃ tree, Pattern.read mixedPattern = .ok tree ∧
    OnlyCaptures mixedPattern ∧
    topLevelGroups mixedPattern = ["(a[]()](b))", "(?P<n>\\))", "(d\x7b2\x7d)"] ∧
    List.Forall₂ (fun entry node => ∃ alone, Pattern.read entry = .ok alone ∧
        alone.root.unnumbered = node.unnumbered)
      (topLevelGroups mixedPattern) tree.root.outermost := by
  have accepted : (Pattern.read mixedPattern).toOption.isSome = true := by decide +kernel
  obtain ⟨tree, read⟩ := Option.isSome_iff_exists.1 accepted
  have only : OnlyCaptures mixedPattern := by decide +kernel
  exact ⟨tree, eq_ok_of_toOption read, only, by decide +kernel,
    topLevelGroups_read (eq_ok_of_toOption read) only⟩

end Highlight.Dialect
