import Highlight.Proofs.Dialect.GroupNumbers

/-!
# How the scan for top-level groups goes through a text

What the scan does with a text is put together from what it does with the parts of the text.
`Dialect.Passes` says of a text that the scan goes through it from one state to another and meets no
parenthesis that counts. `Dialect.Splits` says which groups it finds in a text whose parentheses
match: outside any group it adds them, and inside one the text just becomes a part of the group.
-/

namespace Highlight.Dialect

/-- What stands behind each opening parenthesis that is neither escaped nor inside a set. -/
def openingsFrom (scan : SetScan) : Text → List Text
  | [] => []
  | u :: r =>
    if u = unit '\\' then
      match r with
      | [] => []
      | _ :: r => openingsFrom scan.escaped r
    else if scan = .outside ∧ u = unit '(' then r :: openingsFrom scan r
    else openingsFrom (scan.next u) r

theorem groupsFrom_escape (depth : Nat) (taken : Text) (scan : SetScan) (v : CodeUnit) (r : Text) :
    groupsFrom depth taken scan (unit '\\' :: v :: r) =
      groupsFrom depth (v :: unit '\\' :: taken) scan.escaped r := by
  rw [groupsFrom, if_pos rfl]

theorem openingsFrom_escape (scan : SetScan) (v : CodeUnit) (r : Text) :
    openingsFrom scan (unit '\\' :: v :: r) = openingsFrom scan.escaped r := by
  rw [openingsFrom, if_pos rfl]

theorem openingsFrom_cons {scan : SetScan} {u : CodeUnit} {r : Text} (escape : u ≠ unit '\\') :
    openingsFrom scan (u :: r) =
      if scan = .outside ∧ u = unit '(' then r :: openingsFrom scan r
      else openingsFrom (scan.next u) r := by
  rw [openingsFrom.eq_def]
  exact if_neg escape

/-- The scan goes through the text from one state to another, and no parenthesis in it counts. -/
structure Passes (x : Text) (scan scan' : SetScan) : Prop where
  groups : ∀ depth taken r, groupsFrom depth taken scan (x ++ r) =
    groupsFrom depth (x.reverse ++ taken) scan' r
  openings : ∀ r, openingsFrom scan (x ++ r) = openingsFrom scan' r

section Passes

variable {x y : Text} {scan middle scan' : SetScan} {u v : CodeUnit}

theorem Passes.nil : Passes [] scan scan := ⟨fun _ _ _ => rfl, fun _ => rfl⟩

theorem Passes.append (first : Passes x scan middle) (second : Passes y middle scan') :
    Passes (x ++ y) scan scan' where
  groups depth taken r := by
    rw [List.append_assoc, first.groups, second.groups, List.reverse_append, List.append_assoc]
  openings r := by rw [List.append_assoc, first.openings, second.openings]

theorem Passes.escape (v : CodeUnit) : Passes [unit '\\', v] scan scan.escaped where
  groups depth taken r := groupsFrom_escape depth taken scan v r
  openings r := openingsFrom_escape scan v r

theorem Passes.plain (escape : u ≠ unit '\\')
    (other : scan = .outside → u ≠ unit '(' ∧ u ≠ unit ')') :
    Passes [u] scan (scan.next u) where
  groups depth taken r := by
    rw [List.singleton_append, groupsFrom_cons escape, if_neg fun ⟨out, opens⟩ => (other out).1 opens,
      if_neg fun ⟨out, closes, _⟩ => (other out).2 closes]
    rfl
  openings r := by
    rw [List.singleton_append, openingsFrom_cons escape,
      if_neg fun ⟨out, opens⟩ => (other out).1 opens]

end Passes

/-- Outside sets the unit means nothing to the scan. -/
def IsInert (u : CodeUnit) : Prop :=
  u ≠ unit '\\' ∧ u ≠ unit '[' ∧ u ≠ unit '(' ∧ u ≠ unit ')'

instance (u : CodeUnit) : Decidable (IsInert u) := inferInstanceAs (Decidable (_ ∧ _))

/-- Outside sets no unit of the text means anything to the scan. -/
def InertText (x : Text) : Prop := ∀ u ∈ x, IsInert u

instance (x : Text) : Decidable (InertText x) := List.decidableBAll IsInert x

theorem Passes.inert {x : Text} (inert : InertText x) : Passes x .outside .outside := by
  induction x with
  | nil => exact .nil
  | cons u x ih =>
    obtain ⟨escape, bracket, opens, closes⟩ := inert u List.mem_cons_self
    have first : Passes [u] .outside (SetScan.outside.next u) := .plain escape fun _ => ⟨opens, closes⟩
    have stays : SetScan.outside.next u = .outside := if_neg bracket
    rw [stays] at first
    exact first.append (ih fun v inside => inert v (List.mem_cons_of_mem u inside))

/-- Units and escapes as they stand inside a set. -/
inductive BracketText : Text → Prop
  | nil : BracketText []
  | plain {u : CodeUnit} {x : Text} (escape : u ≠ unit '\\') (closes : u ≠ unit ']')
    (rest : BracketText x) : BracketText (u :: x)
  | escape (v : CodeUnit) {x : Text} (rest : BracketText x) :
    BracketText (unit '\\' :: v :: x)

section BracketText

variable {x y : Text} {scan : SetScan}

theorem BracketText.append (first : BracketText x) (second : BracketText y) :
    BracketText (x ++ y) := by
  induction first with
  | nil => exact second
  | plain escape closes _ ih => exact .plain escape closes ih
  | escape v _ ih => exact .escape v ih

theorem BracketText.passes (inside : BracketText x) : Passes x .inside .inside := by
  induction inside with
  | nil => exact .nil
  | @plain u x escape closes _ ih =>
    have first : Passes [u] .inside (SetScan.inside.next u) := .plain escape nofun
    have stays : SetScan.inside.next u = .inside := if_neg closes
    rw [stays] at first
    exact first.append ih
  | escape v _ ih => exact (Passes.escape v).append ih

/-- At the beginning of a set the scan goes on as inside, unless a mark of negation follows. -/
theorem BracketText.passes_first (inside : BracketText x) (nonempty : x ≠ [])
    (begun : scan = .opened ∧ x.head? ≠ some (unit '^') ∨ scan = .negated) :
    Passes x scan .inside := by
  cases inside with
  | nil => exact absurd rfl nonempty
  | @plain u x escape closes rest =>
    have next : scan.next u = .inside := by
      obtain ⟨rfl, mark⟩ | rfl := begun
      · exact if_neg fun same => mark (congrArg some same)
      · rfl
    have first : Passes [u] scan (scan.next u) := .plain escape fun out => by
      obtain ⟨rfl, _⟩ | rfl := begun <;> cases out
    rw [next] at first
    exact first.append rest.passes
  | escape v rest =>
    have next : scan.escaped = .inside := by
      obtain ⟨rfl, _⟩ | rfl := begun <;> rfl
    have first : Passes [unit '\\', v] scan scan.escaped := .escape v
    rw [next] at first
    exact first.append rest.passes

end BracketText

/-- The text has matching parentheses, and the groups are those that it closes at its top level. -/
structure Splits (x : Text) (groups : List Text) : Prop where
  /-- Outside a group the scan finds the groups. -/
  top : ∀ r, groupsFrom 0 [] .outside (x ++ r) = groups ++ groupsFrom 0 [] .outside r
  /-- Inside a group the scan takes the text. -/
  inner : ∀ depth taken r, groupsFrom (depth + 1) taken .outside (x ++ r) =
    groupsFrom (depth + 1) (x.reverse ++ taken) .outside r
  /-- What opens behind the text opens also in the whole. -/
  openings : ∀ r, openingsFrom .outside r ⊆ openingsFrom .outside (x ++ r)

section Splits

variable {x y : Text} {groups groups' : List Text}

/-- Where no group is open it does not matter what was taken. -/
theorem groupsFrom_zero (taken taken' : Text) (scan : SetScan) (t : Text) :
    groupsFrom 0 taken scan t = groupsFrom 0 taken' scan t := by
  match t with
  | [] => rfl
  | u :: r =>
    by_cases escape : u = unit '\\'
    · subst escape
      cases r with
      | nil => rfl
      | cons v r =>
        rw [groupsFrom_escape, groupsFrom_escape]
        exact groupsFrom_zero _ _ _ r
    · rw [groupsFrom_cons escape, groupsFrom_cons escape,
        groupsFrom_zero (u :: taken) (u :: taken') (scan.next u) r]
      simp

theorem Passes.splits (passes : Passes x .outside .outside) : Splits x [] where
  top r := by
    rw [passes.groups]
    exact groupsFrom_zero _ _ _ _
  inner depth taken r := passes.groups _ _ _
  openings r := by rw [passes.openings]; exact List.Subset.refl _

theorem Splits.append (first : Splits x groups) (second : Splits y groups') :
    Splits (x ++ y) (groups ++ groups') where
  top r := by rw [List.append_assoc, first.top, second.top, List.append_assoc]
  inner depth taken r := by
    rw [List.append_assoc, first.inner, second.inner, List.reverse_append, List.append_assoc]
  openings r := by
    rw [List.append_assoc]
    exact List.Subset.trans (second.openings r) (first.openings (y ++ r))

theorem openingsFrom_open (t : Text) :
    openingsFrom .outside (unit '(' :: t) = t :: openingsFrom .outside t := by
  rw [openingsFrom_cons (by decide), if_pos ⟨rfl, rfl⟩]

/-- A text in parentheses is a group. -/
theorem Splits.group (inner : Splits x groups) :
    Splits (unit '(' :: x ++ [unit ')']) [unit '(' :: x ++ [unit ')']] where
  top r := by
    simp only [List.cons_append, List.append_assoc, List.nil_append]
    rw [groupsFrom_cons (by decide), if_pos ⟨rfl, rfl⟩, if_pos rfl, inner.inner,
      groupsFrom_cons (by decide), if_neg (by decide), if_pos ⟨rfl, rfl, Nat.one_ne_zero⟩, if_pos rfl]
    simp
  inner depth taken r := by
    simp only [List.cons_append, List.append_assoc, List.nil_append]
    rw [groupsFrom_cons (by decide), if_pos ⟨rfl, rfl⟩, if_neg (Nat.succ_ne_zero depth), inner.inner,
      groupsFrom_cons (by decide), if_neg (by decide), if_pos ⟨rfl, rfl, Nat.succ_ne_zero _⟩,
      if_neg (by omega)]
    simp
  openings r := by
    have closes : openingsFrom .outside (unit ')' :: r) = openingsFrom .outside r := by
      rw [openingsFrom_cons (by decide), if_neg (by decide)]
      rfl
    have later := inner.openings (unit ')' :: r)
    rw [closes] at later
    rw [List.append_assoc, List.singleton_append, List.cons_append, openingsFrom_open]
    exact List.Subset.trans later (List.subset_cons_self _ _)

/-- The groups of a text with matching parentheses are its top-level groups. -/
theorem Splits.topLevelGroups (splits : Splits x groups) : topLevelGroups x = groups := by
  have whole := splits.top []
  rw [List.append_nil] at whole
  rw [Dialect.topLevelGroups, whole]
  exact List.append_nil groups

end Splits

end Highlight.Dialect
