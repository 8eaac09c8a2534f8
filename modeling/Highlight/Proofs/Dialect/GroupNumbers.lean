import Highlight.Dialect
import Highlight.Regex.Name
import Highlight.Regex.Source

/-!
# The numbers of top-level groups

Tokens are bound to the top-level groups of a pattern by their order. An expression knows its groups
by number instead, and a number counts all opening parentheses that capture, at whatever depth.
`topLevelNumbers` gives the number of each top-level group, found by its place in the pattern; it
goes through the same groups as `topLevelGroups` (`map_placedGroups`), and each of them stands in
the pattern where it says (`placedGroups_stand`).
-/

namespace Highlight.Dialect

/-- The groups that a pattern closes at the top level, each behind the place of its parenthesis.
`place` units lie behind; the rest is as in the scan that gives the groups alone. -/
def placedGroupsFrom (place depth : Nat) (taken : Text) (scan : SetScan) : Text → List (Nat × Text)
  | [] => []
  | u :: r =>
    if u = unit '\\' then
      match r with
      | [] => []
      | v :: r => placedGroupsFrom (place + 2) depth (v :: u :: taken) scan.escaped r
    else if scan = .outside ∧ u = unit '(' then
      if depth = 0 then placedGroupsFrom (place + 1) 1 [u] scan r
      else placedGroupsFrom (place + 1) (depth + 1) (u :: taken) scan r
    else if scan = .outside ∧ u = unit ')' ∧ depth ≠ 0 then
      if depth = 1 then
        (place - taken.length, (u :: taken).reverse) :: placedGroupsFrom (place + 1) 0 [] scan r
      else placedGroupsFrom (place + 1) (depth - 1) (u :: taken) scan r
    else placedGroupsFrom (place + 1) depth (u :: taken) (scan.next u) r

/-- The outermost parenthesised parts, each behind the place where it opens. -/
def placedGroups (pattern : Text) : List (Nat × Text) := placedGroupsFrom 0 0 [] .outside pattern

/-- A source that opens with a group that captures. -/
def opensCapture (source : Text) : Bool :=
  match source with
  | [] => false
  | u :: r =>
    u = unit '(' &&
      match Regex.openingOf r with
      | .notCapturing => false
      | _ => true

/-- The numbers under which the top-level groups capture, in their order; none for a group that
does not. The groups that open before have the lower numbers. -/
def topLevelNumbers (pattern : Text) : List (Option Nat) :=
  (placedGroups pattern).map fun (place, group) =>
    if opensCapture (Regex.hostSource group) then
      some ((Regex.groupNames (Regex.hostSource (pattern.take place))).length + 1)
    else none

/-- Every top-level group captures, and its number is its place among the top-level groups: before
the last of them, no group lies in another. -/
def NumberedInOrder (pattern : Text) : Prop :=
  topLevelNumbers pattern = (List.range' 1 (topLevelGroups pattern).length).map some

instance (pattern : Text) : Decidable (NumberedInOrder pattern) :=
  inferInstanceAs (Decidable (_ = _))

theorem groupsFrom_cons {depth : Nat} {taken : Text} {scan : SetScan} {u : CodeUnit} {r : Text}
    (escape : u ≠ unit '\\') : groupsFrom depth taken scan (u :: r) =
      if scan = .outside ∧ u = unit '(' then
        if depth = 0 then groupsFrom 1 [u] scan r else groupsFrom (depth + 1) (u :: taken) scan r
      else if scan = .outside ∧ u = unit ')' ∧ depth ≠ 0 then
        if depth = 1 then (u :: taken).reverse :: groupsFrom 0 [] scan r
        else groupsFrom (depth - 1) (u :: taken) scan r
      else groupsFrom depth (u :: taken) (scan.next u) r := by
  rw [groupsFrom.eq_def]
  exact if_neg escape

theorem map_placedGroupsFrom (place depth : Nat) (taken : Text) (scan : SetScan) (t : Text) :
    (placedGroupsFrom place depth taken scan t).map Prod.snd = groupsFrom depth taken scan t := by
  fun_induction placedGroupsFrom place depth taken scan t with
  | case1 => rfl
  | case2 => rfl
  | case3 place depth taken scan v r ih => exact ih
  | case4 place taken scan u r escape opens ih =>
    rw [groupsFrom_cons escape, if_pos opens, if_pos rfl, ih]
  | case5 place depth taken scan u r escape opens inner ih =>
    rw [groupsFrom_cons escape, if_pos opens, if_neg inner, ih]
  | case6 place taken scan u r escape other closes ih =>
    rw [groupsFrom_cons escape, if_neg other, if_pos closes, if_pos rfl, List.map_cons, ih]
  | case7 place depth taken scan u r escape other closes inner ih =>
    rw [groupsFrom_cons escape, if_neg other, if_pos closes, if_neg inner, ih]
  | case8 place depth taken scan u r escape other goesOn ih =>
    rw [groupsFrom_cons escape, if_neg other, if_neg goesOn, ih]

/-- The placed groups are the top-level groups. -/
theorem map_placedGroups (pattern : Text) :
    (placedGroups pattern).map Prod.snd = topLevelGroups pattern :=
  map_placedGroupsFrom 0 0 [] .outside pattern

theorem length_topLevelNumbers (pattern : Text) :
    (topLevelNumbers pattern).length = (topLevelGroups pattern).length := by
  rw [← map_placedGroups, topLevelNumbers, List.length_map, List.length_map]

/-- A group within another counts, one that does not capture has no number. -/
example : topLevelNumbers "((a)b)?(?:c)([)]d)" = [some 1, none, some 3] := by decide +kernel

/-- What the scan has taken lies right before the rest, so a group that closes here opened as many
units before as were taken. -/
theorem placedGroupsFrom_stand (before : Text) {taken t : Text} {place depth : Nat} {scan : SetScan}
    (here : place = before.length + taken.length) :
    ∀ placed ∈ placedGroupsFrom place depth taken scan t,
      placed.2 <+: (before ++ taken.reverse ++ t).drop placed.1 := by
  fun_induction placedGroupsFrom place depth taken scan t generalizing before with
  | case1 => nofun
  | case2 => nofun
  | case3 place depth taken scan v r ih =>
    intro placed listed
    have stands := ih before (by rw [here]; rfl) placed listed
    simpa using stands
  | case4 place taken scan u r escape opens ih =>
    intro placed listed
    have here' : place + 1 = (before ++ taken.reverse).length + [u].length := by
      rw [here, List.length_append, List.length_reverse]
      rfl
    have stands := ih (before ++ taken.reverse) here' placed listed
    simpa using stands
  | case6 place taken scan u r escape other closes ih =>
    intro placed listed
    obtain rfl | listed := List.mem_cons.1 listed
    · rw [here, Nat.add_sub_cancel, List.append_assoc, List.drop_left]
      exact ⟨r, by simp⟩
    · have here' : place + 1 = (before ++ (u :: taken).reverse).length + ([] : Text).length := by
        rw [here, List.length_append, List.length_reverse]
        rfl
      have stands := ih (before ++ (u :: taken).reverse) here' placed listed
      simpa using stands
  | case5 place depth taken scan u r _ _ _ ih | case7 place depth taken scan u r _ _ _ _ ih
  | case8 place depth taken scan u r _ _ _ ih =>
    intro placed listed
    have stands := ih before (by rw [here]; rfl) placed listed
    simpa using stands

/-- A placed group stands in the pattern at its place. -/
theorem placedGroups_stand (pattern : Text) :
    ∀ placed ∈ placedGroups pattern, placed.2 <+: pattern.drop placed.1 :=
  placedGroupsFrom_stand [] rfl

end Highlight.Dialect
