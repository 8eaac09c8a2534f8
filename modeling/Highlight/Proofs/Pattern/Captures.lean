import Highlight.Proofs.Pattern.Context
import Highlight.Proofs.Pattern.Contract

/-!
# Capturing groups, told by what stands behind the parenthesis

The rule for the inside of a group has one alternative for each kind of group. Where the
parenthesis opens a plain or a named group, all but one of them fail, and what is left of the rule
is a name, if there is one, and the pattern (`Grammar.groupBody_captures`). In the same way one unit
tells a group from every other atom.
-/

namespace Highlight.Grammar

open Reader Dialect

/-- The name of a group, as it stands behind the parenthesis. -/
def groupName : Reader Text :=
  (do literal "?P<"; let name ← name; literal ">"; pure name)
  <|> (do literal "?<"; let name ← name; literal ">"; pure name)

/-- The text goes on as behind the parenthesis of a plain or a named capturing group. -/
def OpensCapture (t : Text) : Prop :=
  t.head? ≠ some (unit '?') ∨ (groupName.result t).isSome = true

instance (t : Text) : Decidable (OpensCapture t) := inferInstanceAs (Decidable (_ ∨ _))

/-- The inside of a capturing group. -/
def capture (inner : Reader Pattern) : Reader Pattern := do
  let name ← optional groupName
  let body ← inner
  pure (captured name body)

theorem inert_groupName : TakesInert groupName := by
  have named {text : Text} (inert : InertText text) :
      TakesInert (do literal text; let name ← name; literal ">"; pure name) :=
    inert_bind (inert_literal inert) fun _ => inert_bind inert_name fun _ =>
      inert_value (inert_literal (by decide))
  exact takes_orElse (named (by decide)) (named (by decide))

theorem stays_groupName : StaysBefore (unit ')') groupName := by
  have mark (text : Text) (avoids : unit ')' ∉ text) : StaysBefore (unit ')') (literal text) :=
    stays_literal avoids
  have named {text : Text} (avoids : unit ')' ∉ text) :
      StaysBefore (unit ')') (do literal text; let name ← name; literal ">"; pure name) :=
    stays_bind (mark text avoids) fun _ => stays_bind (stays_name (.inr (.inr rfl))) fun _ =>
      stays_value (mark _ (by decide))
  exact stays_orElse (named (by decide)) (named (by decide))

/-- Whether a capturing group opens is told by its own text. -/
theorem OpensCapture.carry {x r : Text} (opens : OpensCapture (x ++ unit ')' :: r)) (r' : Text) :
    OpensCapture (x ++ unit ')' :: r') := by
  refine opens.imp (fun plain => ?_) fun named => ?_
  · cases x <;> exact plain
  · obtain ⟨failed, _⟩ | ⟨name, y, _, read'⟩ := stays_groupName x r r'
    · rw [failed] at named
      cases named
    · rw [read']
      rfl

theorem literal_differs {u : CodeUnit} {t text : Text} (differs : t.head? ≠ some u)
    (begins : text.head? = some u) : (literal text).result t = none := by
  obtain ⟨text, rfl⟩ := List.head?_eq_some_iff.1 begins
  refine literal_eq_none.2 ?_
  rintro ⟨rest, rfl⟩
  exact differs rfl

/-- Neither of two texts goes on as the other. -/
theorem literal_beside {text front : Text} (beside : ¬ text <+: front ∧ ¬ front <+: text)
    (rest : Text) : (literal text).result (front ++ rest) = none :=
  literal_eq_none.2 fun begins =>
    (List.prefix_or_prefix_of_prefix begins (List.prefix_append front rest)).elim beside.1 beside.2

section Groups

variable {inner : Reader Pattern} {t : Text}

/-- Without a question mark only the last alternative for the inside of a group is left. -/
theorem groupBody_plain (plain : t.head? ≠ some (unit '?')) :
    (groupBody inner).result t = (capture inner).result t := by
  have fails {text : Text} (marked : text.head? = some (unit '?')) :
      (literal text).result t = none := literal_differs plain marked
  simp (disch := decide) only [groupBody, capture, Reader.optional, groupName, result_orElse,
    result_bind, fails, Option.bind_none, Option.none_or, Option.bind_some, result_pure]

/-- Flags do not begin with this unit. -/
theorem unflagged {members : UnitClass} {u : CodeUnit} (out : members.holds u = false) (rest : Text) :
    (atLeastOnce (oneOf members)).result (u :: rest) = none :=
  bind_of_fail (oneOf_fail out rest)

/-- Behind the name of a group only the alternative for that spelling is left, or the one for a
plain group where the pattern itself fails. -/
theorem groupBody_named {front rest y n : Text} (mark : front = "?P<" ∨ front = "?<")
    (named : name.result rest = some (n, ">" ++ y))
    (uniform : inner.result y = none → inner.result (front ++ rest) = none) :
    (groupBody inner).result (front ++ rest) =
      (do let body ← inner; pure (captured (some n) body)).result y := by
  have closes : (literal ">").result (">" ++ y) = some ((), y) := literal_append _ y
  have own : (literal front).result (front ++ rest) = some ((), rest) := literal_append front rest
  have fails {text : Text} (beside : ¬ text <+: front ∧ ¬ front <+: text) :
      (literal text).result (front ++ rest) = none := literal_beside beside rest
  have last : ((inner.result y).bind fun read => some (captured (some n) read.1, read.2)).or
        ((inner.result (front ++ rest)).bind fun read => some (captured none read.1, read.2)) =
      (inner.result y).bind fun read => some (captured (some n) read.1, read.2) := by
    cases read : inner.result y with
    | none => rw [uniform read]; rfl
    | some found => rfl
  -- one spelling differs from all other marks; the other one is the begin of two lookbehinds, which
  -- no name goes on as
  obtain rfl | rfl := mark
  · have flags : (literal "?").result ("?P<" ++ rest) = some ((), unit 'P' :: unit '<' :: rest) :=
      literal_append "?" _
    simp (disch := decide) only [groupBody, result_orElse, result_bind, result_pure, fails, own,
      flags, unflagged, named, closes, Option.bind_none, Option.none_or, Option.bind_some, last]
  · have flags : (literal "?").result ("?<" ++ rest) = some ((), unit '<' :: rest) :=
      literal_append "?" _
    obtain ⟨u, after, first, _⟩ := bind_eq_some.1 named
    obtain ⟨rfl, starts⟩ := oneOf_eq_some.1 first
    have look {v : CodeUnit} (out : UnitClass.nameStart.holds v = false) :
        (literal ("?<" ++ [v])).result ("?<" ++ u :: after) = none := by
      refine literal_eq_none.2 fun begins => ?_
      have same := (List.cons_prefix_cons.1 ((List.prefix_append_right_inj _).1 begins)).1
      exact UnitClass.ne_of_holds starts out same.symm
    have ahead : (literal "?<=").result ("?<" ++ u :: after) = none := look (by decide)
    have behind : (literal "?<!").result ("?<" ++ u :: after) = none := look (by decide)
    simp (disch := decide) only [groupBody, result_orElse, result_bind, result_pure, fails, own,
      ahead, behind, flags, unflagged, named, closes, Option.bind_none, Option.none_or,
      Option.bind_some, last]

/-- Of the alternatives for the inside of a group the one for a capturing group is left. -/
theorem groupBody_captures (opens : OpensCapture t)
    (uniform : ∀ y, inner.result y = none → inner.result t = none) :
    (groupBody inner).result t = (capture inner).result t := by
  refine opens.elim groupBody_plain fun named => ?_
  obtain ⟨⟨n, y⟩, named⟩ := Option.isSome_iff_exists.1 named
  have unnamed : (optional groupName).result t = some (some n, y) :=
    optional_of_read named
  rw [capture, result_bind, unnamed, Option.bind_some]
  have spelled (front : Text) (mark : front = "?P<" ∨ front = "?<")
      (read : (do literal front; let name ← name; literal ">"; pure name).result t = some (n, y)) :
      (groupBody inner).result t = (do let body ← inner; pure (captured (some n) body)).result y := by
    obtain ⟨_, begun, opened, further⟩ := bind_eq_some.1 read
    obtain ⟨_, behind, name_, further⟩ := bind_eq_some.1 further
    obtain ⟨_, _, closes, rfl, rfl⟩ := bind_eq_some.1 further
    obtain rfl := literal_eq_some.1 opened
    obtain rfl := literal_eq_some.1 closes
    exact groupBody_named mark name_ (uniform y)
  obtain read | ⟨_, read⟩ := orElse_eq_some.1 named
  · exact spelled "?P<" (.inl rfl) read
  · exact spelled "?<" (.inr rfl) read

/-- Only a pattern without any room for groups fails, and that one always does. -/
theorem pattern_fails {depth : Nat} {y : Text} (failed : (pattern depth).result y = none) (t : Text) :
    (pattern depth).result t = none := by
  cases depth with
  | zero => rfl
  | succ depth => cases failed

/-- A pattern takes nothing off a text that begins with a question mark. -/
theorem pattern_mark {depth : Nat} {t rest : Text} {a : Pattern}
    (read : (pattern depth).result (unit '?' :: t) = some (a, rest)) : rest = unit '?' :: t := by
  cases depth with
  | zero => cases read
  | succ depth =>
    have nothing : (pattern (depth + 1)).result (unit '?' :: t) = some (.seq [], unit '?' :: t) := rfl
    rw [nothing] at read
    cases read
    rfl

theorem group_captures {depth : Nat} {rest : Text} {a : Pattern} (opens : OpensCapture t) :
    (group (pattern depth)).result (unit '(' :: t) = some (a, rest) ↔
      (capture (pattern depth)).result t = some (a, unit ')' :: rest) := by
  have begins : (literal "(").result (unit '(' :: t) = some ((), t) := literal_append "(" t
  rw [group, result_bind, begins, Option.bind_some, bind_eq_some,
    groupBody_captures opens fun y failed => pattern_fails failed t]
  constructor
  · rintro ⟨body, middle, read, further⟩
    obtain ⟨_, _, closes, rfl, rfl⟩ := bind_eq_some.1 further
    obtain rfl := literal_eq_some.1 closes
    exact read
  · intro read
    exact ⟨a, _, read, bind_eq_some.2 ⟨(), rest, literal_append ")" rest, rfl⟩⟩

/-- The inside of a capturing group is a name, which the scan for groups passes, and a pattern. -/
theorem capture_eq_some {b rest : Text} {a : Pattern}
    (read : (capture inner).result (b ++ unit ')' :: rest) = some (a, unit ')' :: rest)) :
    ∃ front w name body, b = front ++ w ∧ InertText front ∧ a = captured name body ∧
      (∀ r, (optional groupName).result (b ++ unit ')' :: r) = some (name, w ++ unit ')' :: r)) ∧
      inner.result (w ++ unit ')' :: rest) = some (body, unit ')' :: rest) := by
  obtain ⟨name, middle, named, further⟩ := bind_eq_some.1 read
  obtain ⟨body, _, inside, rfl, rfl⟩ := bind_eq_some.1 further
  obtain ⟨w, rfl, carried⟩ := (stays_optional stays_groupName).carry named
  obtain ⟨front, parts, inert⟩ := inert_optional inert_groupName named
  rw [← List.append_assoc] at parts
  exact ⟨front, w, name, body, List.append_cancel_right parts, inert, rfl, carried, inside⟩

end Groups

section Atoms

variable (inner : Reader Pattern)

theorem atom_group {t : Text} (opens : t.head? = some (unit '(')) :
    (atom inner).result t = (group inner).result t := by
  obtain ⟨t, rfl⟩ := List.head?_eq_some_iff.1 opens
  have leaf : (bracketed <|> short).result (unit '(' :: t) = none := by rfl
  rw [atom_eq, result_orElse, leaf, Option.or_none]

theorem atom_leaf {t : Text} (other : t.head? ≠ some (unit '(')) :
    (atom inner).result t = (bracketed <|> short).result t := by
  rw [atom_eq, result_orElse, group, result_bind, literal_differs other (by decide),
    Option.bind_none, Option.none_or]

theorem quantified_nil : (quantified inner).result [] = none := by rfl

/-- A sequence ends where an alternative or a group does. -/
theorem quantified_stops {u : CodeUnit} (stops : u = unit '|' ∨ u = unit ')') (t : Text) :
    (quantified inner).result (u :: t) = none := by
  obtain rfl | rfl := stops <;> rfl

end Atoms

end Highlight.Grammar
