import Highlight.Proofs.Pattern.Captures
import Highlight.Proofs.Pattern.Ground

/-!
# Two texts that differ in groups

A `Swap` writes a group in place of another one, each given by what stands behind its parenthesis.
`Swap.Turns` relates a text to what it becomes if this is done at some parentheses that open groups.
A rule of the grammar that takes no parenthesis does not see the difference: on both texts it fails,
or reads the same and leaves texts that are related again (`Swap.Along.stays`). The two texts have
the same units up to the first parenthesis at which they differ, and such a rule never goes beyond
it.
-/

namespace Highlight

open Reader Grammar Dialect

/-- Groups and what is written in their place: what stands behind the parenthesis of either, and
what may follow the old one. -/
structure Swap where
  old : Text
  new : Text
  fits : Text → Prop

namespace Swap

/-- The second text is the first one with some groups swapped, which stands on this ground. -/
inductive Turns (swap : Swap) : Ground → Text → Text → Prop
  | nil {ground : Ground} : Turns swap ground [] []
  | keep {ground : Ground} (u : CodeUnit) {x x' : Text} (rest : Turns swap (ground.next u) x x') :
    Turns swap ground (u :: x) (u :: x')
  | write {ground : Ground} {x x' : Text} (opens : ground.opensGroup = true) (fits : swap.fits x)
    (rest : Turns swap .code x x') :
    Turns swap ground (unit '(' :: (swap.old ++ x)) (unit '(' :: (swap.new ++ x'))

section Turns

variable {swap : Swap} {ground : Ground} {w x x' rest : Text}

theorem Turns.head?_eq (turns : swap.Turns ground x x') : x'.head? = x.head? := by
  cases turns <;> rfl

/-- What opens no group is kept. -/
theorem Turns.split (flat : ∀ y z, w = y ++ unit '(' :: z → (ground.run y).opensGroup = false)
    (turns : swap.Turns ground (w ++ rest) x') :
    ∃ rest', x' = w ++ rest' ∧ swap.Turns (ground.run w) rest rest' := by
  induction w generalizing ground x' with
  | nil => exact ⟨x', rfl, turns⟩
  | cons u w ih =>
    have later : ∀ y z, w = y ++ unit '(' :: z → ((ground.next u).run y).opensGroup = false := by
      intro y z parts
      exact flat (u :: y) z (by rw [parts]; rfl)
    rw [List.cons_append] at turns
    generalize behind : w ++ rest = x at turns
    cases turns with
    | keep u turns =>
      subst behind
      obtain ⟨rest', rfl, further⟩ := ih later turns
      exact ⟨rest', rfl, further⟩
    | write opens =>
      have same : ground.opensGroup = false := flat [] w rfl
      exact absurd (opens.symm.trans same) nofun

theorem Turns.split_bare (bare : unit '(' ∉ w) (turns : swap.Turns ground (w ++ rest) x') :
    ∃ rest', x' = w ++ rest' ∧ swap.Turns (ground.run w) rest rest' := by
  refine turns.split fun y z parts => ?_
  rw [parts] at bare
  exact absurd List.mem_append_cons_self bare

/-- The texts are the same, or they are up to a parenthesis that opens a group. -/
theorem Turns.boundary (turns : swap.Turns ground x x') : x' = x ∨
    ∃ z r r', x = z ++ unit '(' :: r ∧ x' = z ++ unit '(' :: r' ∧
      (ground.run z).opensGroup = true := by
  induction turns with
  | nil => exact .inl rfl
  | keep u _ ih =>
    obtain rfl | ⟨z, r, r', rfl, rfl, opens⟩ := ih
    · exact .inl rfl
    · exact .inr ⟨u :: z, r, r', rfl, rfl, opens⟩
  | write opens => exact .inr ⟨[], _, _, rfl, rfl, opens⟩

/-- Behind a parenthesis a text without a question mark in front stands as in code. -/
theorem Turns.of_paren (plain : x.head? ≠ some (unit '?')) (turns : swap.Turns .paren x x') :
    swap.Turns .code x x' := by
  cases turns with
  | nil => exact .nil
  | keep u turns =>
    have other : u ≠ unit '?' := fun same => plain (congrArg some same)
    rw [Ground.next_paren other] at turns
    exact .keep u turns
  | write _ fits turns => exact .write rfl fits turns

end Turns

/-- The swapped text, with room for the groups of either. -/
structure Along (swap : Swap) (depth depth' : Nat) (ground : Ground) (x x' : Text) : Prop where
  turns : swap.Turns ground x x'
  room : x.count (unit '(') ≤ depth
  room' : x'.count (unit '(') ≤ depth'

section Along

variable {swap : Swap} {depth depth' : Nat} {ground : Ground} {w x x' rest : Text}

/-- A part of the texts has no less room. -/
theorem Along.part {y y' : Text} {ground' : Ground} (along : swap.Along depth depth' ground x x')
    (turns : swap.Turns ground' y y') (suffix : y <:+ x) (suffix' : y' <:+ x') :
    swap.Along depth depth' ground' y y' :=
  ⟨turns, Nat.le_trans (suffix.sublist.count_le _) along.room,
    Nat.le_trans (suffix'.sublist.count_le _) along.room'⟩

theorem Along.mono {more more' : Nat} (along : swap.Along depth depth' ground x x')
    (le : depth ≤ more) (le' : depth' ≤ more') : swap.Along more more' ground x x' :=
  ⟨along.turns, Nat.le_trans along.room le, Nat.le_trans along.room' le'⟩

theorem Along.split (flat : ∀ y z, w = y ++ unit '(' :: z → (ground.run y).opensGroup = false)
    (along : swap.Along depth depth' ground (w ++ rest) x') :
    ∃ rest', x' = w ++ rest' ∧ swap.Along depth depth' (ground.run w) rest rest' := by
  obtain ⟨rest', rfl, turns⟩ := along.turns.split flat
  exact ⟨rest', rfl, along.part turns (List.suffix_append _ _) (List.suffix_append _ _)⟩

theorem Along.split_bare (bare : unit '(' ∉ w)
    (along : swap.Along depth depth' ground (w ++ rest) x') :
    ∃ rest', x' = w ++ rest' ∧ swap.Along depth depth' (ground.run w) rest rest' := by
  obtain ⟨rest', rfl, turns⟩ := along.turns.split_bare bare
  exact ⟨rest', rfl, along.part turns (List.suffix_append _ _) (List.suffix_append _ _)⟩

end Along

end Swap

namespace Reader

variable {α α' β β' : Type} {p q : Reader α} {p' q' : Reader α'} {f : α → Reader β}
  {f' : α' → Reader β'} {x x' : Text}

/-- Two readings fail, or they give values and rests that belong together. -/
def Together (goes : α → Text → α' → Text → Prop) (outcome : Option (α × Text))
    (outcome' : Option (α' × Text)) : Prop :=
  (outcome = none ∧ outcome' = none) ∨
    ∃ a y a' y', outcome = some (a, y) ∧ outcome' = some (a', y') ∧ goes a y a' y'

variable {goes : α → Text → α' → Text → Prop} {goes' : β → Text → β' → Text → Prop}

theorem together_pure {a : α} {a' : α'} (holds : goes a x a' x') :
    Together goes ((pure a : Reader α).result x) ((pure a' : Reader α').result x') :=
  .inr ⟨a, x, a', x', rfl, rfl, holds⟩

theorem together_orElse (first : Together goes (p.result x) (p'.result x'))
    (second : Together goes (q.result x) (q'.result x')) :
    Together goes ((p <|> q).result x) ((p' <|> q').result x') := by
  rw [result_orElse, result_orElse]
  obtain ⟨failed, failed'⟩ | ⟨a, y, a', y', read, read', holds⟩ := first
  · rw [failed, failed']
    exact second
  · rw [read, read']
    exact .inr ⟨a, y, a', y', rfl, rfl, holds⟩

theorem together_bind (first : Together goes (p.result x) (p'.result x'))
    (second : ∀ a y a' y', goes a y a' y' →
      Together goes' ((f a).result y) ((f' a').result y')) :
    Together goes' ((p >>= f).result x) ((p' >>= f').result x') := by
  rw [result_bind, result_bind]
  obtain ⟨failed, failed'⟩ | ⟨a, y, a', y', read, read', holds⟩ := first
  · rw [failed, failed']
    exact .inl ⟨rfl, rfl⟩
  · rw [read, read']
    exact second a y a' y' holds

end Reader

namespace Swap

variable {swap : Swap} {depth depth' : Nat} {ground ground' : Ground} {x x' : Text} {α : Type}

/-- The same value, and rests that stand on this ground. -/
def Alike (swap : Swap) (depth depth' : Nat) (ground : Ground) (a : α) (y : Text) (a' : α)
    (y' : Text) : Prop :=
  a' = a ∧ swap.Along depth depth' ground y y'

/-- A rule without parentheses does the same on both texts. -/
theorem Along.stays {p : Reader α} (along : swap.Along depth depth' ground x x')
    (stays : StaysBefore (unit '(') p)
    (shaped : Shaped p fun w => unit '(' ∉ w ∧ ground.run w = ground') :
    Together (swap.Alike depth depth' ground') (p.result x) (p.result x') := by
  obtain rfl | ⟨z, r, r', rfl, rfl, _⟩ := along.turns.boundary
  · cases read : p.result x' with
    | none => exact .inl ⟨rfl, rfl⟩
    | some found =>
      obtain ⟨a, rest⟩ := found
      obtain ⟨w, rfl, bare, rfl⟩ := shaped read
      obtain ⟨rest', same, further⟩ := along.split_bare bare
      obtain rfl := List.append_cancel_left same
      exact .inr ⟨a, rest, a, rest, rfl, rfl, rfl, further⟩
  · obtain failed | ⟨a, y, read, read'⟩ := stays z r r'
    · exact .inl failed
    · obtain ⟨w, parts, bare, rfl⟩ := shaped read
      rw [← List.append_assoc] at parts
      obtain rfl := List.append_cancel_right parts
      rw [List.append_assoc] at along
      obtain ⟨rest', same, further⟩ := along.split_bare bare
      rw [List.append_assoc] at same
      obtain rfl := List.append_cancel_left same
      exact .inr ⟨a, _, a, _, read, read', rfl, further⟩

theorem Along.literal (along : swap.Along depth depth' ground x x') (text : Text)
    (bare : unit '(' ∉ text) (ends : ground.run text = ground') :
    Together (swap.Alike depth depth' ground') ((literal text).result x)
      ((literal text).result x') :=
  along.stays (stays_literal bare) (shaped_literal ⟨bare, ends⟩)

/-- In code, the same of a rule whose units mean nothing to the scan. -/
theorem Along.inert {p : Reader α} (along : swap.Along depth depth' .code x x')
    (stays : StaysBefore (unit '(') p) (inert : TakesInert p) :
    Together (swap.Alike depth depth' .code) (p.result x) (p.result x') :=
  along.stays stays (inert.imp fun units => ⟨units.bare, Ground.run_inert units⟩)

/-- Behind their question mark, the same of inline flags. -/
theorem Along.flags {members : UnitClass} (along : swap.Along depth depth' .mark x x')
    (inert : members.IsInert) (other : members.holds (unit '#') = false) :
    Together (swap.Alike depth depth' .code) ((atLeastOnce (oneOf members)).result x)
      ((atLeastOnce (oneOf members)).result x') := by
  have letter : StaysBefore (unit '(') (oneOf members) := stays_oneOf inert.2.2.1
  refine along.stays (stays_atLeastOnce letter (advances_oneOf _))
    ((shaped_atLeastOnce members).imp fun ⟨nonempty, known⟩ => ?_)
  obtain ⟨code, bare⟩ := Ground.run_flags inert other nonempty known
  exact ⟨bare, code⟩

/-- An atom that holds no pattern is read in both texts. -/
theorem Along.leaf {rest : Text} {a : Pattern} (along : swap.Along depth depth' .code x x')
    (read : (bracketed <|> short).result x = some (a, rest)) :
    ∃ rest', (bracketed <|> short).result x' = some (a, rest') ∧
      swap.Along depth depth' .code rest rest' := by
  obtain ⟨w, rfl, leafText⟩ := takes_leaf read
  obtain ⟨flat, code⟩ := leafText.ground
  obtain ⟨rest', rfl, further⟩ := along.split flat
  rw [code] at further
  refine ⟨rest', ?_, further⟩
  obtain same | ⟨z, r, r', parts, parts', opens⟩ := along.turns.boundary
  · rwa [List.append_cancel_left same]
  · -- the atom does not take the parenthesis, since that opens a group
    have long : r.length < rest.length := by
      obtain ⟨y, rfl, behind⟩ | ⟨y, rfl, behind⟩ := List.append_eq_append_iff.1 parts
      · rw [behind, List.length_append, List.length_cons]
        omega
      · cases y with
        | nil => rw [← List.nil_append rest, ← behind, List.length_cons]; omega
        | cons u y =>
          obtain ⟨rfl, _⟩ := List.cons.inj behind
          exact absurd (opens.symm.trans (flat z y rfl)) nofun
    rw [parts] at read
    rw [parts']
    obtain ⟨y, rfl, read'⟩ := leaf_carry (.inl rfl) read long r'
    obtain ⟨v, rfl, same⟩ := split_before parts.symm long
    obtain rfl := List.append_cancel_right same
    rw [List.append_assoc] at parts'
    rwa [List.append_cancel_left parts']

end Swap

end Highlight
