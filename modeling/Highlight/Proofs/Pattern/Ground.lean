import Highlight.Proofs.Pattern.Captures

/-!
# Where a parenthesis opens a group

A parenthesis in a pattern need not open a group: it may be escaped, or stand in a set or a comment.
`Ground.run` follows a text unit by unit and says on what ground it has come to stand, so that the
text in front of a parenthesis tells what the parenthesis is. The scan for groups stands on the same
ground, except that it knows no comments.
-/

namespace Highlight

/-- Where the next unit of a pattern stands. -/
inductive Ground where
  | code
  /-- Right after a parenthesis that opens a group. -/
  | paren
  /-- Right after such a parenthesis and a question mark. -/
  | mark
  | escaped
  /-- Right after the opening bracket of a set, where a closing one stands for itself. -/
  | opened
  /-- Right after the opening bracket and the mark of negation. -/
  | negated
  | inside
  | insideEscaped
  | comment
  deriving DecidableEq, Repr

theorem Dialect.InertText.bare {x : Text} (inert : Dialect.InertText x) : unit '(' ∉ x :=
  fun inside => (inert _ inside).2.2.1 rfl

namespace Ground

/-- The ground behind a unit of code. -/
def afterCode (u : CodeUnit) : Ground :=
  if u = unit '\\' then escaped else if u = unit '(' then paren
  else if u = unit '[' then opened else code

/-- The ground behind a unit of a set. -/
def afterMember (u : CodeUnit) : Ground := if u = unit '\\' then insideEscaped else inside

/-- The ground behind a unit. -/
def next : Ground → CodeUnit → Ground
  | code, u => afterCode u
  | paren, u => if u = unit '?' then mark else afterCode u
  | mark, u => if u = unit '#' then comment else afterCode u
  | escaped, _ => code
  | opened, u => if u = unit '^' then negated else afterMember u
  | negated, u => afterMember u
  | inside, u => if u = unit ']' then code else afterMember u
  | insideEscaped, _ => inside
  | comment, u => if u = unit ')' then code else comment

/-- The ground behind a text. -/
def run (ground : Ground) (t : Text) : Ground := t.foldl next ground

/-- A parenthesis opens a group here. -/
def opensGroup : Ground → Bool
  | code | paren | mark => true
  | _ => false

section Run

variable {ground : Ground} {u : CodeUnit} {x y : Text}

@[simp] theorem run_nil : run ground [] = ground := rfl

@[simp] theorem run_cons : run ground (u :: x) = run (ground.next u) x := rfl

@[simp] theorem run_append : run ground (x ++ y) = run (run ground x) y := List.foldl_append

/-- Behind a parenthesis only a question mark is not read as code. -/
theorem next_paren (plain : u ≠ unit '?') : paren.next u = code.next u := if_neg plain

theorem next_inert (inert : Dialect.IsInert u) : code.next u = code := by
  obtain ⟨escape, bracket, opens, _⟩ := inert
  rw [next, afterCode, if_neg escape, if_neg opens, if_neg bracket]

theorem run_inert (inert : Dialect.InertText x) : run code x = code := by
  induction x with
  | nil => rfl
  | cons u x ih =>
    obtain ⟨here, rest⟩ := List.forall_mem_cons.1 inert
    rw [run_cons, next_inert here, ih rest]

/-- Inline flags are code, and none of them opens a group. -/
theorem run_flags {members : UnitClass} {flags : Text} (inert : members.IsInert)
    (other : members.holds (unit '#') = false) (nonempty : flags ≠ [])
    (known : ∀ u ∈ flags, members.holds u = true) :
    run mark flags = code ∧ unit '(' ∉ flags := by
  have units : Dialect.InertText flags := fun u inside => inert.unit (known u inside)
  refine ⟨?_, units.bare⟩
  obtain ⟨u, flags, rfl⟩ := List.exists_cons_of_ne_nil nonempty
  obtain ⟨here, later⟩ := List.forall_mem_cons.1 units
  have flag : u ≠ unit '#' := UnitClass.ne_of_holds (known u List.mem_cons_self) other
  have first : mark.next u = code := (if_neg flag).trans (next_inert here)
  rw [run_cons, first, run_inert later]

/-- Nothing but a parenthesis ends a comment. -/
theorem run_comment (open_ : unit ')' ∉ x) : run comment x = comment := by
  induction x with
  | nil => rfl
  | cons u x ih =>
    obtain ⟨here, rest⟩ := not_or.1 (mt List.mem_cons.2 open_)
    rw [run_cons, next, if_neg (Ne.symm here), ih rest]

end Run

end Ground

namespace Dialect

open Ground

/-- The ground on which a scan for groups stands. -/
def SetScan.ground : SetScan → Ground
  | .outside => .code
  | .opened => .opened
  | .negated => .negated
  | .inside => .inside

theorem next_ground {scan : SetScan} {u : CodeUnit} (escape : u ≠ unit '\\')
    (plain : ¬ (scan = .outside ∧ u = unit '(')) : scan.ground.next u = (scan.next u).ground := by
  cases scan with
  | outside =>
    have other : u ≠ unit '(' := fun same => plain ⟨rfl, same⟩
    rw [SetScan.ground, next, afterCode, if_neg escape, if_neg other, SetScan.next]
    split <;> rfl
  | opened =>
    rw [SetScan.ground, next, afterMember, if_neg escape, SetScan.next]
    split <;> rfl
  | negated =>
    rw [SetScan.ground, next, afterMember, if_neg escape]
    rfl
  | inside =>
    rw [SetScan.ground, next, afterMember, if_neg escape, SetScan.next]
    split <;> rfl

theorem escaped_ground (scan : SetScan) (v : CodeUnit) :
    (scan.ground.next (unit '\\')).next v = scan.escaped.ground := by
  cases scan <;> rfl

/-- Where the scan meets no parenthesis that counts, none opens a group. -/
theorem flat_of_openingsFrom {scan : SetScan} {x : Text} (none : openingsFrom scan x = []) :
    ∀ y z, x = y ++ unit '(' :: z → (run scan.ground y).opensGroup = false := by
  intro y z parts
  fun_induction openingsFrom scan x generalizing y with
  | case1 => exact absurd parts (by simp)
  | case2 scan =>
    cases y with
    | nil => cases parts
    | cons u y => exact absurd (List.cons.inj parts).2 (by simp)
  | case3 scan v r ih =>
    match y with
    | [] => cases parts
    | [u] =>
      obtain ⟨rfl, _⟩ := List.cons.inj parts
      cases scan <;> rfl
    | u :: w :: y =>
      obtain ⟨rfl, behind⟩ := List.cons.inj parts
      obtain ⟨rfl, later⟩ := List.cons.inj behind
      rw [run_cons, run_cons, escaped_ground]
      exact ih none y later
  | case4 => cases none
  | case5 scan u r escape plain ih =>
    cases y with
    | nil =>
      obtain ⟨rfl, _⟩ := List.cons.inj parts
      cases scan with
      | outside => exact absurd ⟨rfl, rfl⟩ plain
      | _ => rfl
    | cons v y =>
      obtain ⟨rfl, later⟩ := List.cons.inj parts
      rw [run_cons, next_ground escape plain]
      exact ih none y later

/-- Where the scan meets no parenthesis that counts, but one would count behind the text, the text
ends in code. -/
theorem code_of_openingsFrom {scan : SetScan} {x : Text} (none : openingsFrom scan x = [])
    (counts : openingsFrom scan (x ++ [unit '(']) ≠ []) : run scan.ground x = .code := by
  fun_induction openingsFrom scan x with
  | case1 scan =>
    cases scan with
    | outside => rfl
    | _ => exact absurd rfl counts
  | case2 scan => exact absurd (openingsFrom_escape scan _ []) counts
  | case3 scan v r ih =>
    rw [run_cons, run_cons, escaped_ground]
    rw [List.cons_append, List.cons_append, openingsFrom_escape] at counts
    exact ih none counts
  | case4 => cases none
  | case5 scan u r escape plain ih =>
    rw [run_cons, next_ground escape plain]
    rw [List.cons_append, openingsFrom_cons escape, if_neg plain] at counts
    exact ih none counts

end Dialect

/-- An atom without a pattern opens no group, and its text ends in code. -/
theorem Grammar.LeafText.ground {x : Text} {a : Pattern} (leafText : Grammar.LeafText x a) :
    (∀ y z, x = y ++ unit '(' :: z → (Ground.run .code y).opensGroup = false) ∧
      Ground.run .code x = .code := by
  have scanned : Dialect.openingsFrom .outside x = [] := by
    rw [← List.append_nil x, leafText.passes.openings]
    rfl
  refine ⟨Dialect.flat_of_openingsFrom scanned, Dialect.code_of_openingsFrom scanned ?_⟩
  rw [leafText.passes.openings]
  exact List.cons_ne_nil _ _

end Highlight
