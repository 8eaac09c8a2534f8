import Highlight.Proofs.Pattern.Sets

/-!
# Texts that are rewritten part by part

`Rewrites` relates a text to one in which other marks stand for some groups, and other texts for some
atoms that end by themselves; units, escapes and sets stay. What such a part makes of a pattern may
change with it, as long as a change of the whole tree says how (`Structural`). Whatever is derived
from the first text is then derived from the second one, up to that change (`Rewrites.derives`). The
texts need not be patterns as a whole.
-/

namespace Highlight.Grammar

open Reader Dialect

/-- The units that do not stand for themselves: an escape, a set or a group begins with them. -/
def openers : Text := "\\[("

theorem mem_openers {u : CodeUnit} :
    u ∈ openers ↔ u = unit '\\' ∨ u = unit '[' ∨ u = unit '(' := by
  show u ∈ [unit '\\', unit '[', unit '('] ↔ _
  simp only [List.mem_cons, List.not_mem_nil, or_false]

theorem not_opener_of_inert {u : CodeUnit} (inert : IsInert u) : u ∉ openers := by
  rw [mem_openers]
  rintro (same | same | same)
  · exact inert.1 same
  · exact inert.2.1 same
  · exact inert.2.2.1 same

/-- A short atom is one unit, or an escape with the units that belong to it. -/
theorem short_parts {t rest : Text} {a : Pattern} (read : short.result t = some (a, rest)) :
    (∃ u, u ∉ openers ∧ t = u :: rest) ∨
      ∃ v x, InertText x ∧ t = unit '\\' :: v :: (x ++ rest) := by
  match t with
  | [] => cases read
  | u :: t =>
    by_cases escape : u = unit '\\'
    · subst escape
      have escaped : escapedAtom.result (unit '\\' :: t) = some (a, rest) := by
        obtain absurd | ⟨-, read⟩ := orElse_eq_some.1 read
        · cases absurd
        obtain absurd | ⟨-, read⟩ := orElse_eq_some.1 read
        · cases absurd
        obtain absurd | ⟨-, read⟩ := orElse_eq_some.1 read
        · cases absurd
        obtain read | ⟨-, absurd⟩ := orElse_eq_some.1 read
        · exact read
        · cases absurd
      obtain ⟨_, parts, v, x, rfl, inert⟩ := shaped_escapedAtom escaped
      exact .inr ⟨v, x, inert, parts⟩
    · obtain ⟨rfl, other, anywhere⟩ := short_unit escape read
      refine .inl ⟨u, ?_, rfl⟩
      rw [mem_openers]
      rintro (same | same | rfl)
      · exact escape same
      · exact other same
      · cases anywhere []

theorem inert_flags {flags : Text} (known : ∀ u ∈ flags, UnitClass.flag.holds u = true) :
    InertText ("?" ++ flags) := by
  have flag : UnitClass.flag.IsInert := by decide
  exact List.forall_mem_append.2
    ⟨(by decide : InertText "?"), fun u inside => flag.unit (known u inside)⟩

/-- The units of a mark stand for themselves. -/
theorem Mark.inert {w : Text} {node : Pattern → Pattern} (mark : Mark w node) : InertText w := by
  have flag : UnitClass.flagOrMinus.IsInert := by decide
  cases mark with
  | plain => exact nofun
  | @named front n spelling isName =>
    have begins : InertText front := by
      obtain rfl | rfl := spelling <;> decide
    exact List.forall_mem_append.2
      ⟨begins, List.forall_mem_append.2 ⟨isName.inert, (by decide : InertText ">")⟩⟩
  | uncaptured => decide
  | look listed => exact (by decide : ∀ front ∈ lookMarks, InertText front) w listed
  | flagged _ known =>
    exact List.forall_mem_append.2 ⟨(by decide : InertText "?"), List.forall_mem_append.2
      ⟨fun u inside => flag.unit (known u inside), (by decide : InertText ":")⟩⟩

/-- An atom that ends by itself and holds no pattern, and what it stands for. -/
inductive Closed : Text → Pattern → Prop where
  | bare {x : Text} {a : Pattern} (bare : Bare x a) : Closed (unit '(' :: (x ++ ")")) a
  | reference {n : Text} (isName : IsName n) :
    Closed ("\\k<" ++ (n ++ ">")) (.backref (.name n))

section Closed

variable {x rest : Text} {a : Pattern}

theorem Closed.derives (closed : Closed x a) (rest : Text) : Derives .atom (x ++ rest) [a] rest := by
  cases closed with
  | @bare x _ bare =>
    have parts : unit '(' :: (x ++ ")") ++ rest = unit '(' :: (x ++ unit ')' :: rest) := by
      simp [Text.ofString, unit, CodeUnit.ofScalar]
    rw [parts]
    exact .bare bare
  | @reference n isName =>
    refine .leaf (orElse_of_fail (bracketed_fails (by decide) _) ?_)
    rw [List.append_assoc, List.append_assoc]
    refine orElse_of_fail rfl <| orElse_of_fail rfl <| orElse_of_fail rfl <| orElse_of_read ?_
    refine orElse_of_fail rfl <| orElse_of_fail rfl <| orElse_of_read ?_
    exact bind_of_read (literal_append "\\k<" _) <| bind_of_read (name_append isName rest) <|
      bind_of_read (literal_append ">" rest) rfl

theorem Closed.begins (closed : Closed x a) : ∃ u y, x = u :: y ∧ u ∈ openers := by
  cases closed with
  | bare => exact ⟨_, _, rfl, by decide⟩
  | reference => exact ⟨_, _, rfl, by decide⟩

end Closed

/-! ## What stands at the front of a text -/

section Unique

variable {t t' rest rest' w w' x : Text} {a b : Pattern} {node node' : Pattern → Pattern}

/-- An atom is told by its text. -/
theorem Derives.atom_unique (derives : Derives .atom t [a] rest)
    (derives' : Derives .atom t [b] rest') : a = b ∧ rest = rest' := by
  obtain ⟨_, same, read⟩ := derives.reads (Nat.le_refl _)
  obtain ⟨_, same', read'⟩ := derives'.reads (Nat.le_refl _)
  cases same
  cases same'
  cases read.symm.trans read'
  exact ⟨rfl, rfl⟩

/-- The mark of a group is told by the text behind its parenthesis. -/
theorem Mark.unique (mark : Mark w node) (mark' : Mark w' node')
    (unmarked : t.head? ≠ some (unit '?')) (unmarked' : t'.head? ≠ some (unit '?'))
    (same : w ++ t = w' ++ t') : w = w' ∧ node = node' ∧ t = t' := by
  have both (p : Pattern) : node p = node' p ∧ t = t' := by
    have read := groupBody_of_mark mark unmarked (result_pure p t)
    have read' := groupBody_of_mark mark' unmarked' (result_pure p t')
    rw [same] at read
    exact Prod.mk.inj (Option.some.inj (read.symm.trans read'))
  obtain rfl := (both .anchor).2
  exact ⟨List.append_cancel_right same, funext fun p => (both p).1, rfl⟩

/-- No mark of a group with a pattern in it is the inside of one without. -/
theorem Mark.ne_bare (mark : Mark w node) (bare : Bare x a) (unmarked : t.head? ≠ some (unit '?')) :
    w ++ t ≠ x ++ unit ')' :: rest := by
  intro same
  have read := groupBody_of_mark mark unmarked (result_pure .anchor t)
  rw [same, groupBody_of_bare bare rest] at read
  have value : a = node .anchor := congrArg Prod.fst (Option.some.inj read)
  cases mark <;> cases bare <;> cases value

end Unique

/-! ## Rewriting -/

/-- The second text is the first one with some marks and closed atoms written anew, where `f` is what
becomes of the patterns. -/
inductive Rewrites (f : Pattern → Pattern) : Text → Text → Prop where
  | nil : Rewrites f [] []
  | keep {t t' : Text} (u : CodeUnit) (plain : u ∉ openers) (rest : Rewrites f t t') :
    Rewrites f (u :: t) (u :: t')
  | escape {t t' : Text} (v : CodeUnit) (rest : Rewrites f t t') :
    Rewrites f (unit '\\' :: v :: t) (unit '\\' :: v :: t')
  | set {x t t' : Text} {a : Pattern} (whole : bracketed.result x = some (a, []))
    (rest : Rewrites f t t') : Rewrites f (x ++ t) (x ++ t')
  | mark {w w' t t' : Text} {node node' : Pattern → Pattern} (mark : Mark w node)
    (mark' : Mark w' node') (turns : ∀ a, node' (f a) = f (node a))
    (unmarked : t.head? ≠ some (unit '?')) (rest : Rewrites f t t') :
    Rewrites f (unit '(' :: (w ++ t)) (unit '(' :: (w' ++ t'))
  | atom {x x' t t' : Text} {a : Pattern} (closed : Closed x a) (closed' : Closed x' (f a))
    (rest : Rewrites f t t') : Rewrites f (x ++ t) (x' ++ t')

namespace Rewrites

variable {f : Pattern → Pattern} {u : CodeUnit} {t t' s rest : Text} {a : Pattern}

theorem bracketed_begins {x : Text} (whole : bracketed.result x = some (a, rest)) :
    ∃ y, x = unit '[' :: y := by
  obtain ⟨_, y, opens, -⟩ := bind_eq_some.1 whole
  exact ⟨y, literal_eq_some.1 opens⟩

/-- A unit at the front that stands for itself stays, and otherwise both texts begin with one that
does not. -/
theorem cases_head (rewrites : Rewrites f t t') : (t = [] ∧ t' = []) ∨
    (∃ u s s', u ∉ openers ∧ t = u :: s ∧ t' = u :: s' ∧ Rewrites f s s') ∨
      ∃ u s u' s', u ∈ openers ∧ u' ∈ openers ∧ t = u :: s ∧ t' = u' :: s' := by
  cases rewrites with
  | nil => exact .inl ⟨rfl, rfl⟩
  | keep u plain behind => exact .inr (.inl ⟨u, _, _, plain, rfl, rfl, behind⟩)
  | escape v => exact .inr (.inr ⟨_, _, _, _, by decide, by decide, rfl, rfl⟩)
  | set whole =>
    obtain ⟨y, rfl⟩ := bracketed_begins whole
    exact .inr (.inr ⟨_, _, _, _, by decide, by decide, rfl, rfl⟩)
  | mark => exact .inr (.inr ⟨_, _, _, _, by decide, by decide, rfl, rfl⟩)
  | atom closed closed' =>
    obtain ⟨v, y, rfl, listed⟩ := closed.begins
    obtain ⟨v', y', rfl, listed'⟩ := closed'.begins
    exact .inr (.inr ⟨v, _, v', _, listed, listed', rfl, rfl⟩)

theorem of_unit (plain : u ∉ openers) (rewrites : Rewrites f (u :: s) t') :
    ∃ s', t' = u :: s' ∧ Rewrites f s s' := by
  obtain ⟨none, -⟩ | ⟨_, _, s', -, same, rfl, behind⟩ | ⟨_, _, _, _, listed, -, same, -⟩ :=
    rewrites.cases_head
  · cases none
  · obtain ⟨rfl, rfl⟩ := List.cons.inj same
    exact ⟨s', rfl, behind⟩
  · exact absurd ((List.cons.inj same).1 ▸ listed) plain

/-- Behind a parenthesis stands a mark that is written anew, or the parenthesis begins an atom that
is. -/
theorem of_paren (rewrites : Rewrites f (unit '(' :: s) t') :
    (∃ w w' t s' node node', s = w ++ t ∧ t' = unit '(' :: (w' ++ s') ∧ Mark w node ∧
      Mark w' node' ∧ (∀ a, node' (f a) = f (node a)) ∧ t.head? ≠ some (unit '?') ∧
      Rewrites f t s') ∨
    ∃ x x' t s' a, unit '(' :: s = x ++ t ∧ t' = x' ++ s' ∧ Closed x a ∧ Closed x' (f a) ∧
      Rewrites f t s' := by
  generalize front : unit '(' :: s = t at rewrites
  cases rewrites with
  | nil => cases front
  | keep u plain =>
    obtain ⟨rfl, -⟩ := List.cons.inj front
    exact absurd (by decide) plain
  | escape v => cases (List.cons.inj front).1
  | set whole =>
    obtain ⟨y, rfl⟩ := bracketed_begins whole
    cases (List.cons.inj front).1
  | mark mark mark' turns unmarked behind =>
    exact .inl ⟨_, _, _, _, _, _, (List.cons.inj front).2, rfl, mark, mark', turns, unmarked, behind⟩
  | atom closed closed' behind => exact .inr ⟨_, _, _, _, _, rfl, rfl, closed, closed', behind⟩

theorem inStep : InStep (Rewrites f) where
  step := by
    intro t t' rewrites
    have seam {u : CodeUnit} (listed : u ∈ openers) (s : Text) : HeadIn seams (u :: s) :=
      headIn_cons ((by decide : openers ⊆ seams) listed)
    obtain ⟨rfl, rfl⟩ | ⟨u, s, s', -, rfl, rfl, behind⟩ | ⟨u, s, u', s', listed, listed', rfl, rfl⟩ :=
      rewrites.cases_head
    · exact .inr ⟨headIn_nil, headIn_nil⟩
    · exact .inl ⟨u, s, s', rfl, rfl, behind⟩
    · exact .inr ⟨seam listed s, seam listed' s'⟩

theorem headIn {us : Text} (out : us.any openers.contains = false) (front : HeadIn us t)
    (rewrites : Rewrites f t t') : HeadIn us t' := by
  obtain ⟨rfl, rfl⟩ | ⟨u, s, s', -, rfl, rfl, -⟩ | ⟨u, s, u', s', listed, -, rfl, rfl⟩ :=
    rewrites.cases_head
  · exact headIn_nil
  · exact headIn_cons (front u rfl)
  · exact absurd (List.contains_iff_mem.2 listed) (List.any_eq_false.1 out u (front u rfl))

theorem unmarked (plain : t.head? ≠ some (unit '?')) (rewrites : Rewrites f t t') :
    t'.head? ≠ some (unit '?') := by
  obtain ⟨rfl, rfl⟩ | ⟨u, s, s', -, rfl, rfl, -⟩ | ⟨u, s, u', s', -, listed, rfl, rfl⟩ :=
    rewrites.cases_head
  · exact plain
  · exact plain
  · rintro ⟨⟩
    exact absurd listed (by decide)

/-- Where no pattern changes, the texts may change places. -/
theorem symm (rewrites : Rewrites id t t') : Rewrites id t' t := by
  induction rewrites with
  | nil => exact .nil
  | keep u plain _ ih => exact .keep u plain ih
  | escape v _ ih => exact .escape v ih
  | set whole _ ih => exact .set whole ih
  | mark mark mark' turns plain rest ih =>
    exact .mark mark' mark (fun a => (turns a).symm) (rest.unmarked plain) ih
  | atom closed closed' _ ih => exact .atom closed' closed ih

end Rewrites

/-! ## What is derived from the rewritten text -/

/-- A change of patterns that goes down the tree and leaves what is neither a group nor made of
others. -/
structure Structural (f : Pattern → Pattern) : Prop where
  leaf : ∀ {a : Pattern}, a.isLeaf = true → f a = a
  repeated : ∀ a least most, f (.repeated a least most) = .repeated (f a) least most
  seq : ∀ items, f (.seq items) = .seq (items.map f)
  alt : ∀ options, f (.alt options) = .alt (options.map f)

theorem structural_id : Structural id where
  leaf _ := rfl
  repeated _ _ _ := rfl
  seq items := by rw [List.map_id, id]
  alt options := by rw [List.map_id, id]

section Tree

variable {f : Pattern → Pattern} (structural : Structural f)

include structural

theorem Structural.quantify (bounds : Option Bounds) (a : Pattern) :
    f (quantify bounds a) = Grammar.quantify bounds (f a) := by
  cases bounds with
  | none => rfl
  | some bounds => exact structural.repeated a _ _

theorem Structural.sequenceOf (as : List Pattern) :
    f (sequenceOf as) = Grammar.sequenceOf (as.map f) := by
  match as with
  | [] => exact structural.seq []
  | [_] => rfl
  | _ :: _ :: _ => exact structural.seq _

theorem Structural.alternativesOf (options : List Pattern) :
    f (alternativesOf options) = Grammar.alternativesOf (options.map f) := by
  match options with
  | [] => exact structural.alt []
  | [_] => rfl
  | _ :: _ :: _ => exact structural.alt _

end Tree

/-- What an escape is depends on nothing but the texts in step behind it. -/
theorem escape_carry {R : Text → Text → Prop} (inStep : InStep R) {v : CodeUnit} {r r' rest : Text}
    {a : Pattern} (behind : R r r') (whole : v ∉ openers → R (v :: r) (v :: r'))
    (read : short.result (unit '\\' :: v :: r) = some (a, rest)) :
    ∃ rest', short.result (unit '\\' :: v :: r') = some (a, rest') ∧ R rest rest' := by
  rw [short_escape] at read ⊢
  have self (failed' : codedAtom.result (v :: r') = none)
      (read : selfAtom.result (v :: r) = some (a, rest)) :
      ∃ rest', (codedAtom <|> selfAtom).result (v :: r') = some (a, rest') ∧ R rest rest' := by
    obtain ⟨u, _, any, rfl, rfl⟩ := bind_eq_some.1 read
    obtain ⟨rfl, rfl⟩ := List.cons.inj (anyUnit_eq_some.1 any)
    exact ⟨r', orElse_of_fail failed' rfl, behind⟩
  by_cases opener : v ∈ openers
  · have fails (s : Text) : codedAtom.result (v :: s) = none := by
      obtain rfl | rfl | rfl := mem_openers.1 opener <;> rfl
    obtain coded | ⟨-, read⟩ := orElse_eq_some.1 read
    · cases (fails r).symm.trans coded
    · exact self (fails r') read
  · obtain coded | ⟨failed, read⟩ := orElse_eq_some.1 read
    · obtain ⟨rest', read', related⟩ := keeps_codedAtom.carry inStep (whole opener) coded
      exact ⟨rest', orElse_of_read read', related⟩
    · exact self (keeps_codedAtom.fails inStep (whole opener) failed) read

namespace Rewrites

variable {f : Pattern → Pattern} {t t' rest : Text} {a : Pattern}

/-- Where a closed atom stands in front, the atom derived is that one. -/
theorem atom_derives {x x' s s' : Text} {b : Pattern} (closed : Closed x b)
    (closed' : Closed x' (f b)) (behind : Rewrites f s s')
    (derives : Derives .atom (x ++ s) [a] rest) :
    ∃ rest', Rewrites f rest rest' ∧ Derives .atom (x' ++ s') [f a] rest' := by
  obtain ⟨rfl, rfl⟩ := derives.atom_unique (closed.derives s)
  exact ⟨s', behind, closed'.derives s'⟩

variable (structural : Structural f)

include structural

/-- An atom without a pattern is carried over. -/
theorem leaf (read : (bracketed <|> short).result t = some (a, rest))
    (rewrites : Rewrites f t t') :
    ∃ rest', Rewrites f rest rest' ∧ Derives .atom t' [f a] rest' := by
  obtain ⟨_, _, leafText⟩ := takes_leaf read
  have same : f a = a := structural.leaf leafText.leaf
  cases rewrites with
  | nil => cases read
  | keep u plain behind =>
    obtain set | ⟨-, single⟩ := orElse_eq_some.1 read
    · obtain ⟨_, opens⟩ := bracketed_begins set
      obtain ⟨rfl, -⟩ := List.cons.inj opens
      exact absurd (by decide) plain
    · have escape : u ≠ unit '\\' := fun is => plain (is ▸ by decide)
      obtain ⟨rfl, other, anywhere⟩ := short_unit escape single
      rw [same]
      exact ⟨_, behind, .leaf (orElse_of_fail (bracketed_fails other _) (anywhere _))⟩
  | escape v behind =>
    obtain set | ⟨-, single⟩ := orElse_eq_some.1 read
    · cases (bracketed_fails (by decide) _).symm.trans set
    · obtain ⟨rest', single', related⟩ :=
        escape_carry inStep behind (fun plain => .keep v plain behind) single
      rw [same]
      exact ⟨rest', related, .leaf (orElse_of_fail (bracketed_fails (by decide) _) single')⟩
  | @set x s s' b whole behind =>
    have anywhere (r : Text) : bracketed.result (x ++ r) = some (b, r) :=
      bracketed_append (by rwa [List.append_nil]) r
    cases read.symm.trans (orElse_of_read (anywhere s))
    rw [same]
    exact ⟨s', behind, .leaf (orElse_of_read (anywhere s'))⟩
  | mark => cases read
  | atom closed closed' behind => exact atom_derives closed closed' behind (.leaf read)

/-- What is derived from a text is derived from the rewritten one. -/
theorem derives {category : Category} {as : List Pattern} (derives : Derives category t as rest)
    (rewrites : Rewrites f t t') :
    ∃ rest', Rewrites f rest rest' ∧ Derives category t' (as.map f) rest' := by
  induction derives generalizing t' with
  | leaf read => exact leaf structural read rewrites
  | @bare x rest a bare =>
    obtain ⟨w, w', s, s', node, node', parts, rfl, mark, -, -, unmarked, -⟩ |
      ⟨x₁, x', s, s', b, parts, rfl, closed, closed', behind⟩ := rewrites.of_paren
    · exact absurd parts.symm (mark.ne_bare bare unmarked)
    · refine atom_derives closed closed' behind ?_
      rw [← parts]
      exact .bare bare
  | @group w t rest node options mark inside ih =>
    obtain ⟨w₁, w', s, s', node₁, node', parts, rfl, mark₁, mark', turns, unmarked, behind⟩ |
      ⟨x, x', s, s', b, parts, rfl, closed, closed', behind⟩ := rewrites.of_paren
    · obtain ⟨rfl, rfl, rfl⟩ := mark.unique mark₁ inside.unmarked unmarked parts
      obtain ⟨_, closes, inside'⟩ := ih behind
      obtain ⟨rest', rfl, further⟩ := closes.of_unit (by decide)
      refine ⟨rest', further, ?_⟩
      rw [List.map_singleton, ← turns, structural.alternativesOf]
      exact .group mark' inside'
    · refine atom_derives closed closed' behind ?_
      rw [← parts]
      exact .group mark inside
  | item first times ih =>
    obtain ⟨middle', related, first'⟩ := ih rewrites
    obtain ⟨rest', times', further⟩ :=
      (keeps_optional keeps_quantifier).carry inStep related times
    refine ⟨rest', further, ?_⟩
    rw [List.map_singleton, structural.quantify]
    exact .item first' times'
  | nil ends => exact ⟨t', rewrites, .nil (rewrites.headIn (by decide) ends)⟩
  | cons first later ih ih' =>
    obtain ⟨middle', related, first'⟩ := ih rewrites
    obtain ⟨rest', further, later'⟩ := ih' related
    exact ⟨rest', further, .cons first' later'⟩
  | last only ends ih =>
    obtain ⟨rest', further, only'⟩ := ih rewrites
    refine ⟨rest', further, ?_⟩
    rw [List.map_singleton, structural.sequenceOf]
    exact .last only' (further.headIn (by decide) ends)
  | more first later ih ih' =>
    obtain ⟨_, bar, first'⟩ := ih rewrites
    obtain ⟨middle', rfl, related⟩ := bar.of_unit (by decide)
    obtain ⟨rest', further, later'⟩ := ih' related
    refine ⟨rest', further, ?_⟩
    rw [List.map_cons, structural.sequenceOf]
    exact .more first' later'

/-- The rewritten text of a pattern is a pattern, and the one that becomes of it. -/
theorem readTree {root : Pattern} (read : Pattern.readTree t = .ok root)
    (rewrites : Rewrites f t t') : Pattern.readTree t' = .ok (f root) := by
  obtain ⟨options, rfl, whole⟩ := Pattern.readTree_iff_derives.1 read
  obtain ⟨rest', further, whole'⟩ := derives structural whole rewrites
  obtain ⟨-, rfl⟩ | ⟨_, _, _, -, absurd, -⟩ | ⟨_, _, _, _, -, -, absurd, -⟩ := further.cases_head
  · exact Pattern.readTree_iff_derives.2 ⟨_, structural.alternativesOf options, whole'⟩
  · cases absurd
  · cases absurd

end Rewrites

/-- Texts that only write the same otherwise are the same pattern, or neither is one. -/
theorem Rewrites.readTree_eq {t t' : Text} (rewrites : Rewrites id t t') :
    (Pattern.readTree t').toOption = (Pattern.readTree t).toOption := by
  cases read : Pattern.readTree t with
  | ok root => rw [rewrites.readTree structural_id read, id]
  | error met =>
    cases read' : Pattern.readTree t' with
    | error met' => rfl
    | ok root' => cases read.symm.trans (rewrites.symm.readTree structural_id read')

end Highlight.Grammar
