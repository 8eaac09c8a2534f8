import Highlight.Proofs.Pattern.Denotation
import Highlight.Proofs.Regex.Taken

/-!
# Two readings of one group

A group is read twice, as a pattern that is sampled and as a regular expression that is matched, and
the two notations are not the same. `Pattern.isReadAs` tells whether both readings have one
structure. Where they have, every word that the sampler takes from the pattern is one that the
expression takes, unless it holds a line break (`Pattern.canTake_of_isReadAs`): the proof follows
the pattern, and each of its parts takes its own share of the word.
-/

namespace Highlight

namespace Regex

/-- What a sequence of a single part consists of. -/
def alone : Regex → Regex
  | seq a empty => a
  | e => e

theorem CanTake.of_alone {byLines : Bool} {text : Array CodeUnit} {e : Regex} {w : Text}
    (taken : CanTake byLines text e.alone w) : CanTake byLines text e w := by
  unfold alone at taken
  split at taken
  · rename_i a
    have both := taken.seq .empty
    rwa [List.append_nil] at both
  · exact taken

end Regex

namespace Sampling

/-- The text holds no line feed and no carriage return. -/
def IsFlat (t : Text) : Prop := ∀ u ∈ t, u ≠ 10 ∧ u ≠ 13

theorem IsFlat.append_iff {t t' : Text} : IsFlat (t ++ t') ↔ IsFlat t ∧ IsFlat t' :=
  List.forall_mem_append

theorem flat_eq_iff {t : Text} : flat t = t ↔ IsFlat t := by
  simp [flat, IsFlat, List.filter_eq_self]

end Sampling

namespace Pattern

open Regex (CanTake)
open Sampling (IsFlat)

mutual

/-- The expression has the structure of the pattern, and each of its sets holds what the sampler
takes of the unit or the set in its place, apart from line breaks. What depends on what is around
it is not compared. -/
def isReadAs : Pattern → Regex → Bool
  | char value, e => match e.alone with
    | .set members => members.holds value
    | _ => false
  | set negated items, e => match e.alone with
    | .set members => (Sampling.members negated items).all fun u =>
      u == 10 || u == 13 || members.holds u
    | _ => false
  | group none body, e => isReadAs body e.alone
  | group (some _) body, e => match e.alone with
    | .capture _ inner => isReadAs body inner
    | _ => false
  | repeated body least most, e => match e.alone with
    | .repeated inner least' most' _ => least == least' && most == most' && isReadAs body inner
    | _ => false
  | seq items, e => areReadAs items e
  | alt options, e => anyReadAs options e
  | anchor, _ | look _, _ | backref _, _ => false

/-- The parts of a sequence. -/
def areReadAs : List Pattern → Regex → Bool
  | [], .empty => true
  | item :: items, .seq a b => isReadAs item a && areReadAs items b
  | _, _ => false

/-- The options of an alternative. -/
def anyReadAs : List Pattern → Regex → Bool
  | [option], e => isReadAs option e
  | option :: other :: options, .alt a b => isReadAs option a && anyReadAs (other :: options) b
  | _, _ => false

end

variable {limit : Nat} {byLines : Bool} {text : Array CodeUnit}

theorem areReadAs_nil {e : Regex} (alike : areReadAs [] e = true) : e = .empty := by
  unfold areReadAs at alike
  split at alike <;> simp_all

theorem areReadAs_cons {item : Pattern} {items : List Pattern} {e : Regex}
    (alike : areReadAs (item :: items) e = true) :
    ∃ a b, e = .seq a b ∧ item.isReadAs a = true ∧ areReadAs items b = true := by
  unfold areReadAs at alike
  split at alike <;> simp_all

theorem anyReadAs_cons {option other : Pattern} {options : List Pattern} {e : Regex}
    (alike : anyReadAs (option :: other :: options) e = true) :
    ∃ a b, e = .alt a b ∧ option.isReadAs a = true ∧ anyReadAs (other :: options) b = true := by
  unfold anyReadAs at alike
  split at alike <;> simp_all

/-- A flat text of a repetition is made of flat ones. -/
theorem Times.flat {body : Text → Prop} {count : Nat} {w : Text} (times : Times body count w)
    (whole : IsFlat w) : Times (fun w => body w ∧ IsFlat w) count w := by
  induction count generalizing w with
  | zero => exact times
  | succ count ih =>
    obtain ⟨head, tail, first, later, rfl⟩ := times
    obtain ⟨front, back⟩ := IsFlat.append_iff.1 whole
    exact ⟨head, tail, ⟨first, front⟩, ih later back, rfl⟩

mutual

/-- An expression that has the structure of a pattern takes the words that the sampler takes from
the pattern, unless they hold a line break. -/
theorem canTake_of_isReadAs : ∀ {pattern : Pattern} {e : Regex} {w : Text},
    pattern.isReadAs e = true → Denotes (.sampled limit) pattern w → IsFlat w →
      CanTake byLines text e w
  | char value, e, w, alike, denoted, _ => by
    obtain rfl : w = [value] := denoted
    apply CanTake.of_alone
    unfold isReadAs at alike
    split at alike
    · rename_i members same
      rw [same]
      exact .set alike
    · cases alike
  | set negated items, e, w, alike, denoted, whole => by
    obtain ⟨u, admitted, rfl⟩ := denoted
    apply CanTake.of_alone
    unfold isReadAs at alike
    split at alike
    · rename_i members same
      have sampled := List.all_eq_true.1 alike u (mem_members_sampled.2 admitted)
      obtain ⟨feed, carriage⟩ := whole u List.mem_cons_self
      simp only [feed, carriage, beq_iff_eq, Bool.or_eq_true, false_or] at sampled
      rw [same]
      exact .set sampled
    · cases alike
  | group none body, e, w, alike, denoted, whole => by
    rw [Denotes] at denoted
    rw [isReadAs] at alike
    exact (canTake_of_isReadAs alike denoted whole).of_alone
  | group (some capture) body, e, w, alike, denoted, whole => by
    rw [Denotes] at denoted
    apply CanTake.of_alone
    unfold isReadAs at alike
    split at alike
    · rename_i index inner same
      rw [same]
      exact (canTake_of_isReadAs alike denoted whole).capture index
    · cases alike
  | repeated body least most, e, w, alike, denoted, whole => by
    rw [Denotes] at denoted
    obtain ⟨count, least_le, few, -, times⟩ := denoted
    apply CanTake.of_alone
    unfold isReadAs at alike
    split at alike
    · rename_i inner least' most' greedy same
      simp only [Bool.and_eq_true, beq_iff_eq] at alike
      obtain ⟨⟨rfl, rfl⟩, alike⟩ := alike
      rw [same]
      apply CanTake.repeated greedy _ least_le few
      exact (times.flat whole).mono fun w one => canTake_of_isReadAs alike one.1 one.2
    · cases alike
  | seq items, e, w, alike, denoted, whole => by
    rw [Denotes] at denoted
    rw [isReadAs] at alike
    exact canTake_of_areReadAs alike denoted whole
  | alt options, e, w, alike, denoted, whole => by
    rw [Denotes] at denoted
    rw [isReadAs] at alike
    exact canTake_of_anyReadAs alike denoted whole
  | anchor, _, _, alike, _, _ | look _, _, _, alike, _, _ | backref _, _, _, alike, _, _ =>
    Bool.noConfusion alike

theorem canTake_of_areReadAs : ∀ {items : List Pattern} {e : Regex} {w : Text},
    areReadAs items e = true → DenotesAll (.sampled limit) items w → IsFlat w →
      CanTake byLines text e w
  | [], e, w, alike, denoted, _ => by
    obtain rfl : w = [] := denoted
    obtain rfl := areReadAs_nil alike
    exact .empty
  | item :: items, e, w, alike, denoted, whole => by
    obtain ⟨head, tail, first, later, rfl⟩ := denoted
    obtain ⟨front, back⟩ := IsFlat.append_iff.1 whole
    obtain ⟨a, b, rfl, here, behind⟩ := areReadAs_cons alike
    exact (canTake_of_isReadAs here first front).seq (canTake_of_areReadAs behind later back)

theorem canTake_of_anyReadAs : ∀ {options : List Pattern} {e : Regex} {w : Text},
    anyReadAs options e = true → DenotesAny (.sampled limit) options w → IsFlat w →
      CanTake byLines text e w
  | [], _, _, _, denoted, _ => denoted.elim
  | [option], e, w, alike, denoted, whole => by
    obtain denoted | absurd := denoted
    · exact canTake_of_isReadAs alike denoted whole
    · exact absurd.elim
  | option :: other :: options, e, w, alike, denoted, whole => by
    obtain ⟨a, b, rfl, here, there⟩ := anyReadAs_cons alike
    obtain denoted | denoted := denoted
    · exact (canTake_of_isReadAs here denoted whole).left
    · exact (canTake_of_anyReadAs there denoted whole).right

end

end Pattern

end Highlight
