import Highlight.Proofs.Pattern.Seams

/-!
# Which texts are sets

Between the brackets of a set stand a mark of negation, a closing bracket that stands for itself and
units and escapes, of which the last are read up to the bracket that closes the set
(`bracketItems_closed`). So the text alone tells what is a set (`bracketed_eq_some`), and what is
read of its inside are the items.
-/

namespace Highlight

open Reader Dialect

theorem Dialect.BracketText.run {x : Text} (inside : BracketText x) :
    Ground.run .inside x = .inside := by
  induction inside with
  | nil => rfl
  | @plain u x escape closes _ ih =>
    have stays : Ground.inside.next u = .inside := by
      rw [Ground.next, if_neg closes, Ground.afterMember, if_neg escape]
    rw [Ground.run_cons, stays, ih]
  | escape v _ ih => exact ih

namespace Reader

variable {α : Type} {p : Reader α} {t rest : Text}

theorem optional_eq_some {found : Option α} : (optional p).result t = some (found, rest) ↔
    (∃ a, found = some a ∧ p.result t = some (a, rest)) ∨
      found = none ∧ p.result t = none ∧ rest = t := by
  constructor
  · intro read
    obtain read | ⟨failed, read⟩ := orElse_eq_some.1 read
    · obtain ⟨a, _, read, rfl, rfl⟩ := bind_eq_some.1 read
      exact .inl ⟨a, rfl, read⟩
    · cases read
      refine .inr ⟨rfl, ?_, rfl⟩
      cases read : p.result t with
      | none => rfl
      | some found => cases bind_eq_none.1 failed _ _ read
  · rintro (⟨a, rfl, read⟩ | ⟨rfl, failed, rfl⟩)
    · exact optional_of_read read
    · exact optional_of_fail failed

/-- Where the rounds end, the reader fails. -/
theorem Rounds.stops {as : List α} (rounds : Rounds p t as rest) : p.result rest = none := by
  induction rounds with
  | stop failed => exact failed
  | more _ _ ih => exact ih

end Reader

namespace Grammar

section Items

variable {t rest : Text}

theorem escapedUnit_total (v : CodeUnit) (t : Text) :
    ∃ u rest, escapedUnit.result (v :: t) = some (u, rest) := by
  simp only [escapedUnit_result]
  cases read : codedUnit.result (v :: t) with
  | none => exact ⟨v, t, orElse_of_fail read rfl⟩
  | some found => exact ⟨found.1, found.2, orElse_of_read read⟩

theorem bracketed_holds {u : CodeUnit} (escape : u ≠ unit '\\') (closes : u ≠ unit ']') :
    UnitClass.bracketed.holds u = true := by
  have out : u ∉ ("]\\" : Text) := by
    rintro (_ | ⟨_, _ | ⟨_, ⟨⟩⟩⟩)
    · exact closes rfl
    · exact escape rfl
  simpa [UnitClass.holds, UnitClass.oneOf] using out

theorem rangeFrom_total (lo : CodeUnit) (t : Text) :
    ∃ item rest, (rangeFrom lo).result t = some (item, rest) := by
  cases read : (do literal "-"; let hi ← bracketUnit; pure (ClassItem.range lo hi)).result t with
  | none => exact ⟨_, t, orElse_of_fail read rfl⟩
  | some found => exact ⟨found.1, found.2, orElse_of_read read⟩

/-- No item of a set begins here. -/
def EndsItems (t : Text) : Prop := t = [] ∨ t.head? = some (unit ']') ∨ t = [unit '\\']

theorem bracketUnit_total (goes : ¬ EndsItems t) :
    ∃ lo rest, bracketUnit.result t = some (lo, rest) := by
  obtain ⟨filled, unclosed, more⟩ : t ≠ [] ∧ t.head? ≠ some (unit ']') ∧ t ≠ [unit '\\'] := by
    simpa only [EndsItems, not_or] using goes
  obtain ⟨u, s, rfl⟩ := List.exists_cons_of_ne_nil filled
  by_cases escaped : u = unit '\\'
  · subst escaped
    have room : s ≠ [] := fun none => more (by rw [none])
    obtain ⟨v, s, rfl⟩ := List.exists_cons_of_ne_nil room
    obtain ⟨lo, rest, read⟩ := escapedUnit_total v s
    exact ⟨lo, rest, orElse_of_read (bind_of_read (literal_append "\\" _) read)⟩
  · have other : u ≠ unit ']' := fun same => unclosed (congrArg some same)
    have fails : escape.result (u :: s) = none := bind_of_fail (literal_other escaped [] s)
    exact ⟨u, s, orElse_of_fail fails (oneOf_cons (bracketed_holds escaped other) s)⟩

theorem endsItems_of_fails (failed : bracketItem.result t = none) : EndsItems t := by
  by_contra goes
  obtain ⟨lo, middle, first⟩ := bracketUnit_total goes
  obtain ⟨item, rest, second⟩ := rangeFrom_total lo middle
  have single : (do let lo ← bracketUnit; rangeFrom lo).result t = some (item, rest) :=
    bind_of_read first second
  rw [bracketItem_result, itemFrom, result_orElse, single] at failed
  cases (Option.or_eq_none_iff.1 failed).2

/-- Units and escapes in front of a closing bracket are all that stands in front of where items
end. -/
theorem eq_of_endsItems {b x r : Text} (inside : BracketText b) (taken : BracketText x)
    (parts : b ++ unit ']' :: rest = x ++ r) (ends : EndsItems r) : r = unit ']' :: rest := by
  induction inside generalizing x with
  | nil =>
    cases taken with
    | nil => exact parts.symm
    | plain _ closes _ => exact absurd (List.cons.inj parts).1.symm closes
    | escape v _ => exact absurd (List.cons.inj parts).1 (by decide)
  | @plain u b escape closes _ ih =>
    cases taken with
    | nil =>
      rw [List.nil_append] at parts
      subst parts
      obtain none | closing | last := ends
      · cases none
      · exact absurd (Option.some.inj closing) closes
      · exact absurd (List.cons.inj last).1 escape
    | plain _ _ taken => exact ih taken (List.cons.inj parts).2
    | escape _ _ => exact absurd (List.cons.inj parts).1 escape
  | @escape v b _ ih =>
    cases taken with
    | nil =>
      rw [List.nil_append] at parts
      subst parts
      obtain none | closing | last := ends
      · cases none
      · exact absurd (Option.some.inj closing) (by decide)
      · cases last
    | plain escape _ _ => exact absurd (List.cons.inj parts).1.symm escape
    | escape _ taken => exact ih taken (List.cons.inj (List.cons.inj parts).2).2

/-- The items of a set are read up to the bracket that closes it. -/
theorem bracketItems_closed {b : Text} (inside : BracketText b) (rest : Text) :
    ∃ items, (many bracketItem).result (b ++ unit ']' :: rest) = some (items, unit ']' :: rest) := by
  obtain ⟨items, r, read⟩ : ∃ items r,
      (many bracketItem).result (b ++ unit ']' :: rest) = some (items, r) := ⟨_, _, rfl⟩
  obtain ⟨x, parts, taken⟩ := shaped_bracketItems read
  have stops := ((many_eq_some advances_bracketItem).1 read).stops
  obtain rfl := eq_of_endsItems inside taken parts (endsItems_of_fails stops)
  exact ⟨items, read⟩

end Items

/-! ## What stands between the brackets -/

/-- The mark of negation of a set. -/
def setMark (negated : Bool) : Text := if negated then "^" else []

/-- A closing bracket that stands for itself, as a text and as an item. -/
def setLead (leads : Bool) : Text := if leads then "]" else []

def leadItems (leads : Bool) : List ClassItem :=
  if leads then [.range (unit ']') (unit ']')] else []

section Fronts

variable {t rest : Text}

theorem mark_iff {negated : Bool} :
    (∃ found, (Reader.optional (literal "^")).result t = some (found, rest) ∧
      found.isSome = negated) ↔
    t = setMark negated ++ rest ∧ (negated = false → rest.head? ≠ some (unit '^')) := by
  constructor
  · rintro ⟨found, read, rfl⟩
    obtain ⟨u, rfl, mark⟩ | ⟨rfl, failed, rfl⟩ := optional_eq_some.1 read
    · exact ⟨literal_eq_some.1 mark, nofun⟩
    · exact ⟨rfl, fun _ => head_ne_of_literal failed⟩
  · rintro ⟨rfl, unmarked⟩
    cases negated with
    | true => exact ⟨_, optional_of_read (literal_append "^" rest), rfl⟩
    | false => exact ⟨_, optional_of_fail (literal_differs (unmarked rfl) rfl), rfl⟩

theorem lead_iff {items : List ClassItem} :
    (∃ found, (Reader.optional leadingBracket).result t = some (found, rest) ∧
      found.toList = items) ↔
    ∃ leads, t = setLead leads ++ rest ∧ (leads = false → rest.head? ≠ some (unit ']')) ∧
      items = leadItems leads := by
  constructor
  · rintro ⟨found, read, rfl⟩
    obtain ⟨item, rfl, lead⟩ | ⟨rfl, failed, rfl⟩ := optional_eq_some.1 read
    · obtain ⟨_, _, opens, rfl, rfl⟩ := bind_eq_some.1 lead
      exact ⟨true, literal_eq_some.1 opens, nofun, rfl⟩
    · refine ⟨false, rfl, fun _ closes => ?_, rfl⟩
      obtain ⟨rest, rfl⟩ := List.head?_eq_some_iff.1 closes
      cases failed
  · rintro ⟨leads, rfl, unled, rfl⟩
    cases leads with
    | true => exact ⟨_, optional_of_read (bind_of_read (literal_append "]" rest) rfl), rfl⟩
    | false =>
      exact ⟨_, optional_of_fail (bind_of_fail (literal_differs (unled rfl) rfl)), rfl⟩

end Fronts

/-- Units and escapes that may stand behind the mark and the leading bracket. -/
structure SetBody (negated leads : Bool) (b : Text) : Prop where
  inside : BracketText b
  unmarked : negated = false → leads = false → b.head? ≠ some (unit '^')
  filled : leads = false → b ≠ []

/-- The text of a set, in front of a rest. -/
def setText (negated leads : Bool) (b rest : Text) : Text :=
  "[" ++ (setMark negated ++ (setLead leads ++ (b ++ unit ']' :: rest)))

/-- A set is told by its text, and its items are read between the brackets. -/
theorem bracketed_eq_some {t rest : Text} {a : Pattern} : bracketed.result t = some (a, rest) ↔
    ∃ negated leads b items, SetBody negated leads b ∧ t = setText negated leads b rest ∧
      (many bracketItem).result (b ++ unit ']' :: rest) = some (items, unit ']' :: rest) ∧
      a = .set negated (leadItems leads ++ items) := by
  constructor
  · intro read
    obtain ⟨_, middle, opens, further⟩ := bind_eq_some.1 read
    obtain ⟨set, last, inside, further⟩ := bind_eq_some.1 further
    obtain ⟨_, _, closes, rfl, rfl⟩ := bind_eq_some.1 further
    obtain ⟨mark, _, marks, further⟩ := bind_eq_some.1 inside
    obtain ⟨lead, _, leading, further⟩ := bind_eq_some.1 further
    obtain ⟨items, _, reads, rfl, rfl⟩ := bind_eq_some.1 further
    obtain rfl := literal_eq_some.1 opens
    obtain rfl := literal_eq_some.1 closes
    obtain ⟨b, rfl, units⟩ := shaped_bracketItems reads
    obtain ⟨leads, rfl, unled, led⟩ := lead_iff.1 ⟨lead, leading, rfl⟩
    obtain ⟨rfl, unmarked⟩ := mark_iff.1 ⟨mark, marks, rfl⟩
    have filled (none : leads = false) : b ≠ [] := by
      rintro rfl
      exact unled none rfl
    refine ⟨mark.isSome, leads, b, items, ⟨units, ?_, filled⟩, rfl, reads, by rw [led]⟩
    rintro plain rfl marked
    obtain ⟨b, rfl⟩ := List.head?_eq_some_iff.1 marked
    exact unmarked plain rfl
  · rintro ⟨negated, leads, b, items, body, rfl, reads, rfl⟩
    have unled (none : leads = false) : (b ++ unit ']' :: rest).head? ≠ some (unit ']') := by
      obtain ⟨u, b, rfl⟩ := List.exists_cons_of_ne_nil (body.filled none)
      cases body.inside with
      | plain _ closes _ => exact fun same => closes (Option.some.inj same)
      | escape _ _ => exact fun same => absurd (Option.some.inj same) (by decide)
    have unmarked (plain : negated = false) :
        (setLead leads ++ (b ++ unit ']' :: rest)).head? ≠ some (unit '^') := by
      cases leads with
      | true => exact nofun
      | false =>
        obtain ⟨u, b, rfl⟩ := List.exists_cons_of_ne_nil (body.filled rfl)
        exact body.unmarked plain rfl
    obtain ⟨mark, marks, rfl⟩ := mark_iff.2 ⟨rfl, unmarked⟩
    obtain ⟨lead, leading, led⟩ := lead_iff.2 ⟨leads, rfl, unled, rfl⟩
    rw [← led]
    exact bind_of_read (literal_append "[" _) <| bind_of_read (bind_of_read marks <|
      bind_of_read leading <| bind_of_read reads rfl) <| bind_of_read (literal_append "]" rest) rfl

end Grammar

end Highlight
