import Highlight.Proofs.Dialect.Opening
import Highlight.Proofs.Pattern.Terminals

/-!
# Reading the same text in another context

What a reader takes can depend on what stands behind it. A rule of the grammar without parentheses
never goes beyond one (`Reader.StaysBefore`), be it opening or closing, or goes beyond it only by
taking it as an escaped unit (`Reader.Indifferent`). Either way, where such a rule stops at or before
the parenthesis, it reads the same in front of every other continuation. A set is delimited by its
brackets, so it reads the same wherever it stands (`Grammar.bracketed_append`). `Rounds.carry` hands
this on to repeated reading.
-/

namespace Highlight

/-- A part of a text that leaves more than what stands behind the unit lies in front of it. -/
theorem split_before {m : CodeUnit} {z x r middle : Text} (parts : z ++ m :: r = x ++ middle)
    (long : r.length < middle.length) : ∃ y, z = x ++ y ∧ middle = y ++ m :: r := by
  obtain ⟨y, rfl, rest⟩ | ⟨y, rfl, rest⟩ := List.append_eq_append_iff.1 parts
  · cases y with
    | nil => exact ⟨[], (List.append_nil _).symm.trans (List.append_nil _).symm, rest.symm⟩
    | cons u y =>
      have same : r = y ++ middle := (List.cons.inj rest).2
      rw [same, List.length_append] at long
      omega
  · exact ⟨y, rfl, rest⟩

namespace Reader

variable {α β : Type} {p q : Reader α} {f : α → Reader β} {m : CodeUnit}

/-- The same outcome in two contexts, with the rest up to them unchanged. -/
def Alike (m : CodeUnit) (r r' : Text) (outcome outcome' : Option (α × Text)) : Prop :=
  (outcome = none ∧ outcome' = none) ∨
    ∃ a y, outcome = some (a, y ++ m :: r) ∧ outcome' = some (a, y ++ m :: r')

/-- The reader never takes the unit, and what stands behind it makes no difference. -/
def StaysBefore (m : CodeUnit) (p : Reader α) : Prop :=
  ∀ z r r', Alike m r r' (p.result (z ++ m :: r)) (p.result (z ++ m :: r'))

/-- What stands behind the unit makes no difference, unless the reader takes the unit itself. -/
def Indifferent (m : CodeUnit) (p : Reader α) : Prop :=
  ∀ z r r', Alike m r r' (p.result (z ++ m :: r)) (p.result (z ++ m :: r')) ∨
    ∃ a rest, p.result (z ++ m :: r) = some (a, rest) ∧ rest.length ≤ r.length

theorem StaysBefore.indifferent (stays : StaysBefore m p) : Indifferent m p :=
  fun z r r' => .inl (stays z r r')

/-- What is read at or before the unit is read in every context. -/
theorem Indifferent.carry (indifferent : Indifferent m p) {z r middle : Text} {a : α}
    (read : p.result (z ++ m :: r) = some (a, middle)) (long : r.length < middle.length) (r' : Text) :
    ∃ y, middle = y ++ m :: r ∧ p.result (z ++ m :: r') = some (a, y ++ m :: r') := by
  obtain (⟨failed, _⟩ | ⟨b, y, read', carried⟩) | ⟨b, rest, read', short⟩ := indifferent z r r'
  · cases failed.symm.trans read
  · cases read.symm.trans read'
    exact ⟨y, rfl, carried⟩
  · cases read.symm.trans read'
    omega

theorem StaysBefore.carry (stays : StaysBefore m p) {z r middle : Text} {a : α}
    (read : p.result (z ++ m :: r) = some (a, middle)) :
    ∃ y, middle = y ++ m :: r ∧ ∀ r', p.result (z ++ m :: r') = some (a, y ++ m :: r') := by
  obtain ⟨failed, _⟩ | ⟨_, y, read', _⟩ := stays z r r
  · cases failed.symm.trans read
  · cases read.symm.trans read'
    refine ⟨y, rfl, fun r' => ?_⟩
    obtain ⟨failed, _⟩ | ⟨_, w, read', carried⟩ := stays z r r'
    · cases failed.symm.trans read
    · obtain ⟨rfl, same⟩ := Prod.mk.inj (Option.some.inj (read.symm.trans read'))
      rwa [List.append_cancel_right same]

section Rules

theorem stays_pure (a : α) : StaysBefore m (pure a : Reader α) :=
  fun z _ _ => .inr ⟨a, z, rfl, rfl⟩

theorem stays_bind (first : StaysBefore m p) (second : ∀ a, StaysBefore m (f a)) :
    StaysBefore m (p >>= f) := by
  intro z r r'
  rw [result_bind, result_bind]
  obtain ⟨failed, failed'⟩ | ⟨a, y, read, read'⟩ := first z r r'
  · rw [failed, failed']
    exact .inl ⟨rfl, rfl⟩
  · rw [read, read']
    exact second a y r r'

theorem stays_orElse (first : StaysBefore m p) (second : StaysBefore m q) :
    StaysBefore m (p <|> q) := by
  intro z r r'
  rw [result_orElse, result_orElse]
  obtain ⟨failed, failed'⟩ | ⟨a, y, read, read'⟩ := first z r r'
  · rw [failed, failed']
    exact second z r r'
  · rw [read, read']
    exact .inr ⟨a, y, rfl, rfl⟩

theorem stays_value {g : α → β} (stays : StaysBefore m p) :
    StaysBefore m (do let a ← p; pure (g a)) :=
  stays_bind stays fun _ => stays_pure _

theorem stays_optional (stays : StaysBefore m p) : StaysBefore m (optional p) :=
  stays_orElse (stays_value stays) (stays_pure _)

theorem stays_literal {text : Text} (avoids : m ∉ text) : StaysBefore m (literal text) := by
  intro z r r'
  by_cases begins : text <+: z
  · obtain ⟨y, rfl⟩ := begins
    refine .inr ⟨(), y, ?_, ?_⟩ <;> rw [List.append_assoc] <;> exact literal_append text _
  · have failed (r : Text) : (literal text).result (z ++ m :: r) = none :=
      literal_eq_none.2 fun whole => begins (prefix_of_prefix_append_cons whole avoids)
    exact .inl ⟨failed r, failed r'⟩

theorem stays_oneOf {members : UnitClass} (out : members.holds m = false) :
    StaysBefore m (oneOf members) := by
  intro z r r'
  cases z with
  | nil =>
    exact .inl ⟨oneOf_fail out r, oneOf_fail out r'⟩
  | cons u z =>
    by_cases member : members.holds u = true
    · exact .inr ⟨u, z, oneOf_cons member _, oneOf_cons member _⟩
    · exact .inl ⟨if_neg member, if_neg member⟩

theorem Rounds.length_le (advances : Advances p) {t rest : Text} {as : List α}
    (rounds : Rounds p t as rest) : rest.length ≤ t.length := by
  induction rounds with
  | stop => exact Nat.le_refl _
  | more read _ ih => exact Nat.le_trans ih (Nat.le_of_lt (advances read))

/-- Repeated reading up to a place before the unit is the same in another context, and perhaps
with another reader, if each round is and the reader fails at that place. `inv` is what a round
leaves for the next one. -/
theorem Rounds.carry {p' : Reader α} {inv : Text → Prop} (advances : Advances p) {r r' y : Text}
    (step : ∀ {z middle a}, inv z → p.result (z ++ m :: r) = some (a, middle) →
      r.length < middle.length → (middle = y ++ m :: r ∨ (p.result middle).isSome = true) →
      ∃ w, middle = w ++ m :: r ∧ inv w ∧ p'.result (z ++ m :: r') = some (a, w ++ m :: r'))
    (stop : p'.result (y ++ m :: r') = none) {t z : Text} {as : List α} (front : t = z ++ m :: r)
    (holds : inv z) {rest : Text} (back : rest = y ++ m :: r) (rounds : Rounds p t as rest) :
    Rounds p' (z ++ m :: r') as (y ++ m :: r') ∧ inv y := by
  induction rounds generalizing z with
  | stop failed =>
    obtain rfl := List.append_cancel_right (front.symm.trans back)
    exact ⟨.stop stop, holds⟩
  | @more t middle rest a as read later ih =>
    rw [front] at read
    have long : r.length < middle.length := by
      have := later.length_le advances
      rw [back, List.length_append, List.length_cons] at this
      omega
    have next : middle = y ++ m :: r ∨ (p.result middle).isSome = true := by
      cases later with
      | stop => exact .inl back
      | more read => exact .inr (by rw [read]; rfl)
    obtain ⟨w, same, kept, carried⟩ := step holds read long next
    obtain ⟨further, last⟩ := ih same kept back
    exact ⟨.more carried further, last⟩

theorem StaysBefore.rounds (stays : StaysBefore m p) (advances : Advances p) (r r' : Text) :
    ∀ z : Text, ∃ as y, Rounds p (z ++ m :: r) as (y ++ m :: r) ∧
      Rounds p (z ++ m :: r') as (y ++ m :: r')
  | z => by
    obtain ⟨failed, failed'⟩ | ⟨a, y, read, read'⟩ := stays z r r'
    · exact ⟨[], z, .stop failed, .stop failed'⟩
    · have shorter : y.length < z.length := by
        have := advances read
        simp only [List.length_append] at this
        omega
      obtain ⟨as, w, later, later'⟩ := stays.rounds advances r r' y
      exact ⟨a :: as, w, .more read later, .more read' later'⟩
  termination_by z => z.length

theorem stays_many (stays : StaysBefore m p) (advances : Advances p) : StaysBefore m (many p) := by
  intro z r r'
  obtain ⟨as, y, rounds, rounds'⟩ := stays.rounds advances r r' z
  exact .inr ⟨as, y, (many_eq_some advances).2 rounds, (many_eq_some advances).2 rounds'⟩

theorem stays_atLeastOnce (stays : StaysBefore m p) (advances : Advances p) :
    StaysBefore m (atLeastOnce p) :=
  stays_bind stays fun _ => stays_value (stays_many stays advances)

theorem indifferent_bind (first : StaysBefore m p) (second : ∀ a, Indifferent m (f a)) :
    Indifferent m (p >>= f) := by
  intro z r r'
  rw [result_bind, result_bind]
  obtain ⟨failed, failed'⟩ | ⟨a, y, read, read'⟩ := first z r r'
  · rw [failed, failed']
    exact .inl (.inl ⟨rfl, rfl⟩)
  · rw [read, read']
    exact second a y r r'

theorem indifferent_orElse (first : Indifferent m p) (second : Indifferent m q) :
    Indifferent m (p <|> q) := by
  intro z r r'
  rw [result_orElse, result_orElse]
  obtain (⟨failed, failed'⟩ | ⟨a, y, read, read'⟩) | ⟨a, rest, read, short⟩ := first z r r'
  · rw [failed, failed']
    exact second z r r'
  · rw [read, read']
    exact .inl (.inr ⟨a, y, rfl, rfl⟩)
  · rw [read]
    exact .inr ⟨a, rest, rfl, short⟩

/-- A reader that takes the unit is followed by one that cannot fail and that adds nothing to the
text. -/
theorem Indifferent.bind_total (first : Indifferent m p) (second : ∀ a, Indifferent m (f a))
    (total : ∀ a t, ∃ b rest, (f a).result t = some (b, rest) ∧ rest.length ≤ t.length) :
    Indifferent m (p >>= f) := by
  intro z r r'
  rw [result_bind, result_bind]
  obtain (⟨failed, failed'⟩ | ⟨a, y, read, read'⟩) | ⟨a, rest, read, short⟩ := first z r r'
  · rw [failed, failed']
    exact .inl (.inl ⟨rfl, rfl⟩)
  · rw [read, read']
    exact second a y r r'
  · obtain ⟨b, last, read', le⟩ := total a rest
    rw [read]
    exact .inr ⟨b, last, read', Nat.le_trans le short⟩

theorem Indifferent.value {g : α → β} (indifferent : Indifferent m p) :
    Indifferent m (do let a ← p; pure (g a)) :=
  indifferent.bind_total (fun _ => (stays_pure _).indifferent)
    fun _ t => ⟨_, t, rfl, Nat.le_refl _⟩

theorem indifferent_anyUnit : Indifferent m anyUnit := by
  intro z r r'
  cases z with
  | nil => exact .inr ⟨m, r, rfl, Nat.le_refl _⟩
  | cons u z => exact .inl (.inr ⟨u, z, rfl, rfl⟩)

theorem indifferent_optional (indifferent : Indifferent m p) : Indifferent m (optional p) :=
  indifferent_orElse indifferent.value (stays_pure _).indifferent

theorem indifferent_literal (m : CodeUnit) : Indifferent m (literal [m]) := by
  intro z r r'
  cases z with
  | nil => exact .inr ⟨(), r, literal_append [m] r, Nat.le_refl _⟩
  | cons u z =>
    by_cases same : u = m
    · subst same
      exact .inl (.inr ⟨(), z, literal_append [u] _, literal_append [u] _⟩)
    · have failed (r : Text) : (literal [m]).result (u :: z ++ m :: r) = none :=
        literal_eq_none.2 fun begins => same (List.cons_prefix_cons.1 begins).1.symm
      exact .inl (.inl ⟨failed r, failed r'⟩)

end Rules

end Reader

namespace Grammar

open Reader

/-- A set ends at its bracket, and a group lies between its parentheses. -/
def IsBracket (m : CodeUnit) : Prop := m = unit ']' ∨ m = unit '(' ∨ m = unit ')'

instance (m : CodeUnit) : Decidable (IsBracket m) := inferInstanceAs (Decidable (_ ∨ _))

/-- A text without a parenthesis and without the end of a set. -/
def Bracketless (x : Text) : Prop := ∀ u ∈ x, ¬ IsBracket u

instance (x : Text) : Decidable (Bracketless x) := List.decidableBAll (fun u => ¬ IsBracket u) x

section Escapes

variable {m : CodeUnit} (bracket : IsBracket m)

include bracket

theorem IsBracket.stays_literal {text : Text} (avoids : Bracketless text) :
    StaysBefore m (literal text) :=
  Reader.stays_literal fun inside => avoids m inside bracket

/-- None of the brackets is a unit of the class. -/
theorem IsBracket.stays_oneOf {members : UnitClass} (out : members.holds (unit ']') = false ∧
    members.holds (unit '(') = false ∧ members.holds (unit ')') = false) :
    StaysBefore m (oneOf members) := by
  obtain rfl | rfl | rfl := bracket
  · exact Reader.stays_oneOf out.1
  · exact Reader.stays_oneOf out.2.1
  · exact Reader.stays_oneOf out.2.2

theorem indifferent_escapedUnit : Indifferent m escapedUnit := by
  have control (v value : CodeUnit) (avoids : Bracketless [v]) :
      Indifferent m (controlLetter [v] value) :=
    (stays_value (bracket.stays_literal avoids)).indifferent
  have digit : StaysBefore m (oneOf .hexDigit) := bracket.stays_oneOf (by decide)
  have coded (v : CodeUnit) (avoids : Bracketless [v])
      {p : Reader CodeUnit} (digits : StaysBefore m p) : Indifferent m (do literal [v]; p) :=
    (stays_bind (bracket.stays_literal avoids) fun _ => digits).indifferent
  refine indifferent_orElse (control _ _ (by decide)) (indifferent_orElse
    (control _ _ (by decide)) (indifferent_orElse (control _ _ (by decide))
    (indifferent_orElse (control _ _ (by decide)) (indifferent_orElse
    (control _ _ (by decide)) (indifferent_orElse (control _ _ (by decide))
    (indifferent_orElse (coded _ (by decide) ?_) (indifferent_orElse
    (coded _ (by decide) ?_) indifferent_anyUnit)))))))
  · exact stays_bind digit fun _ => stays_value digit
  · exact stays_bind digit fun _ => stays_bind digit fun _ => stays_bind digit fun _ =>
      stays_value digit

theorem stays_backslash : StaysBefore m (literal "\\") := bracket.stays_literal (by decide)

theorem indifferent_escape : Indifferent m escape :=
  indifferent_bind (stays_backslash bracket) fun _ => indifferent_escapedUnit bracket

theorem stays_namedClass : StaysBefore m namedClass :=
  stays_bind (stays_backslash bracket) fun _ => stays_value (bracket.stays_oneOf (by decide))

theorem stays_quantifier : StaysBefore m quantifier := by
  have mark (text : Text) (avoids : Bracketless text) : StaysBefore m (literal text) :=
    bracket.stays_literal avoids
  have digit : StaysBefore m (oneOf .digit) := bracket.stays_oneOf (by decide)
  have number : StaysBefore m integer := stays_value (stays_atLeastOnce digit (advances_oneOf _))
  refine stays_bind ?_ fun _ => stays_value (stays_optional (mark _ (by decide)))
  refine stays_orElse (stays_value (mark _ (by decide))) (stays_orElse (stays_value
    (mark _ (by decide))) (stays_orElse (stays_value (mark _ (by decide))) (stays_orElse ?_
    (stays_orElse ?_ (stays_orElse ?_ ?_)))))
  · exact stays_bind (mark _ (by decide)) fun _ => stays_bind number fun _ =>
      stays_bind (mark _ (by decide)) fun _ => stays_bind number fun _ =>
      stays_value (mark _ (by decide))
  all_goals exact stays_bind (mark _ (by decide)) fun _ => stays_bind number fun _ =>
    stays_value (mark _ (by decide))

theorem stays_name : StaysBefore m name :=
  stays_bind (bracket.stays_oneOf (by decide)) fun _ =>
    stays_value (stays_many (bracket.stays_oneOf (by decide)) (advances_oneOf _))

end Escapes

section Sets

theorem indifferent_bracketUnit : Indifferent (unit ']') bracketUnit :=
  indifferent_orElse (indifferent_escape (.inl rfl)) (stays_oneOf (by decide)).indifferent

/-- The second end of a range, if there is one. -/
def rangeFrom (lo : CodeUnit) : Reader ClassItem :=
  (do literal "-"; let hi ← bracketUnit; pure (.range lo hi)) <|> pure (.range lo lo)

/-- An item of a set, with the first unit of a range read once. -/
def itemFrom : Reader ClassItem :=
  (do let name ← namedClass; pure (.named name)) <|> (do let lo ← bracketUnit; rangeFrom lo)

/-- A range and a single unit begin with the same unit. -/
theorem bracketItem_result (t : Text) : bracketItem.result t = itemFrom.result t := by
  unfold bracketItem itemFrom rangeFrom
  simp only [result_orElse, result_bind]
  cases bracketUnit.result t <;> rfl

theorem indifferent_bracketItem : Indifferent (unit ']') bracketItem := by
  have range (lo : CodeUnit) : Indifferent (unit ']') (rangeFrom lo) :=
    indifferent_orElse (indifferent_bind (stays_literal (by decide)) fun _ =>
      indifferent_bracketUnit.value) (stays_pure _).indifferent
  have hyphen : Shaped (literal "-") fun _ => True := shaped_literal trivial
  have shaped (lo : CodeUnit) : Shaped (rangeFrom lo) fun _ => True :=
    takes_orElse (shaped_bind hyphen (fun _ => shaped_value shaped_bracketUnit) fun _ _ => trivial)
      (takes_pure fun _ => trivial)
  have total (lo : CodeUnit) (t : Text) :
      ∃ item rest, (rangeFrom lo).result t = some (item, rest) ∧ rest.length ≤ t.length := by
    obtain ⟨⟨item, rest⟩, read⟩ := Option.isSome_iff_exists.1
      (show ((rangeFrom lo).result t).isSome = true by
        rw [rangeFrom, result_orElse, Option.isSome_or]
        exact Bool.or_true _)
    exact ⟨item, rest, read, (shaped lo).length_le read⟩
  have named : StaysBefore (unit ']') (do let name ← namedClass; pure (ClassItem.named name)) :=
    stays_value (stays_namedClass (.inl rfl))
  have whole : Indifferent (unit ']') itemFrom :=
    indifferent_orElse named.indifferent (indifferent_bracketUnit.bind_total range total)
  intro z r r'
  rw [bracketItem_result, bracketItem_result]
  exact whole z r r'

theorem bracketItem_closed (r : Text) : bracketItem.result (unit ']' :: r) = none := by rfl

/-- The inside of a set is read up to the bracket, whatever stands behind that. -/
theorem bracketBody_carry {z r : Text} {a : Pattern}
    (read : bracketBody.result (z ++ unit ']' :: r) = some (a, unit ']' :: r)) (r' : Text) :
    bracketBody.result (z ++ unit ']' :: r') = some (a, unit ']' :: r') := by
  obtain ⟨negated, afterMark, mark, further⟩ := bind_eq_some.1 read
  obtain ⟨first, afterFirst, lead, further⟩ := bind_eq_some.1 further
  obtain ⟨items, _, reads, rfl, rfl⟩ := bind_eq_some.1 further
  have long : r.length < afterFirst.length := shaped_bracketItems.length_le reads
  have longer : r.length < afterMark.length := Nat.lt_of_lt_of_le long (takes_leading.length_le lead)
  have stays : StaysBefore (unit ']') (literal "^") := stays_literal (by decide)
  obtain ⟨y, rfl, mark'⟩ := (indifferent_optional stays.indifferent).carry mark longer r'
  have closing : Indifferent (unit ']') leadingBracket := (indifferent_literal (unit ']')).value
  obtain ⟨w, rfl, lead'⟩ := (indifferent_optional closing).carry lead long r'
  have rounds := (many_eq_some advances_bracketItem).1 reads
  have step {z middle : Text} {item : ClassItem} (_ : True)
      (read : bracketItem.result (z ++ unit ']' :: r) = some (item, middle))
      (long : r.length < middle.length)
      (_ : middle = [] ++ unit ']' :: r ∨ (bracketItem.result middle).isSome = true) :
      ∃ w, middle = w ++ unit ']' :: r ∧ True ∧
        bracketItem.result (z ++ unit ']' :: r') = some (item, w ++ unit ']' :: r') := by
    obtain ⟨w, same, read'⟩ := indifferent_bracketItem.carry read long r'
    exact ⟨w, same, trivial, read'⟩
  have rounds' := (Rounds.carry advances_bracketItem step (bracketItem_closed r') rfl trivial rfl
    rounds).1
  have reads' := (many_eq_some advances_bracketItem).2 rounds'
  exact bind_of_read mark' (bind_of_read lead' (bind_of_read reads' rfl))

/-- What a set is does not depend on what stands behind it. -/
theorem bracketed_append {x r : Text} {a : Pattern} (read : bracketed.result (x ++ r) = some (a, r))
    (r' : Text) : bracketed.result (x ++ r') = some (a, r') := by
  obtain ⟨_, middle, opens, further⟩ := bind_eq_some.1 read
  obtain ⟨set, last, inside, further⟩ := bind_eq_some.1 further
  obtain ⟨_, _, closes, rfl, rfl⟩ := bind_eq_some.1 further
  have opened := literal_eq_some.1 opens
  obtain rfl := literal_eq_some.1 closes
  obtain ⟨b, rfl, _⟩ := takes_bracketBody inside
  have whole : x = "[" ++ (b ++ "]") := by
    rw [← List.append_assoc, ← List.append_assoc] at opened
    rw [List.append_cancel_right opened, List.append_assoc]
  rw [whole, List.append_assoc, List.append_assoc]
  exact bind_of_read (literal_append _ _) <| bind_of_read (bracketBody_carry inside r') <|
    bind_of_read (literal_append _ _) rfl

end Sets

section Parentheses

variable {m : CodeUnit} (paren : m = unit '(' ∨ m = unit ')')

include paren

theorem indifferent_short : Indifferent m short := by
  have bracket : IsBracket m := .inr paren
  have mark (text : Text) (avoids : Bracketless text) : StaysBefore m (literal text) :=
    bracket.stays_literal avoids
  have backslash := stays_backslash bracket
  have plain : StaysBefore m (oneOf .plain) := by
    obtain rfl | rfl := paren <;> exact stays_oneOf (by decide)
  have escaped : Indifferent m escapedAtom := by
    refine indifferent_orElse (stays_value (stays_namedClass bracket)).indifferent
      (indifferent_orElse (stays_bind backslash fun _ =>
        stays_value (bracket.stays_oneOf (by decide))).indifferent
      (indifferent_orElse (stays_bind (mark _ (by decide)) fun _ =>
        stays_bind (stays_name bracket) fun _ => stays_value (mark _ (by decide))).indifferent
      (indifferent_orElse (stays_bind backslash fun _ =>
        stays_bind (bracket.stays_oneOf (by decide)) fun _ =>
        stays_value (stays_optional (bracket.stays_oneOf (by decide)))).indifferent
      (indifferent_escape bracket).value)))
  refine indifferent_orElse (stays_value (mark _ (by decide))).indifferent
    (indifferent_orElse (stays_value (mark _ (by decide))).indifferent
    (indifferent_orElse (stays_value (mark _ (by decide))).indifferent
    (indifferent_orElse escaped (stays_value plain).indifferent)))

/-- An atom that holds no pattern is told from its first unit, and it reads the same in front of
every continuation of the parenthesis behind it. -/
theorem leaf_carry {z r middle : Text} {a : Pattern}
    (read : (bracketed <|> short).result (z ++ m :: r) = some (a, middle))
    (long : r.length < middle.length) (r' : Text) : ∃ y, middle = y ++ m :: r ∧
      (bracketed <|> short).result (z ++ m :: r') = some (a, y ++ m :: r') := by
  obtain set | ⟨_, single⟩ := orElse_eq_some.1 read
  · obtain ⟨x, parts, _⟩ := takes_bracketed set
    obtain ⟨y, rfl, rfl⟩ := split_before parts long
    rw [List.append_assoc] at set ⊢
    exact ⟨y, rfl, orElse_of_read (bracketed_append set _)⟩
  · obtain ⟨y, same, single'⟩ := (indifferent_short paren).carry single long r'
    have noSet : bracketed.result (z ++ m :: r') = none := by
      cases z with
      | nil => obtain rfl | rfl := paren <;> rfl
      | cons u z =>
        have other : u ≠ unit '[' := by
          rintro rfl
          cases single
        exact bind_eq_none.2 fun _ _ opens =>
          absurd (List.cons.inj (literal_eq_some.1 opens)).1 other
    exact ⟨y, same, orElse_of_fail noSet single'⟩

end Parentheses

end Grammar

end Highlight
