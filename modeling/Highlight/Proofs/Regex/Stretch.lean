import Highlight.Proofs.Regex.Reach
import Highlight.Proofs.Regex.Uncaptured

/-!
# Matching a stretch of a text alone

An expression that takes the text unit by unit, without looking at what stands around, matches a
stretch of a text in the same way when the stretch is cut out (`Stretch.matchAt_alone`): with the
same captures, counted from the start of the stretch. The run over the text and the run over the
stretch go through the same states as long as the first one stays inside the stretch; once it has
left, it cannot come back.
-/

namespace Highlight.Regex

/-- The expression takes the text unit by unit: it refers to no group, and nothing in it asks where
a line or a word begins or ends, or what stands around. -/
def byUnits : Regex → Bool
  | empty | set _ => true
  | seq a b | alt a b => a.byUnits && b.byUnits
  | capture _ body | repeated body _ _ _ => body.byUnits
  | backref _ | lineStart | lineEnd | boundary _ | look .. => false

theorem refersBack_of_byUnits {e : Regex} (byUnits : e.byUnits = true) : e.refersBack = false := by
  induction e with
  | empty | set => rfl
  | seq a b first second | alt a b first second =>
    obtain ⟨left, right⟩ := Bool.and_eq_true_iff.1 byUnits
    exact Bool.or_eq_false_iff.2 ⟨first left, second right⟩
  | capture index body inner => exact inner byUnits
  | repeated body least most greedy inner => exact inner byUnits
  | backref | lineStart | lineEnd | boundary | look => cases byUnits

/-! ## States of a text and of a stretch -/

/-- The state with all places counted from `start` units before. -/
def State.shift (start : Nat) (s : State) : State :=
  ⟨start + s.position, s.spans.map fun (index, first, last) => (index, start + first, start + last)⟩

namespace State

theorem shift_record (start : Nat) (s : State) (index first last : Nat) :
    (s.shift start).record index (start + first) (start + last) =
      (s.record index first last).shift start := by
  unfold record shift
  rw [List.map_cons, Nat.add_min_add_left, Nat.add_max_add_left]

theorem shift_forget (start : Nat) (s : State) (indices : List Nat) :
    (s.shift start).forget indices = (s.forget indices).shift start := by
  unfold forget shift
  rw [List.filter_map]
  rfl

/-- The same groups took part. -/
theorem isSome_span?_shift (start : Nat) (s : State) (index : Nat) :
    ((s.shift start).span? index).isSome = (s.span? index).isSome := by
  obtain ⟨position, spans⟩ := s
  unfold span? shift
  dsimp only
  induction spans with
  | nil => rfl
  | cons span spans ih =>
    rw [List.map_cons, List.lookup_cons, List.lookup_cons]
    cases index == span.1
    · exact ih
    · rfl

end State

/-- The second text is the part of the first one that begins at a place. -/
structure Stretch (text part : Array CodeUnit) (start : Nat) : Prop where
  inside : start + part.size ≤ text.size
  same : ∀ place < part.size, text[start + place]? = part[place]?

/-- What was found in a text beside what was found in a stretch of it: the same, unless the first
match goes on behind the stretch. -/
inductive Alone (start size : Nat) : Option State → Option State → Prop where
  | failed : Alone start size none none
  | same (s : State) : Alone start size (some (s.shift start)) (some s)
  | beyond {found : State} (past : start + size < found.position) (alone : Option State) :
    Alone start size (some found) alone

/-- No continuation finds anything before the place that it goes on from. -/
def Climbs (text : Array CodeUnit) (next : Next) : Prop :=
  ∀ s found, s.position ≤ text.size → next s = some found → s.position ≤ found.position

/-- Two continuations that go on alike, from a place of the stretch on. -/
structure Continues (text part : Array CodeUnit) (start place : Nat) (next next' : Next) :
    Prop where
  alone : ∀ s : State, place ≤ s.position → s.position ≤ part.size →
    Alone start part.size (next (s.shift start)) (next' s)
  climbs : Climbs text next

/-- Two ways to match that go through the same states while they are inside the stretch. -/
def Restricts (text part : Array CodeUnit) (start : Nat)
    (once once' : State → Next → Option State) : Prop :=
  ∀ (s : State) next next', s.position ≤ part.size →
    Continues text part start s.position next next' →
    Alone start part.size (once (s.shift start) next) (once' s next')

variable {text part : Array CodeUnit} {start size place place' : Nat} {next next' : Next}
  {once once' : State → Next → Option State} {x x' y y' : Option State}

theorem Alone.either : Alone start size x x' → Alone start size y y' →
    Alone start size (match x with | some found => some found | none => y)
      (match x' with | some found => some found | none => y') := by
  intro first second
  cases first with
  | failed => exact second
  | same s => exact .same s
  | beyond past => exact .beyond past _

theorem Alone.ite {p : Prop} [Decidable p] (yes : p → Alone start size x x')
    (no : ¬p → Alone start size y y') :
    Alone start size (if p then x else y) (if p then x' else y') :=
  rel_ite yes no

theorem Continues.from (continues : Continues text part start place next next')
    (ahead : place ≤ place') : Continues text part start place' next next' :=
  ⟨fun s behind inside => continues.alone s (Nat.le_trans ahead behind) inside, continues.climbs⟩

theorem Reaches.climbs (reaches : Reaches text once) (climbs : Climbs text next) :
    Climbs text fun s => once s next := by
  intro s found inside matched
  obtain ⟨s', ahead, matched⟩ := reaches s next found inside matched
  exact Nat.le_trans ahead.behind (climbs s' found ahead.inside matched)

/-- Behind the stretch there is no way back into it. -/
theorem Climbs.beyond (climbs : Climbs text next) {s : State} (inside : s.position ≤ text.size)
    (past : start + size < s.position) : Alone start size (next s) none := by
  cases found : next s with
  | none => exact .failed
  | some last => exact .beyond (Nat.lt_of_lt_of_le past (climbs s last inside found)) none

/-! ## Repetition -/

theorem times_restricts (reaches : Reaches text once) (restricts : Restricts text part start once once')
    (count : Nat) : Restricts text part start (times once count) (times once' count) := by
  induction count with
  | zero => exact fun s next next' inside continues => continues.alone s (Nat.le_refl _) inside
  | succ count ih =>
    intro s next next' inside continues
    refine restricts s _ _ inside ⟨fun r behind within => ?_, ?_⟩
    · exact ih r next next' within (continues.from behind)
    · exact (times_reaches reaches count).climbs continues.climbs

/-- Every round takes a unit, so both bounds are high enough for what is left. -/
theorem rounds_restricts (stretch : Stretch text part start) (reaches : Reaches text once)
    (restricts : Restricts text part start once once') (greedy : Bool) {fuel fuel' : Nat}
    (most : Option Nat) {s : State} (inside : s.position ≤ part.size)
    (left : text.size - (start + s.position) < fuel) (left' : part.size - s.position < fuel')
    (continues : Continues text part start s.position next next') :
    Alone start part.size (rounds once greedy fuel most (s.shift start) next)
      (rounds once' greedy fuel' most s next') := by
  induction fuel' generalizing fuel most s with
  | zero => exact absurd left' (Nat.not_lt_zero _)
  | succ fuel' ih =>
    obtain ⟨fuel, rfl⟩ := Nat.exists_eq_succ_of_ne_zero (Nat.ne_zero_of_lt left)
    have stop := continues.alone s (Nat.le_refl _) inside
    have again : Alone start part.size
        (once (s.shift start) fun r => if r.position = (s.shift start).position then none
          else rounds once greedy fuel (most.map (· - 1)) r next)
        (once' s fun r => if r.position = s.position then none
          else rounds once' greedy fuel' (most.map (· - 1)) r next') := by
      refine restricts s _ _ inside ⟨fun r behind within => ?_, fun r found ends matched => ?_⟩
      · have moved : (r.shift start).position = (s.shift start).position ↔
            r.position = s.position := Nat.add_left_cancel_iff
        simp only [moved]
        refine .ite (fun _ => .failed) fun moves => ?_
        have further : s.position < r.position := Nat.lt_of_le_of_ne behind (Ne.symm moves)
        have whole := stretch.inside
        exact ih _ within (by omega) (by omega) (continues.from behind)
      · split at matched
        · cases matched
        · exact (rounds_reaches reaches greedy fuel _).climbs continues.climbs r found ends matched
    unfold rounds
    exact .ite (fun _ => stop) fun _ =>
      .ite (fun _ => again.either stop) fun _ => stop.either again

/-! ## Expressions -/

/-- A unit of the stretch is the same in the text. At the end of the stretch the text may go on, but
what is found there lies behind. -/
theorem set_restricts (stretch : Stretch text part start) (members : UnitSet)
    (byLines byLines' : Bool) :
    Restricts text part start (run byLines text (set members) false)
      (run byLines' part (set members) false) := by
  intro s next next' inside continues
  unfold run
  rw [if_neg Bool.false_ne_true, if_neg Bool.false_ne_true]
  by_cases within : s.position < part.size
  · have here : text[(s.shift start).position]? = part[s.position]? :=
      stretch.same s.position within
    rw [here]
    cases part[s.position]? with
    | none => exact .failed
    | some u =>
      refine .ite (fun _ => ?_) fun _ => .failed
      exact continues.alone ⟨s.position + 1, s.spans⟩ (Nat.le_succ _) within
  · rw [Array.getElem?_eq_none (Nat.le_of_not_lt within)]
    split
    · rename_i u here
      obtain ⟨there, -⟩ := Array.getElem?_eq_some_iff.1 here
      split
      · refine continues.climbs.beyond there ?_
        show start + part.size < start + s.position + 1
        omega
      · exact .failed
    · exact .failed

/-- What a body captured before a round is forgotten on both sides. -/
theorem Restricts.forget {once once' : State → Next → Option State}
    (restricts : Restricts text part start once once') (indices : List Nat) :
    Restricts text part start (fun s => once (s.forget indices))
      (fun s => once' (s.forget indices)) := by
  intro s next next' inside continues
  dsimp only
  rw [State.shift_forget]
  exact restricts (s.forget indices) next next' inside continues

theorem run_restricts (stretch : Stretch text part start) {e : Regex} (units : e.byUnits = true)
    (byLines byLines' : Bool) :
    Restricts text part start (run byLines text e false) (run byLines' part e false) := by
  induction e with
  | empty => exact fun s next next' inside continues => continues.alone s (Nat.le_refl _) inside
  | set members => exact set_restricts stretch members byLines byLines'
  | seq a b first second =>
    obtain ⟨left, right⟩ := Bool.and_eq_true_iff.1 units
    intro s next next' inside continues
    refine first left s _ _ inside ⟨fun r behind within => ?_, ?_⟩
    · exact second right r next next' within (continues.from behind)
    · exact (run_reaches b).climbs continues.climbs
  | alt a b first second =>
    obtain ⟨left, right⟩ := Bool.and_eq_true_iff.1 units
    intro s next next' inside continues
    exact (first left s next next' inside continues).either
      (second right s next next' inside continues)
  | capture index body inner =>
    intro s next next' inside continues
    refine inner units s _ _ inside ⟨fun r behind within => ?_, fun r => ?_⟩
    · have recorded : (r.shift start).record index (s.shift start).position
          (r.shift start).position = (r.record index s.position r.position).shift start :=
        State.shift_record start r index s.position r.position
      rw [recorded]
      exact continues.alone (r.record index s.position r.position) behind within
    · exact continues.climbs (r.record index _ r.position)
  | repeated body least most greedy inner =>
    have reaches : Reaches text fun s => run byLines text body false (s.forget body.captures) :=
      (run_reaches body).forget body.captures
    have restricts := (inner units).forget body.captures
    intro s next next' inside continues
    refine times_restricts reaches restricts _ s _ _ inside ⟨fun r behind within => ?_, ?_⟩
    · exact rounds_restricts stretch reaches restricts greedy _ within (by omega) (by omega)
        (continues.from behind)
    · exact (rounds_reaches reaches greedy _ _).climbs continues.climbs
  | backref | lineStart | lineEnd | boundary | look => cases units

/-- A match that takes a whole stretch of a text is found again in the stretch alone. -/
theorem Stretch.matchAt_alone (stretch : Stretch text part start) {e : Regex}
    (units : e.byUnits = true) {byLines : Bool} {found : State}
    (matched : e.matchAt byLines text start = some found)
    (ends : found.position = start + part.size) (byLines' : Bool) :
    ∃ found', e.matchAt byLines' part 0 = some found' ∧ found = found'.shift start := by
  have climbs : Climbs text some := by
    intro s last _ same
    cases same
    exact Nat.le_refl _
  have alone := run_restricts stretch units byLines byLines' ⟨0, []⟩ some some (Nat.zero_le _)
    ⟨fun s _ _ => .same s, climbs⟩
  have whole : run byLines text e false (State.shift start ⟨0, []⟩) some = some found := matched
  rw [whole] at alone
  unfold matchAt
  generalize run byLines' part e false ⟨0, []⟩ some = result at alone
  cases alone with
  | same s => exact ⟨s, rfl, rfl⟩
  | beyond past => exact absurd ends (Nat.ne_of_gt past)

end Highlight.Regex
