import Highlight.Proofs.Regex.Reach

/-!
# Matches that take no unit

Whether an expression matches the empty text is told by its shape (`Regex.matchesEmpty_eq`), and so
is whether it may match at a place of a longer text without taking a unit: if it may not, every match
goes on (`Regex.matchAt_moves`). The two differ only where an expression asks for something that the
empty text does not have, the edge of a word or what a lookaround looks for
(`Regex.idle_of_mayRest`).
-/

namespace Highlight.Regex

/-- The expression matches the empty text, told by its shape. There a reference takes nothing, and
no word begins or ends. -/
def idle : Regex → Bool
  | empty | lineStart | lineEnd | backref _ => true
  | set _ => false
  | boundary negated => negated
  | look _ negated body => body.idle != negated
  | seq a b => a.idle && b.idle
  | alt a b => a.idle || b.idle
  | capture _ body => body.idle
  | repeated body least _ _ => least == 0 || body.idle

/-- The expression may match without taking a unit, if what it asks about its place holds. -/
def mayRest : Regex → Bool
  | empty | lineStart | lineEnd | backref _ | boundary _ | look .. => true
  | set _ => false
  | seq a b => a.mayRest && b.mayRest
  | alt a b => a.mayRest || b.mayRest
  | capture _ body => body.mayRest
  | repeated body least _ _ => least == 0 || body.mayRest

/-- The expression asks for the edge of a word, or with a lookaround for something else that does
not hold on the empty text. -/
def asksAround : Regex → Bool
  | boundary negated => !negated
  | look _ negated body => body.idle == negated
  | seq a b | alt a b => a.asksAround || b.asksAround
  | capture _ body | repeated body _ _ _ => body.asksAround
  | empty | set _ | lineStart | lineEnd | backref _ => false

/-- Where nothing else is asked for, an expression that may rest matches the empty text. -/
theorem idle_of_mayRest {e : Regex} (rests : e.mayRest = true) (quiet : e.asksAround = false) :
    e.idle = true := by
  induction e with
  | empty | lineStart | lineEnd | backref => rfl
  | set => cases rests
  | boundary negated => simpa [asksAround, idle] using quiet
  | look behind negated body => simpa [asksAround, idle] using quiet
  | seq a b first second =>
    obtain ⟨left, right⟩ := Bool.and_eq_true_iff.1 rests
    obtain ⟨quiet, quiet'⟩ := Bool.or_eq_false_iff.1 quiet
    exact Bool.and_eq_true_iff.2 ⟨first left quiet, second right quiet'⟩
  | alt a b first second =>
    obtain ⟨quiet, quiet'⟩ := Bool.or_eq_false_iff.1 quiet
    exact Bool.or_eq_true_iff.2 <| (Bool.or_eq_true_iff.1 rests).imp
      (fun left => first left quiet) fun right => second right quiet'
  | capture index body inner => exact inner rests quiet
  | repeated body least most greedy inner =>
    exact Bool.or_eq_true_iff.2 <| (Bool.or_eq_true_iff.1 rests).imp_right
      fun within => inner within quiet

/-! ## On the empty text -/

/-- A state of a run over the empty text: no capture holds a unit. -/
structure State.Flat (s : State) : Prop where
  place : s.position = 0
  spans : ∀ span ∈ s.spans, span.2.2 ≤ span.2.1

/-- On the empty text there is either no way to match, or all that counts is whether the
continuation finds something, which it does from every state or from none. -/
def Decides (way : Bool) (once : State → Next → Option State) : Prop :=
  ∀ (s : State) (next : Next) (goes : Bool), s.Flat → (∀ s' : State, s'.Flat → (next s').isSome = goes) →
    if way && goes then ∃ s' : State, s'.Flat ∧ once s next = next s' else once s next = none

variable {byLines way way' : Bool} {once once' : State → Next → Option State} {s : State} {next : Next}

theorem State.Flat.forget (flat : s.Flat) (indices : List Nat) : (s.forget indices).Flat :=
  ⟨flat.place, fun span held => flat.spans span (List.mem_filter.1 held).1⟩

theorem State.Flat.record {s' : State} (flat : s.Flat) (flat' : s'.Flat) (index : Nat) :
    (s'.record index s.position s'.position).Flat := by
  refine ⟨flat'.place, fun span held => ?_⟩
  obtain rfl | held := List.mem_cons.1 held
  · rw [flat.place, flat'.place]
    exact Nat.le_refl 0
  · exact flat'.spans span held

theorem State.Flat.span? {index start stop : Nat} (flat : s.Flat)
    (found : s.span? index = some (start, stop)) : stop - start = 0 := by
  obtain ⟨before, after, same, -⟩ := List.lookup_eq_some_iff.1 found
  have held : (index, start, stop) ∈ s.spans := by
    rw [same]
    exact List.mem_append_right before List.mem_cons_self
  exact Nat.sub_eq_zero_of_le (flat.spans _ held)

/-- Whether something is found. -/
theorem Decides.isSome (decides : Decides way once) {goes : Bool} (flat : s.Flat)
    (uniform : ∀ s' : State, s'.Flat → (next s').isSome = goes) :
    (once s next).isSome = (way && goes) := by
  have outcome := decides s next goes flat uniform
  split at outcome
  · rename_i found
    obtain ⟨s', flat', same⟩ := outcome
    obtain ⟨rfl, rfl⟩ := Bool.and_eq_true_iff.1 found
    rw [same, uniform s' flat']
    rfl
  · rename_i failed
    rw [outcome, Bool.eq_false_iff.2 failed]
    rfl

/-- Going on from a state. -/
theorem State.Flat.goes_on (flat : s.Flat) {goes : Bool}
    (uniform : ∀ s' : State, s'.Flat → (next s').isSome = goes) :
    if goes then ∃ s' : State, s'.Flat ∧ next s = next s' else next s = none := by
  cases goes with
  | true => exact ⟨s, flat, rfl⟩
  | false => exact Option.isNone_iff_eq_none.1 (by simpa using uniform s flat)

/-- What goes on from where it stands. -/
theorem decides_rest (once_eq : ∀ (s : State) next, s.Flat → once s next = next s) :
    Decides true once := by
  intro s next goes flat uniform
  rw [once_eq s next flat, Bool.true_and]
  exact flat.goes_on uniform

theorem decides_fail (once_eq : ∀ (s : State) next, s.Flat → once s next = none) :
    Decides false once :=
  fun s next _ flat _ => once_eq s next flat

theorem Decides.seq (first : Decides way once) (second : Decides way' once') :
    Decides (way && way') fun s next => once s fun s => once' s next := by
  intro s next goes flat uniform
  have outcome := first s (fun s => once' s next) (way' && goes) flat
    fun s' flat' => second.isSome flat' uniform
  rw [Bool.and_assoc]
  split at outcome
  · rename_i found
    obtain ⟨middle, flat', same⟩ := outcome
    have further := second middle next goes flat' uniform
    obtain ⟨-, found'⟩ := Bool.and_eq_true_iff.1 found
    rw [if_pos found'] at further
    obtain ⟨last, flat'', same'⟩ := further
    rw [if_pos found]
    exact ⟨last, flat'', same.trans same'⟩
  · rename_i failed
    rwa [if_neg failed]

theorem Decides.either (first : Decides way once) (second : Decides way' once') :
    Decides (way || way') fun s next => match once s next with
      | some found => some found
      | none => once' s next := by
  intro s next goes flat uniform
  have left := first s next goes flat uniform
  have right := second s next goes flat uniform
  cases goes with
  | false =>
    simp only [Bool.and_false, Bool.false_eq_true, if_false] at left right ⊢
    rw [left, right]
  | true =>
    simp only [Bool.and_true] at left right ⊢
    cases way with
    | false =>
      rw [if_neg Bool.false_ne_true] at left
      rw [left]
      exact right
    | true =>
      obtain ⟨s', flat', same⟩ := left
      refine ⟨s', flat', ?_⟩
      obtain ⟨found, finds⟩ := Option.isSome_iff_exists.1 (uniform s' flat')
      rw [same, finds]

theorem Decides.forget (decides : Decides way once) (indices : List Nat) :
    Decides way fun s => once (s.forget indices) :=
  fun s next goes flat uniform => decides (s.forget indices) next goes (flat.forget indices) uniform

/-- What is done to a state before going on makes no difference. -/
theorem Decides.before (decides : Decides way once) {f : State → State → State}
    (flat_f : ∀ s s' : State, s.Flat → s'.Flat → (f s s').Flat) :
    Decides way fun s next => once s fun s' => next (f s s') := by
  intro s next goes flat uniform
  have outcome := decides s (fun s' => next (f s s')) goes flat
    fun s' flat' => uniform _ (flat_f s s' flat flat')
  split at outcome
  · rename_i found
    obtain ⟨s', flat', same⟩ := outcome
    rw [if_pos found]
    exact ⟨f s s', flat_f s s' flat flat', same⟩
  · rename_i failed
    rwa [if_neg failed]

theorem Decides.times (decides : Decides way once) (count : Nat) :
    Decides (count == 0 || way) (Regex.times once count) := by
  induction count with
  | zero => exact decides_rest fun _ _ _ => rfl
  | succ count ih =>
    have both := decides.seq ih
    have same : (way && (count == 0 || way)) = (count + 1 == 0 || way) := by
      cases way <;> simp
    rwa [same] at both

/-- A round on the empty text does not move, so no round is made. -/
theorem Decides.rounds (decides : Decides way once) (greedy : Bool) (fuel : Nat) (most : Option Nat) :
    Decides true (Regex.rounds once greedy fuel most) := by
  cases fuel with
  | zero => exact decides_rest fun _ _ _ => rfl
  | succ fuel =>
    refine decides_rest fun s next flat => ?_
    have again : (once s fun s' => if s'.position = s.position then none
        else Regex.rounds once greedy fuel (most.map (· - 1)) s' next) = none := by
      have halts (s' : State) (flat' : s'.Flat) : (if s'.position = s.position then none
          else Regex.rounds once greedy fuel (most.map (· - 1)) s' next).isSome = false := by
        rw [if_pos (flat'.place.trans flat.place.symm)]
        rfl
      have outcome := decides s _ false flat halts
      rwa [Bool.and_false, if_neg Bool.false_ne_true] at outcome
    unfold Regex.rounds
    split
    · rfl
    · split
      · rw [again]
      · rw [again]
        cases next s <;> rfl

/-- On the empty text the shape of an expression decides, in both directions. -/
theorem run_decides (e : Regex) (backward : Bool) :
    Decides e.idle (run byLines #[] e backward) := by
  induction e generalizing backward with
  | empty => exact decides_rest fun _ _ _ => rfl
  | set members =>
    refine decides_fail fun s next flat => ?_
    unfold run
    rw [flat.place]
    cases backward <;> rfl
  | seq a b first second =>
    cases backward with
    | false => exact (first false).seq (second false)
    | true =>
      rw [idle, Bool.and_comm]
      exact (second true).seq (first true)
  | alt a b first second => exact (first backward).either (second backward)
  | capture index body inner =>
    exact (inner backward).before fun s s' flat flat' => flat.record flat' index
  | backref index =>
    refine decides_rest fun s next flat => ?_
    unfold run
    split
    · rfl
    · rename_i start stop found
      rw [flat.span? found]
      cases backward <;> simp [sameUnits]
  | lineStart =>
    exact decides_rest fun s next flat => by simp [run, atLineStart, unitBefore?, flat.place]
  | lineEnd => exact decides_rest fun s next flat => by simp [run, atLineEnd]
  | boundary negated =>
    have edge (s : State) (next : Next) (flat : s.Flat) :
        run byLines #[] (boundary negated) backward s next = if negated then next s else none := by
      simp [run, atBoundary, unitBefore?, flat.place]
    cases negated with
    | true => exact decides_rest edge
    | false => exact decides_fail edge
  | look behind negated body inner =>
    intro s next goes flat uniform
    have outcome := inner behind s some true flat fun _ _ => rfl
    rw [Bool.and_true] at outcome
    unfold run
    split at outcome
    · rename_i found
      obtain ⟨s', flat', same⟩ := outcome
      have back : ({ s' with position := s.position } : State).Flat := ⟨flat.place, flat'.spans⟩
      rw [same, idle, found]
      cases negated with
      | true => rfl
      | false => exact back.goes_on uniform
    · rename_i failed
      rw [outcome, idle, Bool.eq_false_iff.2 failed]
      cases negated with
      | true => exact flat.goes_on uniform
      | false => rfl
  | repeated body least most greedy inner =>
    have once := (inner backward).forget body.captures
    have needed : (neededRounds body least == 0 || body.idle) = (least == 0 || body.idle) := by
      unfold neededRounds
      split
      · cases least <;> simp
      · rfl
    rw [idle, ← needed, ← Bool.and_true (_ || _)]
    exact (once.times _).seq (once.rounds greedy _ _)

/-- The test on the empty text is told by the shape of the expression. -/
theorem matchesEmpty_eq (e : Regex) : e.matchesEmpty = e.idle := by
  have flat : State.Flat ⟨0, []⟩ := ⟨rfl, nofun⟩
  have found : (run false #[] e false ⟨0, []⟩ some).isSome = (e.idle && true) :=
    (run_decides e false).isSome flat fun _ _ => rfl
  rwa [Bool.and_true] at found

/-! ## On any text -/

variable {text : Array CodeUnit} {start : Nat} {found : State}

/-- What is found is found by the continuation, at a place further on. -/
def Moves (text : Array CodeUnit) (once : State → Next → Option State) : Prop :=
  ∀ s next found, s.position ≤ text.size → once s next = some found →
    ∃ s', Ahead text (s.position + 1) s' ∧ next s' = some found

theorem Moves.forget (moves : Moves text once) (indices : List Nat) :
    Moves text fun s => once (s.forget indices) :=
  fun s => moves (s.forget indices)

theorem Moves.before (moves : Moves text once) (reaches : Reaches text once') :
    Moves text fun s next => once s fun s => once' s next := by
  intro s next found inside matched
  obtain ⟨middle, ahead, matched⟩ := moves s _ found inside matched
  obtain ⟨last, further, matched⟩ := reaches middle next found ahead.inside matched
  exact ⟨last, ahead.trans further, matched⟩

theorem Moves.after (moves : Moves text once') (reaches : Reaches text once) :
    Moves text fun s next => once s fun s => once' s next := by
  intro s next found inside matched
  obtain ⟨middle, ahead, matched⟩ := reaches s _ found inside matched
  obtain ⟨last, further, matched⟩ := moves middle next found ahead.inside matched
  exact ⟨last, ⟨by have := ahead.behind; have := further.behind; omega, further.inside⟩, matched⟩

/-- An expression that may not rest takes a unit on every way to match. -/
theorem run_moves {e : Regex} (takes : e.mayRest = false) :
    Moves text (run byLines text e false) := by
  induction e with
  | empty | lineStart | lineEnd | backref | boundary | look => cases takes
  | set members =>
    intro s next found inside matched
    unfold run at matched
    rw [if_neg Bool.false_ne_true] at matched
    split at matched
    · rename_i unit here
      obtain ⟨within, _⟩ := Array.getElem?_eq_some_iff.1 here
      split at matched
      · refine ⟨_, ⟨?_, ?_⟩, matched⟩
        · exact Nat.le_refl _
        · exact within
      · cases matched
    · cases matched
  | seq a b first second =>
    obtain takes | takes := Bool.and_eq_false_iff.1 takes
    · exact (first takes).before (run_reaches b)
    · exact (second takes).after (run_reaches a)
  | alt a b first second =>
    obtain ⟨left, right⟩ := Bool.or_eq_false_iff.1 takes
    intro s next found inside matched
    exact (of_either matched).elim (first left s next found inside)
      (second right s next found inside)
  | capture index body inner =>
    intro s next found inside matched
    obtain ⟨last, ahead, matched⟩ := inner takes s _ found inside matched
    exact ⟨last.record index s.position last.position, ⟨ahead.behind, ahead.inside⟩, matched⟩
  | repeated body least most greedy inner =>
    obtain ⟨some, takes⟩ := Bool.or_eq_false_iff.1 takes
    have once := (inner takes).forget body.captures
    have reaches : Reaches text fun s => run byLines text body false (s.forget body.captures) :=
      Reaches.forget (run_reaches body) body.captures
    obtain ⟨count, needed⟩ : ∃ count, neededRounds body least = count + 1 := by
      refine Nat.exists_eq_succ_of_ne_zero ?_
      have := beq_eq_false_iff_ne.1 some
      unfold neededRounds
      split <;> omega
    intro s next found inside matched
    unfold run at matched
    rw [needed] at matched
    exact (once.before (times_reaches reaches count)).before (rounds_reaches reaches greedy _ _)
      s next found inside matched

/-- A match of an expression that may not rest ends behind its start. -/
theorem matchAt_moves {e : Regex} (takes : e.mayRest = false) {position : Nat}
    (inside : position ≤ text.size) (matched : e.matchAt byLines text position = some found) :
    position < found.position := by
  obtain ⟨last, ahead, same⟩ := run_moves takes ⟨position, []⟩ some found inside matched
  cases same
  exact ahead.behind

end Highlight.Regex
