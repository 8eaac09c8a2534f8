import Highlight.Proofs.Pattern.Denotation
import Highlight.Regex.Matching

/-!
# Words that a match can take

A way to match takes a word if it succeeds wherever the word stands and all that remains succeeds
behind it (`Regex.Takes`). Backtracking loses no word: what is tried before either succeeds as well
or leads to the way on which the word is taken. A repetition takes words one behind the other
(`CanTake.repeated`), although a round that does not move fails: an empty word needs no round.
-/

namespace Highlight.Regex

open Pattern (Times)

/-- Where the word stands, the way succeeds as soon as what remains succeeds behind the word. -/
def Takes (text : Array CodeUnit) (once : State → Next → Option State) (w : Text) : Prop :=
  ∀ (s : State) (next : Next), w <+: text.toList.drop s.position →
    (∀ s' : State, s'.position = s.position + w.length → (next s').isSome) →
    (once s next).isSome

variable {byLines : Bool} {text : Array CodeUnit} {once once' : State → Next → Option State}
  {w w' : Text}

theorem stands_append {units : List CodeUnit} {position : Nat}
    (stands : w ++ w' <+: units.drop position) :
    w <+: units.drop position ∧ w' <+: units.drop (position + w.length) := by
  constructor
  · exact (List.prefix_append w w').trans stands
  · obtain ⟨rest, parts⟩ := stands
    rw [← List.drop_drop, ← parts, List.append_assoc, List.drop_left]
    exact List.prefix_append w' rest

theorem either_isSome {x y : Option State} :
    (match x with | some found => some found | none => y).isSome = (x.isSome || y.isSome) := by
  cases x <;> simp

theorem takes_rest (rests : ∀ s next, once s next = next s) : Takes text once [] := by
  intro s next _ goes
  rw [rests]
  exact goes s rfl

theorem takes_set {members : UnitSet} {u : CodeUnit} (holds : members.holds u = true) :
    Takes text (run byLines text (set members) false) [u] := by
  intro s next stands goes
  have here : text[s.position]? = some u := by
    obtain ⟨rest, parts⟩ := stands
    rw [← Array.getElem?_toList, ← List.head?_drop, ← parts]
    rfl
  unfold run
  simp only [Bool.false_eq_true, if_false, here, holds, if_true]
  exact goes _ rfl

theorem Takes.seq (first : Takes text once w) (second : Takes text once' w') :
    Takes text (fun s next => once s fun s => once' s next) (w ++ w') := by
  intro s next stands goes
  obtain ⟨stands, stands'⟩ := stands_append stands
  apply first s _ stands
  intro middle behind
  apply second middle next
  · rwa [behind]
  · intro s' further
    apply goes
    rw [further, behind, List.length_append, Nat.add_assoc]

theorem Takes.left (first : Takes text once w) : Takes text
    (fun s next => match once s next with | some found => some found | none => once' s next) w := by
  intro s next stands goes
  rw [either_isSome, first s next stands goes, Bool.true_or]

theorem Takes.right (second : Takes text once' w) : Takes text
    (fun s next => match once s next with | some found => some found | none => once' s next) w := by
  intro s next stands goes
  rw [either_isSome, second s next stands goes, Bool.or_true]

/-- What is captured before or behind a word does not matter. -/
theorem Takes.forget (taken : Takes text once w) (indices : List Nat) :
    Takes text (fun s => once (s.forget indices)) w :=
  fun s => taken (s.forget indices)

theorem Takes.record (taken : Takes text once w) (index : Nat) : Takes text
    (fun s next => once s fun s' => next (s'.record index s.position s'.position)) w := by
  intro s next stands goes
  apply taken s _ stands
  intro s' behind
  exact goes _ behind

/-! ## Repetitions -/

theorem takes_times {count : Nat} (taken : Times (Takes text once) count w) :
    Takes text (times once count) w := by
  induction count generalizing w with
  | zero =>
    obtain rfl : w = [] := taken
    exact takes_rest fun _ _ => rfl
  | succ count ih =>
    obtain ⟨head, tail, first, later, rfl⟩ := taken
    exact first.seq (ih later)

/-- Whether one more round is tried first or last, both ways are open. -/
theorem rounds_succ {greedy : Bool} {fuel : Nat} {most : Option Nat} {s : State} {next : Next}
    (open_ : most ≠ some 0) :
    (rounds once greedy (fuel + 1) most s next).isSome =
      ((once s fun s' => if s'.position = s.position then none
        else rounds once greedy fuel (most.map (· - 1)) s' next).isSome || (next s).isSome) := by
  rw [rounds, if_neg open_]
  dsimp only
  split
  · exact either_isSome
  · rw [Bool.or_comm]
    exact either_isSome

/-- No round has to be made. -/
theorem rounds_isSome {greedy : Bool} {fuel : Nat} {most : Option Nat} {s : State} {next : Next}
    (goes : (next s).isSome) : (rounds once greedy fuel most s next).isSome := by
  cases fuel with
  | zero => exact goes
  | succ fuel =>
    by_cases closed : most = some 0
    · rwa [rounds, if_pos closed]
    · rw [rounds_succ closed, goes, Bool.or_true]

/-- The rounds take as many words as they may be. Each word that is not empty moves on in the text,
so that the fuel lasts. -/
theorem takes_rounds {greedy : Bool} {fuel count : Nat} {most : Option Nat} {s : State}
    {next : Next} (taken : Times (Takes text once) count w) (few : ∀ bound ∈ most, count ≤ bound)
    (lasts : text.size < fuel + s.position) (stands : w <+: text.toList.drop s.position)
    (goes : ∀ s' : State, s'.position = s.position + w.length → (next s').isSome) :
    (rounds once greedy fuel most s next).isSome := by
  induction count generalizing w fuel most s with
  | zero =>
    obtain rfl : w = [] := taken
    exact rounds_isSome (goes s rfl)
  | succ count ih =>
    obtain ⟨head, tail, first, later, rfl⟩ := taken
    obtain ⟨stands, stands'⟩ := stands_append stands
    rcases head with - | ⟨u, others⟩
    · apply ih later _ lasts stands' goes
      intro bound isBound
      have := few bound isBound
      omega
    · have inside : s.position + (u :: others).length ≤ text.size := by
        have short : (u :: others).length ≤ text.size - s.position := by
          simpa using stands.length_le
        have moves : (u :: others).length = others.length + 1 := rfl
        omega
      rw [List.length_cons] at inside
      obtain ⟨fuel, rfl⟩ : ∃ less, fuel = less + 1 := ⟨fuel - 1, by omega⟩
      have again : (once s fun s' => if s'.position = s.position then none
          else rounds once greedy fuel (most.map (· - 1)) s' next).isSome := by
        apply first s _ stands
        intro middle behind
        rw [List.length_cons] at behind
        rw [if_neg (by omega)]
        apply ih later
        · intro bound isBound
          obtain ⟨wider, isWider, rfl⟩ := Option.map_eq_some_iff.1 isBound
          have := few wider isWider
          omega
        · omega
        · rwa [behind]
        · intro s' further
          apply goes
          rw [further, behind, List.length_append, List.length_cons, Nat.add_assoc]
      have open_ : most ≠ some 0 := fun closed => absurd (few 0 closed) (by omega)
      rw [rounds_succ open_, again, Bool.true_or]

theorem times_split {body : Text → Prop} {m n : Nat} (times : Times body (m + n) w) :
    ∃ front back, Times body m front ∧ Times body n back ∧ w = front ++ back := by
  induction m generalizing w with
  | zero =>
    rw [Nat.zero_add] at times
    exact ⟨[], w, rfl, times, rfl⟩
  | succ m ih =>
    rw [Nat.succ_add] at times
    obtain ⟨head, tail, first, later, rfl⟩ := times
    obtain ⟨front, back, before, behind, rfl⟩ := ih later
    exact ⟨head ++ front, back, ⟨head, front, first, before, rfl⟩, behind,
      (List.append_assoc _ _ _).symm⟩

theorem times_nil {count : Nat} (times : Times (· = []) count w) : w = [] := by
  induction count generalizing w with
  | zero => exact times
  | succ count ih =>
    obtain ⟨head, tail, rfl, later, rfl⟩ := times
    exact ih later

/-! ## Expressions -/

/-- An expression takes the word, which is empty if the expression takes no unit at all. -/
structure CanTake (byLines : Bool) (text : Array CodeUnit) (e : Regex) (w : Text) : Prop where
  takes : Takes text (run byLines text e false) w
  still : e.staysPut = true → w = []

namespace CanTake

variable {a b body : Regex}

theorem empty : CanTake byLines text .empty [] :=
  ⟨takes_rest fun _ _ => rfl, fun _ => rfl⟩

theorem set {members : UnitSet} {u : CodeUnit} (holds : members.holds u = true) :
    CanTake byLines text (.set members) [u] :=
  ⟨takes_set holds, nofun⟩

theorem seq (first : CanTake byLines text a w) (second : CanTake byLines text b w') :
    CanTake byLines text (.seq a b) (w ++ w') := by
  refine ⟨first.takes.seq second.takes, fun still => ?_⟩
  obtain ⟨still, still'⟩ := Bool.and_eq_true_iff.1 still
  rw [first.still still, second.still still', List.nil_append]

theorem left (first : CanTake byLines text a w) : CanTake byLines text (.alt a b) w :=
  ⟨first.takes.left, fun still => first.still (Bool.and_eq_true_iff.1 still).1⟩

theorem right (second : CanTake byLines text b w) : CanTake byLines text (.alt a b) w :=
  ⟨second.takes.right, fun still => second.still (Bool.and_eq_true_iff.1 still).2⟩

theorem capture (inner : CanTake byLines text body w) (index : Nat) :
    CanTake byLines text (.capture index body) w :=
  ⟨inner.takes.record index, inner.still⟩

/-- A repetition takes words of its body one behind the other. Of a body that takes no unit it may
match fewer than there are words, but then they are all empty. -/
theorem repeated {least count : Nat} {most : Option Nat} (greedy : Bool)
    (words : Times (CanTake byLines text body) count w) (least_le : least ≤ count)
    (few : ∀ bound ∈ most, count ≤ bound) :
    CanTake byLines text (.repeated body least most greedy) w := by
  have still (stays : body.staysPut = true) : w = [] :=
    times_nil (words.mono fun _ one => one.still stays)
  have needed : neededRounds body least ≤ count := by
    unfold neededRounds
    split <;> omega
  have taken : Times (Takes text fun s => run byLines text body false (s.forget body.captures))
      count w := words.mono fun _ one => one.takes.forget body.captures
  rw [← Nat.add_sub_of_le needed] at taken
  obtain ⟨front, back, before, behind, rfl⟩ := times_split taken
  have further : Takes text (fun s next => rounds
      (fun s => run byLines text body false (s.forget body.captures)) greedy (text.size + 1)
      (most.map (· - least)) s next) back := by
    intro s next stands goes
    by_cases stays : body.staysPut = true
    · obtain ⟨-, rfl⟩ := List.append_eq_nil_iff.1 (still stays)
      exact rounds_isSome (goes s rfl)
    · have all : neededRounds body least = least := if_neg stays
      rw [all] at behind
      apply takes_rounds behind _ _ stands goes
      · intro bound isBound
        obtain ⟨wider, isWider, rfl⟩ := Option.map_eq_some_iff.1 isBound
        exact Nat.sub_le_sub_right (few wider isWider) least
      · omega
  constructor
  · exact (takes_times before).seq further
  · intro stays
    obtain none | stays := Bool.or_eq_true_iff.1 stays
    · obtain rfl : count = 0 := Nat.le_zero.1 (few 0 (eq_of_beq none))
      exact words
    · exact still stays

/-- A word that is taken is matched where it stands alone. -/
theorem matchAt_isSome {e : Regex} (taken : CanTake byLines w.toArray e w) :
    (e.matchAt byLines w.toArray 0).isSome := by
  apply taken.takes ⟨0, []⟩ some
  · exact List.prefix_rfl
  · intro s' _
    rfl

end CanTake

end Highlight.Regex
