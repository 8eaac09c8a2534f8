import Highlight.Regex.Matching

/-!
# Where a match ends

A match that starts inside a text goes on to places behind it and stays inside the text
(`Regex.matchAt_reach`). Lookarounds may read backwards, but the match goes on where they were
met, and a reference takes no more units than there are.
-/

namespace Highlight.Regex

/-- The place of a state is one that a match can come to from another place. -/
structure Ahead (text : Array CodeUnit) (start : Nat) (s : State) : Prop where
  behind : start ≤ s.position
  inside : s.position ≤ text.size

/-- What is found is found by the continuation, at a place ahead. -/
def Reaches (text : Array CodeUnit) (once : State → Next → Option State) : Prop :=
  ∀ s next found, s.position ≤ text.size → once s next = some found →
    ∃ s', Ahead text s.position s' ∧ next s' = some found

variable {byLines : Bool} {text : Array CodeUnit} {once : State → Next → Option State}
  {start : Nat} {s s' found : State} {next : Next}

theorem Ahead.rest (inside : s.position ≤ text.size) : Ahead text s.position s :=
  ⟨Nat.le_refl _, inside⟩

theorem Ahead.trans (first : Ahead text start s) (second : Ahead text s.position s') :
    Ahead text start s' :=
  ⟨Nat.le_trans first.behind second.behind, second.inside⟩

/-- The second way is tried where the first one fails. -/
theorem of_either {first second : Option State}
    (matched : (match first with | some found => some found | none => second) = some found) :
    first = some found ∨ second = some found := by
  cases first with
  | none => exact .inr matched
  | some found => exact .inl matched

theorem sameUnits_inside {first position count : Nat} (inside : position ≤ text.size)
    (same : sameUnits text first position count = true) : position + count ≤ text.size := by
  cases count with
  | zero => exact inside
  | succ count =>
    unfold sameUnits at same
    split at same
    · rename_i last
      obtain ⟨within, _⟩ := Array.getElem?_eq_some_iff.1 last
      omega
    · cases same

theorem times_reaches (reaches : Reaches text once) (count : Nat) : Reaches text (times once count) := by
  induction count with
  | zero => exact fun s next found inside matched => ⟨s, .rest inside, matched⟩
  | succ count ih =>
    intro s next found inside matched
    obtain ⟨middle, ahead, matched⟩ := reaches s _ found inside matched
    obtain ⟨last, further, matched⟩ := ih middle next found ahead.inside matched
    exact ⟨last, ahead.trans further, matched⟩

theorem rounds_reaches (reaches : Reaches text once) (greedy : Bool) (fuel : Nat)
    (most : Option Nat) : Reaches text (rounds once greedy fuel most) := by
  induction fuel generalizing most with
  | zero => exact fun s next found inside matched => ⟨s, .rest inside, matched⟩
  | succ fuel ih =>
    intro s next found inside matched
    have stop (matched : next s = some found) :
        ∃ s', Ahead text s.position s' ∧ next s' = some found := ⟨s, .rest inside, matched⟩
    have again (matched : (once s fun s' => if s'.position = s.position then none
        else rounds once greedy fuel (most.map (· - 1)) s' next) = some found) :
        ∃ s', Ahead text s.position s' ∧ next s' = some found := by
      obtain ⟨middle, ahead, matched⟩ := reaches s _ found inside matched
      split at matched
      · cases matched
      · obtain ⟨last, further, matched⟩ := ih _ middle next found ahead.inside matched
        exact ⟨last, ahead.trans further, matched⟩
    unfold rounds at matched
    split at matched
    · exact stop matched
    · split at matched
      · exact (of_either matched).elim again stop
      · exact (of_either matched).elim stop again

/-- What is forgotten before does not change the place. -/
theorem Reaches.forget (reaches : Reaches text once) (indices : List Nat) :
    Reaches text fun s => once (s.forget indices) := by
  intro s next found inside matched
  obtain ⟨last, ahead, matched⟩ := reaches (s.forget indices) next found inside matched
  exact ⟨last, ⟨ahead.behind, ahead.inside⟩, matched⟩

/-- Matching forwards never goes back and never leaves the text. -/
theorem run_reaches (e : Regex) : Reaches text (run byLines text e false) := by
  induction e with
  | empty => exact fun s next found inside matched => ⟨s, .rest inside, matched⟩
  | set members =>
    intro s next found inside matched
    unfold run at matched
    rw [if_neg Bool.false_ne_true] at matched
    split at matched
    · rename_i unit here
      obtain ⟨within, _⟩ := Array.getElem?_eq_some_iff.1 here
      split at matched
      · refine ⟨_, ⟨?_, ?_⟩, matched⟩
        · exact Nat.le_succ s.position
        · exact within
      · cases matched
    · cases matched
  | seq a b ih_a ih_b =>
    intro s next found inside matched
    obtain ⟨middle, ahead, matched⟩ := ih_a s _ found inside matched
    obtain ⟨last, further, matched⟩ := ih_b middle next found ahead.inside matched
    exact ⟨last, ahead.trans further, matched⟩
  | alt a b ih_a ih_b =>
    intro s next found inside matched
    obtain matched | matched := of_either matched
    · exact ih_a s next found inside matched
    · exact ih_b s next found inside matched
  | capture index body ih =>
    intro s next found inside matched
    obtain ⟨last, ahead, matched⟩ := ih s _ found inside matched
    exact ⟨last.record index s.position last.position, ⟨ahead.behind, ahead.inside⟩, matched⟩
  | backref index =>
    intro s next found inside matched
    unfold run at matched
    split at matched
    · exact ⟨s, .rest inside, matched⟩
    · rw [if_neg Bool.false_ne_true] at matched
      split at matched
      · rename_i same
        exact ⟨_, ⟨Nat.le_add_right _ _, sameUnits_inside inside same⟩, matched⟩
      · cases matched
  | lineStart =>
    intro s next found inside matched
    unfold run at matched
    split at matched
    · exact ⟨s, .rest inside, matched⟩
    · cases matched
  | lineEnd =>
    intro s next found inside matched
    unfold run at matched
    split at matched
    · exact ⟨s, .rest inside, matched⟩
    · cases matched
  | boundary negated =>
    intro s next found inside matched
    unfold run at matched
    split at matched
    · exact ⟨s, .rest inside, matched⟩
    · cases matched
  | look behind negated body =>
    -- The body may be matched backwards, but its place is given up.
    intro s next found inside matched
    unfold run at matched
    split at matched
    · split at matched
      · cases matched
      · rename_i looked _ _
        exact ⟨{ looked with position := s.position }, ⟨Nat.le_refl _, inside⟩, matched⟩
    · split at matched
      · exact ⟨s, .rest inside, matched⟩
      · cases matched
  | repeated body least most greedy ih =>
    have once : Reaches text fun s => run byLines text body false (s.forget body.captures) :=
      Reaches.forget ih body.captures
    intro s next found inside matched
    obtain ⟨middle, ahead, matched⟩ := times_reaches once _ s _ found inside matched
    obtain ⟨last, further, matched⟩ :=
      rounds_reaches once greedy _ _ middle next found ahead.inside matched
    exact ⟨last, ahead.trans further, matched⟩

/-- A match that starts inside a text ends inside it, and not before its start. -/
theorem matchAt_reach (e : Regex) {position : Nat} (inside : position ≤ text.size)
    (matched : e.matchAt byLines text position = some found) : Ahead text position found := by
  obtain ⟨last, ahead, same⟩ := run_reaches e ⟨position, []⟩ some found inside matched
  cases same
  exact ahead

end Highlight.Regex
