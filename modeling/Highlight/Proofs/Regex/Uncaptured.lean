import Highlight.Proofs.Outcome
import Highlight.Regex.Matching

/-!
# Matching without captures

What a group captured shows only where a reference asks for it. So an expression without references
matches the same stretch of a text whichever of its groups capture, and under whatever numbers
(`Uncaptured.matchAt_place`): the two runs go through the same places, and differ in the captures
that they carry along.
-/

namespace Highlight.Regex

/-- Some part of the expression refers to a group. -/
def refersBack : Regex → Bool
  | backref _ => true
  | seq a b | alt a b => a.refersBack || b.refersBack
  | capture _ body | look _ _ body | repeated body _ _ _ => body.refersBack
  | empty | set _ | lineStart | lineEnd | boundary _ => false

/-- The second expression is the first one with some groups that do not capture any more, and the
others under other numbers. Neither refers to a group. -/
inductive Uncaptured : Regex → Regex → Prop where
  | empty : Uncaptured empty empty
  | set {members : UnitSet} : Uncaptured (set members) (set members)
  | seq {a a' b b' : Regex} (first : Uncaptured a a') (second : Uncaptured b b') :
    Uncaptured (seq a b) (seq a' b')
  | alt {a a' b b' : Regex} (first : Uncaptured a a') (second : Uncaptured b b') :
    Uncaptured (alt a b) (alt a' b')
  | dropped {index : Nat} {body body' : Regex} (inner : Uncaptured body body') :
    Uncaptured (capture index body) body'
  | kept {index index' : Nat} {body body' : Regex} (inner : Uncaptured body body') :
    Uncaptured (capture index body) (capture index' body')
  | lineStart : Uncaptured lineStart lineStart
  | lineEnd : Uncaptured lineEnd lineEnd
  | boundary {negated : Bool} : Uncaptured (boundary negated) (boundary negated)
  | look {behind negated : Bool} {body body' : Regex} (inner : Uncaptured body body') :
    Uncaptured (look behind negated body) (look behind negated body')
  | repeated {body body' : Regex} {least : Nat} {most : Option Nat} {greedy : Bool}
    (inner : Uncaptured body body') :
    Uncaptured (repeated body least most greedy) (repeated body' least most greedy)

theorem Uncaptured.refl {e : Regex} (unreferring : e.refersBack = false) : Uncaptured e e := by
  induction e with
  | empty => exact .empty
  | set => exact .set
  | seq a b first second =>
    obtain ⟨left, right⟩ := Bool.or_eq_false_iff.1 unreferring
    exact .seq (first left) (second right)
  | alt a b first second =>
    obtain ⟨left, right⟩ := Bool.or_eq_false_iff.1 unreferring
    exact .alt (first left) (second right)
  | capture index body inner => exact .kept (inner unreferring)
  | backref => cases unreferring
  | lineStart => exact .lineStart
  | lineEnd => exact .lineEnd
  | boundary => exact .boundary
  | look behind negated body inner => exact .look (inner unreferring)
  | repeated body least most greedy inner => exact .repeated (inner unreferring)

/-! ## Two runs through the same places -/

/-- Both fail, or both end at one place. -/
def SamePlace (x y : Option State) : Prop := x.map State.position = y.map State.position

/-- Two continuations that go on alike from one place, whatever was captured. -/
def SameNext (next next' : Next) : Prop :=
  ∀ s s' : State, s.position = s'.position → SamePlace (next s) (next' s')

/-- Two ways to match that go through the same places. -/
def SameWay (once once' : State → Next → Option State) : Prop :=
  ∀ s s' next next', s.position = s'.position → SameNext next next' →
    SamePlace (once s next) (once' s' next')

variable {byLines : Bool} {text : Array CodeUnit} {once once' : State → Next → Option State}
  {x x' y y' : Option State}

theorem SamePlace.either : SamePlace x x' → SamePlace y y' →
    SamePlace (match x with | some found => some found | none => y)
      (match x' with | some found => some found | none => y') := by
  intro first second
  cases x <;> cases x'
  · exact second
  · cases first
  · cases first
  · exact first

theorem SamePlace.ite {p : Prop} [Decidable p] (first : SamePlace x x') (second : SamePlace y y') :
    SamePlace (if p then x else y) (if p then x' else y') :=
  rel_ite (fun _ => first) fun _ => second

theorem times_sameWay (way : SameWay once once') (count : Nat) :
    SameWay (times once count) (times once' count) := by
  induction count with
  | zero => exact fun s s' next next' same goesOn => goesOn s s' same
  | succ count ih =>
    exact fun s s' next next' same goesOn =>
      way s s' _ _ same fun r r' here => ih r r' next next' here goesOn

theorem rounds_sameWay (way : SameWay once once') (greedy : Bool) (fuel : Nat)
    (most : Option Nat) : SameWay (rounds once greedy fuel most) (rounds once' greedy fuel most) := by
  induction fuel generalizing most with
  | zero => exact fun s s' next next' same goesOn => goesOn s s' same
  | succ fuel ih =>
    intro s s' next next' same goesOn
    have stop := goesOn s s' same
    have again : SamePlace
        (once s fun r => if r.position = s.position then none
          else rounds once greedy fuel (most.map (· - 1)) r next)
        (once' s' fun r => if r.position = s'.position then none
          else rounds once' greedy fuel (most.map (· - 1)) r next') := by
      refine way s s' _ _ same fun r r' here => ?_
      rw [here, same]
      exact .ite rfl (ih _ r r' next next' here goesOn)
    unfold rounds
    exact .ite stop (.ite (again.either stop) (stop.either again))

/-- Groups that do not capture take as much of the text as groups that do. -/
theorem Uncaptured.staysPut {e e' : Regex} (h : Uncaptured e e') : e.staysPut = e'.staysPut := by
  induction h <;> simp_all [Regex.staysPut]

/-- Without references, a run goes through the same places whatever is captured on the way. -/
theorem Uncaptured.run_sameWay {e e' : Regex} (h : Uncaptured e e') (backward : Bool) :
    SameWay (run byLines text e backward) (run byLines text e' backward) := by
  induction h generalizing backward with
  | empty => exact fun s s' next next' same goesOn => goesOn s s' same
  | set =>
    intro s s' next next' same goesOn
    unfold run
    rw [same]
    refine .ite ?_ ?_
    · split
      · exact .ite (goesOn _ _ rfl) rfl
      · rfl
    · split
      · exact .ite (goesOn _ _ rfl) rfl
      · rfl
  | seq _ _ first second =>
    intro s s' next next' same goesOn
    unfold run
    refine .ite ?_ ?_
    · exact second backward s s' _ _ same fun r r' here => first backward r r' _ _ here goesOn
    · exact first backward s s' _ _ same fun r r' here => second backward r r' _ _ here goesOn
  | alt _ _ first second =>
    intro s s' next next' same goesOn
    unfold run
    exact (first backward s s' _ _ same goesOn).either (second backward s s' _ _ same goesOn)
  | dropped _ inner =>
    intro s s' next next' same goesOn
    rw [run]
    exact inner backward s s' _ _ same fun r r' here => goesOn _ _ here
  | kept _ inner =>
    intro s s' next next' same goesOn
    unfold run
    exact inner backward s s' _ _ same fun r r' here => goesOn _ _ here
  | lineStart =>
    intro s s' next next' same goesOn
    unfold run
    rw [same]
    exact .ite (goesOn s s' same) rfl
  | lineEnd =>
    intro s s' next next' same goesOn
    unfold run
    rw [same]
    exact .ite (goesOn s s' same) rfl
  | boundary =>
    intro s s' next next' same goesOn
    unfold run
    rw [same]
    exact .ite (goesOn s s' same) rfl
  | @look behind negated body body' _ inner =>
    -- What the body captured is kept, but not its place.
    intro s s' next next' same goesOn
    have looked := inner behind s s' some some same fun r r' here => congrArg some here
    unfold run
    revert looked
    cases run byLines text body behind s some with
    | none =>
      cases run byLines text body' behind s' some with
      | none =>
        intro _
        exact .ite (goesOn s s' same) rfl
      | some found => nofun
    | some found =>
      cases run byLines text body' behind s' some with
      | none => nofun
      | some found' =>
        intro _
        exact .ite rfl (goesOn _ _ same)
  | @repeated body body' least most greedy inner ih =>
    have once : SameWay (fun s => run byLines text body backward (s.forget body.captures))
        (fun s => run byLines text body' backward (s.forget body'.captures)) :=
      fun s s' next next' same goesOn => ih backward _ _ next next' same goesOn
    intro s s' next next' same goesOn
    unfold run neededRounds
    rw [inner.staysPut]
    exact times_sameWay once _ s s' _ _ same fun r r' here =>
      rounds_sameWay once greedy _ _ r r' next next' here goesOn

/-- Without references, an expression matches the same stretch of a text whatever it captures. -/
theorem Uncaptured.matchAt_place {e e' : Regex} (h : Uncaptured e e') (position : Nat) :
    (e.matchAt byLines text position).map State.position =
      (e'.matchAt byLines text position).map State.position :=
  h.run_sameWay false _ _ _ _ rfl fun _ _ here => congrArg some here

/-! ## Numbers of groups -/

/-- Numbering the groups does not bring in a reference. -/
theorem refersBack_number (e : Regex) (count : Nat) :
    (e.number count).1.refersBack = e.refersBack := by
  induction e generalizing count with
  | seq a b first second | alt a b first second =>
    simp only [Regex.number, refersBack, first, second]
  | capture index body inner => exact inner (count + 1)
  | look behind negated body inner => exact inner count
  | repeated body least most greedy inner => exact inner count
  | empty | set | backref | lineStart | lineEnd | boundary => rfl

/-- The groups may be numbered from any number on. -/
theorem Uncaptured.number {e e' : Regex} (h : Uncaptured e e') (count count' : Nat) :
    Uncaptured (e.number count).1 (e'.number count').1 := by
  induction h generalizing count count' with
  | empty => exact .empty
  | set => exact .set
  | seq _ _ first second => exact .seq (first count count') (second _ _)
  | alt _ _ first second => exact .alt (first count count') (second _ _)
  | dropped _ inner => exact .dropped (inner (count + 1) count')
  | kept _ inner => exact .kept (inner (count + 1) (count' + 1))
  | lineStart => exact .lineStart
  | lineEnd => exact .lineEnd
  | boundary => exact .boundary
  | look _ inner => exact .look (inner count count')
  | repeated _ inner => exact .repeated (inner count count')

end Highlight.Regex
