import Highlight.Regex.Basic

/-!
# Matching by backtracking

`Regex.run` tries to match an expression at a place of a text and, where it matches, hands the
state on to a continuation; if the continuation fails, the next way to match is tried. The first
way on which everything goes through is the match. Lookarounds may read backwards, so a state is a
place in a fixed text with the captures made on the way.
-/

namespace Highlight

namespace Regex

/-- A place in the text and what the groups captured on the way there. -/
structure State where
  position : Nat
  /-- The number of a group with the start and the end of its capture, the latest first. -/
  spans : List (Nat × Nat × Nat)
  deriving DecidableEq, Repr

/-- What remains to be matched. -/
abbrev Next := State → Option State

namespace State

/-- The start and the end of what a group captured. -/
def span? (s : State) (index : Nat) : Option (Nat × Nat) := List.lookup index s.spans

/-- Forgets what the given groups captured. -/
def forget (s : State) (indices : List Nat) : State :=
  { s with spans := s.spans.filter fun span => !indices.contains span.1 }

/-- Records that a group captured the text between two places, in either order. -/
def record (s : State) (index start stop : Nat) : State :=
  { s with spans := (index, min start stop, max start stop) :: s.spans }

end State

/-- The unit before a place. -/
def unitBefore? (text : Array CodeUnit) (position : Nat) : Option CodeUnit :=
  match position with
  | 0 => none
  | p + 1 => text[p]?

/-- A line starts at the place: at the start of the text or, by lines, after a line end. -/
def atLineStart (byLines : Bool) (text : Array CodeUnit) (position : Nat) : Bool :=
  match unitBefore? text position with
  | none => true
  | some u => byLines && u.isLineEnd

/-- A line ends at the place: at the end of the text or, by lines, before a line end. -/
def atLineEnd (byLines : Bool) (text : Array CodeUnit) (position : Nat) : Bool :=
  match text[position]? with
  | none => true
  | some u => byLines && u.isLineEnd

/-- Word units begin or end at the place. -/
def atBoundary (text : Array CodeUnit) (position : Nat) : Bool :=
  let isWord (u : Option CodeUnit) : Bool := u.any CodeUnit.isWord
  isWord (unitBefore? text position) != isWord text[position]?

/-- The text holds the same `count` units from `start` and from `position`. -/
def sameUnits (text : Array CodeUnit) (start position : Nat) : Nat → Bool
  | 0 => true
  | count + 1 =>
    match text[start + count]?, text[position + count]? with
    | some u, some v => u == v && sameUnits text start position count
    | _, _ => false

/-- Exactly `count` times one way to match. -/
def times (once : State → Next → Option State) : Nat → State → Next → Option State
  | 0, s, next => next s
  | count + 1, s, next => once s fun s => times once count s next

/-- How often a body has to be matched for `least` rounds. One that takes no unit matches again just
as it did before. -/
def neededRounds (body : Regex) (least : Nat) : Nat :=
  if body.staysPut then min least 1 else least

/-- As often as wanted, but never more than `most` times. A round that does not move fails, so the
length of the text bounds the rounds. -/
def rounds (once : State → Next → Option State) (greedy : Bool) :
    Nat → Option Nat → State → Next → Option State
  | 0, _, s, next => next s
  | fuel + 1, most, s, next =>
    if most = some 0 then next s
    else
      let again (_ : Unit) : Option State := once s fun s' =>
        if s'.position = s.position then none
        else rounds once greedy fuel (most.map (· - 1)) s' next
      if greedy then
        match again () with
        | some found => some found
        | none => next s
      else
        match next s with
        | some found => some found
        | none => again ()

/-- Matches an expression from a state on, forwards or backwards, and goes on with `next`. With
`byLines` the line anchors also match at line ends inside the text. -/
def run (byLines : Bool) (text : Array CodeUnit) :
    Regex → Bool → State → Next → Option State
  | empty, _, s, next => next s
  | set members, backward, s, next =>
    if backward then
      match unitBefore? text s.position with
      | some u => if members.holds u then next { s with position := s.position - 1 } else none
      | none => none
    else
      match text[s.position]? with
      | some u => if members.holds u then next { s with position := s.position + 1 } else none
      | none => none
  | seq a b, backward, s, next =>
    if backward then run byLines text b backward s fun s => run byLines text a backward s next
    else run byLines text a backward s fun s => run byLines text b backward s next
  | alt a b, backward, s, next =>
    match run byLines text a backward s next with
    | some found => some found
    | none => run byLines text b backward s next
  | capture index body, backward, s, next =>
    run byLines text body backward s fun s' => next (s'.record index s.position s'.position)
  | backref index, backward, s, next =>
    match s.span? index with
    | none => next s
    | some (start, stop) =>
      let count := stop - start
      if backward then
        if count ≤ s.position && sameUnits text start (s.position - count) count then
          next { s with position := s.position - count }
        else none
      else if sameUnits text start s.position count then
        next { s with position := s.position + count }
      else none
  | lineStart, _, s, next => if atLineStart byLines text s.position then next s else none
  | lineEnd, _, s, next => if atLineEnd byLines text s.position then next s else none
  | boundary negated, _, s, next =>
    if atBoundary text s.position != negated then next s else none
  | look behind negated body, _, s, next =>
    match run byLines text body behind s some with
    | some found => if negated then none else next { found with position := s.position }
    | none => if negated then next s else none
  | repeated body least most greedy, backward, s, next =>
    let inner := body.captures
    let once (s : State) (next : Next) : Option State :=
      run byLines text body backward (s.forget inner) next
    times once (neededRounds body least) s fun s =>
      rounds once greedy (text.size + 1) (most.map (· - least)) s next

/-- The match at a place, if there is one. -/
def matchAt (e : Regex) (byLines : Bool) (text : Array CodeUnit) (position : Nat) : Option State :=
  e.run byLines text false ⟨position, []⟩ some

/-- The expression matches the empty text. -/
def matchesEmpty (e : Regex) : Bool := (e.matchAt false #[] 0).isSome

end Regex

end Highlight
