import Highlight.Pattern.Expectation

/-!
# Readers with ordered choice

A reader takes a value off the front of a text or fails. Choice is ordered: the second reader is
tried only if the first one fails, and what the first one read is then forgotten. A reader has two
sides. `result` is what it reads. `misses` is a record of the terminals that it tried in vain,
which serves the error message only; no result depends on it.
-/

namespace Highlight

/-- The terminals tried in vain at the furthest place where one was. -/
structure Furthest where
  /-- Units from that place to the end of the text. -/
  remaining : Nat
  expected : List Expectation

namespace Furthest

/-- One more terminal tried in vain. A place further on replaces the record. -/
def note (furthest : Furthest) (remaining : Nat) (expectation : Expectation) : Furthest :=
  if remaining < furthest.remaining then ⟨remaining, [expectation]⟩
  else if remaining = furthest.remaining then ⟨remaining, expectation :: furthest.expected⟩
  else furthest

end Furthest

/-- Takes a value off the front of a text, or fails. -/
structure Reader (α : Type) where
  /-- The value and the rest of the text. -/
  result : Text → Option (α × Text)
  /-- The record of vain tries, extended by those of this reader. -/
  misses : Text → Furthest → Furthest

namespace Reader

variable {α β : Type}

/-- Reads nothing. -/
def succeed (a : α) : Reader α where
  result t := some (a, t)
  misses _ furthest := furthest

/-- One reader after another. -/
def andThen (p : Reader α) (f : α → Reader β) : Reader β where
  result t := match p.result t with
    | some (a, rest) => (f a).result rest
    | none => none
  misses t furthest := match p.result t with
    | some (a, rest) => (f a).misses rest (p.misses t furthest)
    | none => p.misses t furthest

/-- The first reader, or the second where the first fails. -/
def orElse (p : Reader α) (q : Unit → Reader α) : Reader α where
  result t := match p.result t with
    | some found => some found
    | none => (q ()).result t
  misses t furthest := match p.result t with
    | some _ => p.misses t furthest
    | none => (q ()).misses t (p.misses t furthest)

instance : Monad Reader where
  pure := succeed
  bind := andThen

instance : OrElse (Reader α) := ⟨orElse⟩

/-- A terminal: a test of the front of the text that takes what it accepts. -/
def terminal (expectation : Expectation) (accept : Text → Option (α × Text)) : Reader α where
  result := accept
  misses t furthest := match accept t with
    | some _ => furthest
    | none => furthest.note t.length expectation

/-- A fixed text. -/
def literal (text : Text) : Reader Unit :=
  terminal (.literal text) fun t =>
    if text.isPrefixOf t then some ((), t.drop text.length) else none

/-- One unit of a class. -/
def oneOf (members : UnitClass) : Reader CodeUnit :=
  terminal (.units members) fun t => match t with
    | u :: rest => if members.holds u then some (u, rest) else none
    | [] => none

/-- Any one unit. -/
def anyUnit : Reader CodeUnit :=
  terminal .any fun t => match t with
    | u :: rest => some (u, rest)
    | [] => none

/-- The value, or nothing read where the reader fails. -/
def optional (p : Reader α) : Reader (Option α) :=
  (do let a ← p; pure (some a)) <|> pure none

/-- What repeated reading takes, in at most as many rounds as `fuel` has units. -/
def manyResult (p : Text → Option (α × Text)) : Text → Text → List α × Text
  | [], t => ([], t)
  | _ :: fuel, t => match p t with
    | some (a, rest) =>
      let (as, rest) := manyResult p fuel rest
      (a :: as, rest)
    | none => ([], t)

/-- The vain tries of repeated reading, the last failing round included. -/
def manyMisses (p : Reader α) : Text → Text → Furthest → Furthest
  | [], t, furthest => p.misses t furthest
  | _ :: fuel, t, furthest => match p.result t with
    | some (_, rest) => manyMisses p fuel rest (p.misses t furthest)
    | none => p.misses t furthest

/-- As often as the reader succeeds. It has to take at least one unit each time, so the units of
the text are enough to count the rounds. -/
def many (p : Reader α) : Reader (List α) where
  result t := some (manyResult p.result t t)
  misses t furthest := manyMisses p t t furthest

/-- As often as the reader succeeds, and at least once. -/
def atLeastOnce (p : Reader α) : Reader (List α) := do
  let a ← p
  let as ← many p
  pure (a :: as)

/-- The reader on a whole text. What is left over is an unexpected continuation. -/
def readAll (p : Reader α) (t : Text) : Except PatternError α :=
  let failure (furthest : Furthest) : PatternError :=
    ⟨t, t.length - furthest.remaining, furthest.expected⟩
  let furthest : Furthest := ⟨t.length, []⟩
  match p.result t with
  | some (a, []) => .ok a
  | some (_, rest) => .error (failure ((p.misses t furthest).note rest.length .endOfInput))
  | none => .error (failure (p.misses t furthest))

end Reader

end Highlight
