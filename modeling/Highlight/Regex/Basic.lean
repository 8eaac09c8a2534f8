import Highlight.Text.Blank

/-!
# Regular expressions

The regular expressions that a sub-lexer runs. They work on single code units, know captures and
references to them, lookarounds in both directions and lazy repetition, and are matched by
backtracking, so the order of alternatives decides. Groups that do not capture leave no trace in
the tree.
-/

namespace Highlight

/-- A set of units given by ranges, or by the ranges left out. -/
structure UnitSet where
  negated : Bool
  ranges : List (CodeUnit × CodeUnit)
  deriving DecidableEq, Repr

namespace UnitSet

/-- Some range holds the unit. -/
def covers (ranges : List (CodeUnit × CodeUnit)) (u : CodeUnit) : Bool :=
  ranges.any fun range => range.1 ≤ u && u ≤ range.2

/-- Membership in a set. -/
def holds (set : UnitSet) (u : CodeUnit) : Bool := set.negated != covers set.ranges u

/-- The set of one unit. -/
def single (u : CodeUnit) : UnitSet := ⟨false, [(u, u)]⟩

/-- Decimal digits. -/
def digits : List (CodeUnit × CodeUnit) := [(0x30, 0x39)]

/-- ASCII letters, digits and the underscore. -/
def wordUnits : List (CodeUnit × CodeUnit) :=
  [(0x30, 0x39), (0x41, 0x5A), (0x5F, 0x5F), (0x61, 0x7A)]

/-- The blanks. -/
def blanks : List (CodeUnit × CodeUnit) := [
  (9, 13), (0x20, 0x20), (0xA0, 0xA0), (0x1680, 0x1680), (0x2000, 0x200A), (0x2028, 0x2029),
  (0x202F, 0x202F), (0x205F, 0x205F), (0x3000, 0x3000), (0xFEFF, 0xFEFF)]

/-- The units that end a line. -/
def lineEnds : List (CodeUnit × CodeUnit) := [(10, 10), (13, 13), (0x2028, 0x2029)]

/-- The gaps that ascending ranges leave from `lo` on. -/
def gaps (lo : Nat) : List (CodeUnit × CodeUnit) → List (CodeUnit × CodeUnit)
  | [] => if lo ≤ 0xFFFF then [(lo.toUInt16, 0xFFFF)] else []
  | (a, b) :: rest =>
    if lo < a.toNat then (lo.toUInt16, a - 1) :: gaps (b.toNat + 1) rest
    else gaps (b.toNat + 1) rest

/-- The ranges of all units outside ascending ranges. -/
def complement (ranges : List (CodeUnit × CodeUnit)) : List (CodeUnit × CodeUnit) := gaps 0 ranges

end UnitSet

/-- A regular expression. -/
inductive Regex where
  | empty
  | set (members : UnitSet)
  | seq (first second : Regex)
  | alt (first second : Regex)
  /-- Captures what the body matches, under a number from one on. -/
  | capture (index : Nat) (body : Regex)
  /-- What a group captured, or nothing if it took no part. -/
  | backref (index : Nat)
  | lineStart
  | lineEnd
  /-- A place where word units begin or end, or any other place. -/
  | boundary (negated : Bool)
  /-- The body matches, or does not match, after this place or before it. -/
  | look (behind negated : Bool) (body : Regex)
  /-- At least `least` times the body and at most `most` times, as often or as rarely as
  possible. -/
  | repeated (body : Regex) (least : Nat) (most : Option Nat) (greedy : Bool)
  deriving DecidableEq, Repr, Inhabited

namespace Regex

/-- The numbers of the groups that capture. -/
def captures : Regex → List Nat
  | capture index body => index :: body.captures
  | seq a b | alt a b => a.captures ++ b.captures
  | look _ _ body | repeated body _ _ _ => body.captures
  | empty | set _ | backref _ | lineStart | lineEnd | boundary _ => []

/-- The expression takes no unit, however it matches. A reference may take some. -/
def staysPut : Regex → Bool
  | empty | lineStart | lineEnd | boundary _ | look .. => true
  | set _ | backref _ => false
  | seq a b | alt a b => a.staysPut && b.staysPut
  | capture _ body => body.staysPut
  | repeated body _ most _ => most == some 0 || body.staysPut

/-- Numbers the capturing groups in the order of their opening parentheses, after `count` others.
Gives the tree and the count so far. -/
def number : Regex → Nat → Regex × Nat
  | capture _ body, count =>
    let (body, last) := body.number (count + 1)
    (capture (count + 1) body, last)
  | seq a b, count =>
    let (a, count) := a.number count
    let (b, count) := b.number count
    (seq a b, count)
  | alt a b, count =>
    let (a, count) := a.number count
    let (b, count) := b.number count
    (alt a b, count)
  | look behind negated body, count =>
    let (body, count) := body.number count
    (look behind negated body, count)
  | repeated body least most greedy, count =>
    let (body, count) := body.number count
    (repeated body least most greedy, count)
  | e, count => (e, count)

end Regex

end Highlight
