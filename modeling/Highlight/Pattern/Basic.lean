import Highlight.Table

/-!
# Patterns

The tree of a regular expression as the sampler and the dialect rules understand it. Lookarounds
keep their body but not their direction, and all anchors are one, because both stand for the empty
text. Capturing groups carry their number: `Pattern.number` counts them from left to right by
their opening parentheses, and until then the number is zero.
-/

namespace Highlight

/-- A class of units named by a letter, or the dot. -/
inductive ClassName where
  | digit | word | space | notDigit | notWord | notSpace | any
  deriving DecidableEq, Repr

/-- An item of a bracketed set. -/
inductive ClassItem where
  /-- The units from `lo` to `hi`, both included; none if `hi < lo`. -/
  | range (lo hi : CodeUnit)
  | named (name : ClassName)
  deriving DecidableEq, Repr

/-- What a back-reference points at. -/
inductive Reference where
  | index (n : Nat)
  | name (name : Text)
  deriving DecidableEq, Repr

/-- What a capturing group is known by. -/
structure Capture where
  /-- Position among the capturing groups, from one; zero in a tree that is not numbered. -/
  index : Nat
  name : Option Text
  deriving DecidableEq, Repr

/-- A regular expression. -/
inductive Pattern where
  | alt (options : List Pattern)
  | seq (items : List Pattern)
  | char (value : CodeUnit)
  | set (negated : Bool) (items : List ClassItem)
  /-- A group, capturing or not. -/
  | group (capture : Option Capture) (body : Pattern)
  | look (body : Pattern)
  | anchor
  /-- At least `least` times the body, and at most `most` times if there is a bound. -/
  | repeated (body : Pattern) (least : Nat) (most : Option Nat)
  | backref (target : Reference)
  deriving Repr, Inhabited

/-- The count of capturing groups met so far, and the number of each named one. -/
structure Numbering where
  count : Nat
  /-- A name that occurs twice belongs to the later group. -/
  names : Table Text Nat
  deriving Repr

namespace Numbering

def empty : Numbering := ⟨0, []⟩

/-- One more capturing group. -/
def enter (numbering : Numbering) (name : Option Text) : Numbering :=
  let index := numbering.count + 1
  match name with
  | none => ⟨index, numbering.names⟩
  | some name => ⟨index, Table.set numbering.names name index⟩

end Numbering

namespace Pattern

mutual

/-- Numbers the capturing groups in the order of their opening parentheses. -/
def number : Pattern → Numbering → Pattern × Numbering
  | alt options, s => let (options, s) := numberAll options s; (alt options, s)
  | seq items, s => let (items, s) := numberAll items s; (seq items, s)
  | group none body, s => let (body, s) := number body s; (group none body, s)
  | group (some capture) body, s =>
    let index := s.count + 1
    let (body, s) := number body (s.enter capture.name)
    (group (some ⟨index, capture.name⟩) body, s)
  | look body, s => let (body, s) := number body s; (look body, s)
  | repeated body least most, s => let (body, s) := number body s; (repeated body least most, s)
  | char value, s => (char value, s)
  | set negated items, s => (set negated items, s)
  | anchor, s => (anchor, s)
  | backref target, s => (backref target, s)

def numberAll : List Pattern → Numbering → List Pattern × Numbering
  | [], s => ([], s)
  | item :: rest, s =>
    let (item, s) := number item s
    let (rest, s) := numberAll rest s
    (item :: rest, s)

end

end Pattern

/-- A pattern with its groups numbered. -/
structure NumberedPattern where
  root : Pattern
  groupCount : Nat
  /-- The number of each named group, in order of the first group of that name. -/
  names : Table Text Nat
  deriving Repr

/-- The pattern with its groups numbered from one. -/
def Pattern.numbered (root : Pattern) : NumberedPattern :=
  let (root, numbering) := root.number .empty
  ⟨root, numbering.count, numbering.names⟩

end Highlight
