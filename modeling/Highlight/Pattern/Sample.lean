import Highlight.Number.Basic
import Highlight.Pattern.Grammar
import Highlight.Text.Blank

/-!
# Samples of a pattern

Texts that a pattern matches, listed depth first: alternatives in order, repetitions from the
fewest on, the last part of a sequence varying fastest, the members of a set by code unit. Every
repetition is cut at an expansion limit, so the list is finite, and a quota of steps ends the
search early. The search is written with continuations: an `Enumerator` hands every sample it
finds to the code that goes on from there, and the state of the search, `Search`, is passed along.
A repetition is expanded to a list of its parts; where no list has that length, the search breaks
down and gives no samples at all.
-/

namespace Highlight

namespace ClassName

/-- Membership of a unit in a named class. -/
def holds : ClassName → CodeUnit → Bool
  | digit, u => u.isDigit
  | word, u => u.isWord
  | space, u => u.isBlank
  | notDigit, u => !u.isDigit
  | notWord, u => !u.isWord
  | notSpace, u => !u.isBlank
  | any, u => u != 10

end ClassName

namespace ClassItem

/-- Membership of a unit in an item of a set. -/
def holds : ClassItem → CodeUnit → Bool
  | range lo hi, u => lo ≤ u && u ≤ hi
  | named name, u => name.holds u

end ClassItem

namespace Sampling

/-- The units that stand for an open class: tab, line feed, vertical tab, form feed, carriage
return and printable ASCII. -/
def alphabet : List CodeUnit :=
  [9, 10, 11, 12, 13] ++ (List.range (0x7F - 0x20)).map fun i => (0x20 + i).toUInt16

/-- The widest range that a set contributes before it is cut off. -/
def widestRange : Nat := 256

/-- Steps allowed per wanted sample and unit of the expansion limit. -/
def stepsPerCandidate : Nat := 10

/-- The members that an item contributes to a set. -/
def itemMembers : ClassItem → List CodeUnit
  | .range lo hi =>
    (List.range' lo.toNat (min (hi.toNat + 1 - lo.toNat) widestRange)).map Nat.toUInt16
  | .named name => alphabet.filter name.holds

/-- Ascending units with neighbours that are equal merged. -/
def dropRepeats : List CodeUnit → List CodeUnit
  | [] => []
  | [u] => [u]
  | u :: v :: rest => if u = v then dropRepeats (v :: rest) else u :: dropRepeats (v :: rest)

/-- The members of a set in ascending order. A negated set ranges over the alphabet only. -/
def members (negated : Bool) (items : List ClassItem) : List CodeUnit :=
  if negated then alphabet.filter fun u => !items.any fun item => item.holds u
  else dropRepeats ((items.flatMap itemMembers).mergeSort fun u v => decide (u ≤ v))

end Sampling

/-- The texts of the capturing groups passed so far, the latest first. -/
abbrev Captures := List (Nat × Text)

/-- The text of a group, empty if the group was not passed. -/
def Captures.textOf (captures : Captures) (index : Nat) : Text :=
  (List.lookup index captures).getD []

/-- A part of a sample, and the captures after it. -/
structure Expansion where
  text : Text
  captures : Captures

/-- The state of a search for samples. -/
structure Search where
  /-- Steps tried. -/
  steps : Nat
  /-- Samples still wanted. -/
  wanted : Nat
  /-- Samples found, the latest first. -/
  found : List Text
  /-- The search broke down. -/
  isBroken : Bool

/-- What bounds a search. -/
structure Quota where
  /-- Steps allowed. -/
  steps : Nat
  /-- Greatest count at which a repetition is expanded. -/
  expansion : Nat
  /-- The expansion limit is a whole number; if not, the greatest count is its whole part. -/
  isWhole : Bool
  /-- The numbers of the named groups. -/
  names : Table Text Nat

/-- A length that no list has. -/
def lengthBound : Nat := 0x100000000

/-- The fewest repetitions are a whole number, so that lists can be that long. -/
def Quota.canStart (quota : Quota) (least : Nat) (most : Option Nat) : Bool :=
  quota.isWhole || least ≤ quota.expansion || most.any (· ≤ quota.expansion)

/-- Goes on with a search from an expansion. -/
abbrev Continuation := Expansion → Search → Search

/-- Hands on every expansion of a part of a pattern, in order. -/
structure Enumerator where
  run : Captures → Continuation → Search → Search

namespace Search

/-- One more step. Past the quota nothing goes on, and once no sample is wanted nothing counts. -/
def tick (quota : Quota) (next : Search → Search) (search : Search) : Search :=
  if search.wanted = 0 then search
  else
    let search := { search with steps := search.steps + 1 }
    if search.steps ≤ quota.steps then next search else search

/-- Ends the search for good. -/
def breakDown (search : Search) : Search := { search with wanted := 0, isBroken := true }

/-- One more sample, if one is wanted. -/
def keep (expansion : Expansion) (search : Search) : Search :=
  match search.wanted with
  | 0 => search
  | wanted + 1 => { search with wanted, found := expansion.text :: search.found }

end Search

namespace Enumerator

/-- Expansions of parts one after the other. -/
def runAll (quota : Quota) : List Enumerator → Captures → Continuation → Search → Search
  | [], captures, next, search => search.tick quota (next ⟨[], captures⟩)
  | part :: parts, captures, next, search =>
    search.tick quota <| part.run captures fun head search =>
      runAll quota parts head.captures
        (fun tail search => next ⟨head.text ++ tail.text, tail.captures⟩ search) search

/-- Expansions of each alternative in turn. -/
def runAny (parts : List Enumerator) (captures : Captures) (next : Continuation) (search : Search) :
    Search :=
  parts.foldl (fun search part => part.run captures next search) search

/-- Expansions of a number of repetitions of a part. -/
def runTimes (quota : Quota) (part : Enumerator) :
    Nat → Captures → Continuation → Search → Search
  | 0, captures, next, search => search.tick quota (next ⟨[], captures⟩)
  | count + 1, captures, next, search =>
    search.tick quota <| part.run captures fun head search =>
      runTimes quota part count head.captures
        (fun tail search => next ⟨head.text ++ tail.text, tail.captures⟩ search) search

/-- Expansions of `count` repetitions of a part, of one more, and so on for `more` counts. Where
no step is left, the counts only matter as lengths of lists. -/
def runCounts (quota : Quota) (part : Enumerator) (captures : Captures) (next : Continuation) :
    Nat → Nat → Search → Search
  | 0, _, search => search
  | more + 1, count, search =>
    if search.wanted = 0 then search
    else if lengthBound ≤ count then search.breakDown
    else if quota.steps ≤ search.steps then
      if lengthBound ≤ count + more then search.breakDown else search
    else
      let search := runTimes quota part count captures next search
      runCounts quota part captures next more (count + 1) search

/-- Expansions of `least` to `most` repetitions of a part, the fewest first. -/
def runRepeated (quota : Quota) (part : Enumerator) (least : Nat) (most : Option Nat)
    (captures : Captures) (next : Continuation) (search : Search) : Search :=
  if !quota.canStart least most then search.breakDown
  else
    let most := match most with
      | none => quota.expansion
      | some most => min most quota.expansion
    let least := min least most
    runCounts quota part captures next (most + 1 - least) least search

/-- One step, then the given expansions. -/
def step (quota : Quota) (run : Captures → Continuation → Search → Search) : Enumerator where
  run captures next search := search.tick quota (run captures next)

end Enumerator

namespace Pattern

open Enumerator

mutual

/-- The expansions of a pattern. -/
def enumerator (quota : Quota) : Pattern → Enumerator
  | char value => step quota fun captures next => next ⟨[value], captures⟩
  | set negated items =>
    let members := Sampling.members negated items
    step quota fun captures next search =>
      members.foldl (fun search u => next ⟨[u], captures⟩ search) search
  | anchor => step quota fun captures next => next ⟨[], captures⟩
  | look _ => step quota fun captures next => next ⟨[], captures⟩
  | seq items =>
    let parts := enumerators quota items
    step quota (runAll quota parts)
  | alt options =>
    let parts := enumerators quota options
    step quota (runAny parts)
  | group none body =>
    let part := enumerator quota body
    step quota part.run
  | group (some capture) body =>
    let part := enumerator quota body
    step quota fun captures next => part.run captures fun inner =>
      next ⟨inner.text, (capture.index, inner.text) :: inner.captures⟩
  | backref (.index n) => step quota fun captures next => next ⟨captures.textOf n, captures⟩
  | backref (.name name) =>
    let index := Table.get? quota.names name
    step quota fun captures next =>
      next ⟨(index.map captures.textOf).getD [], captures⟩
  | repeated body least most =>
    let part := enumerator quota body
    step quota (runRepeated quota part least most)

def enumerators (quota : Quota) : List Pattern → List Enumerator
  | [] => []
  | item :: rest => enumerator quota item :: enumerators quota rest

end

end Pattern

/-- How many samples are taken of a pattern, and how much work that may be. -/
structure SampleBounds where
  /-- Samples wanted. -/
  candidates : Nat
  /-- Greatest count at which a repetition is expanded. -/
  expansion : Nat
  /-- The limit that gave this count is a whole number. -/
  isWhole : Bool
  /-- Steps allowed. -/
  steps : Nat
  deriving DecidableEq, Repr

namespace SampleBounds

/-- The bounds for two limits. No search goes on for more than `candidates * expansion * 10`
steps. -/
def ofNat (candidates expansion : Nat) : SampleBounds :=
  ⟨candidates, expansion, true, candidates * expansion * Sampling.stepsPerCandidate⟩

/-- The bounds for limits that need not be whole: samples are taken while fewer than `candidates`
have been found, and repetitions and steps count as long as they do not go beyond. -/
def ofNumbers (candidates expansion : Number) : SampleBounds :=
  ⟨candidates.ceilNat, expansion.floorNat, expansion.isInteger || !expansion.isFinite,
    ((candidates.times expansion).times (.integer Sampling.stepsPerCandidate)).floorNat⟩

end SampleBounds

namespace NumberedPattern

/-- The samples of a pattern within bounds, or none at all if the search breaks down. -/
def samples? (pattern : NumberedPattern) (bounds : SampleBounds) : Option (List Text) :=
  let quota : Quota := ⟨bounds.steps, bounds.expansion, bounds.isWhole, pattern.names⟩
  let search := (pattern.root.enumerator quota).run [] Search.keep ⟨0, bounds.candidates, [], false⟩
  if search.isBroken then none else some search.found.reverse

end NumberedPattern

namespace Sampling

/-- A text without its line feeds and carriage returns. -/
def flat (t : Text) : Text := t.filter fun u => u != 10 && u != 13

/-- The longest text once line breaks are gone, the first of several. -/
def longest (ts : List Text) : Text :=
  ts.foldl (fun best t => if best.length < (flat t).length then flat t else best) []

end Sampling

end Highlight
