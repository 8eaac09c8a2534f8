import Highlight.Text.Basic

/-!
# Tables in order of insertion

A table is a list of pairs of a key and a value in which a key stands at most once. Setting a new
key appends it; setting a present key gives it a new value and moves nothing. Tables keep the
order in which their keys came, because answers show it.
-/

namespace Highlight

/-- Pairs of a key and its value, in order of first insertion. -/
abbrev Table (κ α : Type) := List (κ × α)

namespace Table

variable {κ α : Type} [DecidableEq κ]

/-- The value at a key. -/
def get? (table : Table κ α) (key : κ) : Option α :=
  match table with
  | [] => none
  | (k, v) :: rest => if k = key then some v else get? rest key

/-- The key has a value. -/
def has (table : Table κ α) (key : κ) : Bool := (get? table key).isSome

/-- The table with `value` at `key`: in place if the key is present, else at the end. -/
def set (table : Table κ α) (key : κ) (value : α) : Table κ α :=
  match table with
  | [] => [(key, value)]
  | (k, v) :: rest => if k = key then (k, value) :: rest else (k, v) :: set rest key value

/-- The table of a list of settings: each key at its first place with its last value. -/
def ofList (entries : List (κ × α)) : Table κ α :=
  entries.foldl (fun table entry => set table entry.1 entry.2) []

def keys (table : Table κ α) : List κ := table.map (·.1)

def values (table : Table κ α) : List α := table.map (·.2)

end Table

namespace Table

/-- The number that a key stands for when it is written as a list position: digits without a
leading zero, below `2 ^ 32 - 1`. -/
def position? (key : Text) : Option Nat :=
  match key with
  | [] => none
  | u :: r =>
    if (u = unit '0' && !r.isEmpty) || !key.all CodeUnit.isDigit || 10 < key.length then none
    else
      let n := Text.decimal key
      if n < 0xFFFFFFFF then some n else none

/-- Keys that are list positions first, in numeric order, then the others in their own order. -/
def positionsFirst {α : Type} (table : Table Text α) : Table Text α :=
  let positions := table.filterMap fun entry => (position? entry.1).map fun n => (n, entry)
  let others := table.filter fun entry => (position? entry.1).isNone
  (positions.mergeSort fun p q => decide (p.1 ≤ q.1)).map (·.2) ++ others

end Table

end Highlight
