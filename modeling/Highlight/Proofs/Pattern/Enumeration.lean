import Highlight.Pattern.Sample

/-!
# The enumeration of a pattern

`Pattern.expansions` lists what a pattern expands to, depth first and without a budget:
alternatives in order, repetitions from the fewest on, the last part of a sequence varying
fastest. `Pattern.walk` is the same enumeration with all that happens on the way, in particular
one step for each part and for each place in a sequence. `finds_walk` joins the two: what a walk
finds are the expansions.
-/

namespace Highlight

/-- An expansion of what comes behind, with the text in front. -/
def Expansion.after (head tail : Expansion) : Expansion := ⟨head.text ++ tail.text, tail.captures⟩

/-- What happens on the way through an enumeration. -/
inductive Event where
  | step
  /-- A repetition is to be expanded a number of times that no list is long. -/
  | breaks
  | found (expansion : Expansion)

/-- All that happens in an enumeration, in order. -/
abbrev Walk := List Event

namespace Walk

/-- A walk that goes on at each expansion that it finds. -/
def bind (walk : Walk) (next : Expansion → Walk) : Walk :=
  walk.flatMap fun
    | .found expansion => next expansion
    | event => [event]

/-- The expansions that a walk finds. -/
def finds (walk : Walk) : List Expansion :=
  walk.filterMap fun
    | .found expansion => some expansion
    | _ => none

/-- The number of steps of a walk. -/
def steps (walk : Walk) : Nat := walk.countP fun
  | .step => true
  | _ => false

variable {walk left right : Walk} {next : Expansion → Walk} {expansion : Expansion}

@[simp] theorem bind_nil : bind [] next = [] := rfl

@[simp] theorem bind_step : bind (.step :: walk) next = .step :: bind walk next := rfl

@[simp] theorem bind_breaks : bind (.breaks :: walk) next = .breaks :: bind walk next := rfl

@[simp] theorem bind_found :
    bind (.found expansion :: walk) next = next expansion ++ bind walk next := rfl

@[simp] theorem bind_single : bind [.found expansion] next = next expansion := by simp

@[simp] theorem bind_append : bind (left ++ right) next = bind left next ++ bind right next :=
  List.flatMap_append

theorem bind_map_found {α : Type} (list : List α) (found : α → Expansion) :
    bind (list.map fun a => .found (found a)) next = list.flatMap fun a => next (found a) := by
  simp [bind, List.flatMap_map]

@[simp] theorem finds_nil : finds [] = [] := rfl

@[simp] theorem finds_step : finds (.step :: walk) = finds walk := rfl

@[simp] theorem finds_breaks : finds (.breaks :: walk) = finds walk := rfl

@[simp] theorem finds_found : finds (.found expansion :: walk) = expansion :: finds walk := rfl

@[simp] theorem finds_append : finds (left ++ right) = finds left ++ finds right :=
  List.filterMap_append

@[simp] theorem steps_nil : steps [] = 0 := rfl

@[simp] theorem steps_step : steps (.step :: walk) = steps walk + 1 := by
  simp [steps]

@[simp] theorem steps_breaks : steps (.breaks :: walk) = steps walk := rfl

@[simp] theorem steps_found : steps (.found expansion :: walk) = steps walk := rfl

@[simp] theorem steps_append : steps (left ++ right) = steps left + steps right :=
  List.countP_append

theorem bind_bind {last : Expansion → Walk} :
    bind (bind walk next) last = bind walk fun expansion => bind (next expansion) last := by
  induction walk with
  | nil => rfl
  | cons event walk ih =>
    cases event with
    | step => simp [ih]
    | breaks => simp [ih]
    | found expansion => simp [ih]

theorem bind_self : (bind walk fun expansion => [.found expansion]) = walk := by
  induction walk with
  | nil => rfl
  | cons event walk ih =>
    cases event with
    | step => simp [ih]
    | breaks => simp [ih]
    | found expansion => simp [ih]

theorem steps_bind_found {change : Expansion → Expansion} :
    steps (bind walk fun e => [.found (change e)]) = steps walk := by
  induction walk with
  | nil => rfl
  | cons event walk ih =>
    cases event with
    | step => simp [ih]
    | breaks => simp [ih]
    | found expansion => simp [ih]

theorem finds_bind : finds (bind walk next) = (finds walk).flatMap fun e => finds (next e) := by
  induction walk with
  | nil => rfl
  | cons event walk ih =>
    cases event with
    | step => simpa using ih
    | breaks => simpa using ih
    | found expansion => simp [ih]

theorem finds_map_found {α : Type} (list : List α) (found : α → Expansion) :
    finds (list.map fun a => .found (found a)) = list.map found := by
  induction list with
  | nil => rfl
  | cons a list ih => simp [ih]

theorem finds_flatMap {α : Type} (list : List α) (part : α → Walk) :
    finds (list.flatMap part) = list.flatMap fun a => finds (part a) := by
  induction list with
  | nil => rfl
  | cons a list ih => simp [ih]

theorem bind_flatMap {α : Type} (list : List α) (part : α → Walk) :
    bind (list.flatMap part) next = list.flatMap fun a => bind (part a) next := by
  induction list with
  | nil => rfl
  | cons a list ih => simp [ih]

theorem breaks_of_bind (inside : .breaks ∈ bind walk next) :
    .breaks ∈ walk ∨ ∃ expansion, .breaks ∈ next expansion := by
  obtain ⟨event, drawn, inside⟩ := List.mem_flatMap.1 inside
  cases event with
  | step => simp at inside
  | breaks => exact .inl drawn
  | found expansion => exact .inr ⟨expansion, inside⟩

end Walk

namespace Pattern

/-- The greatest count of a repetition under the expansion limit. -/
def mostCopies (limit : Nat) (most : Option Nat) : Nat := min (most.getD limit) limit

/-- The first count of a repetition under the expansion limit. -/
def leastCopies (limit least : Nat) (most : Option Nat) : Nat := min least (mostCopies limit most)

/-- The counts of a repetition, ascending. -/
def copies (limit least : Nat) (most : Option Nat) : List Nat :=
  List.range' (leastCopies limit least most)
    (mostCopies limit most + 1 - leastCopies limit least most)

/-- Expansions of a number of copies of a body, one behind the other. -/
def copyExpansions (body : Captures → List Expansion) : Nat → Captures → List Expansion
  | 0, captures => [⟨[], captures⟩]
  | count + 1, captures =>
    (body captures).flatMap fun head =>
      (copyExpansions body count head.captures).map head.after

/-- The walk through a number of copies of a body. -/
def copyWalk (body : Captures → Walk) : Nat → Captures → Walk
  | 0, captures => [.step, .found ⟨[], captures⟩]
  | count + 1, captures =>
    .step :: (body captures).bind fun head =>
      (copyWalk body count head.captures).bind fun tail => [.found (head.after tail)]

/-- The walk through a number of copies, which breaks down where no list is that long. -/
def countWalk (body : Captures → Walk) (count : Nat) (captures : Captures) : Walk :=
  (if lengthBound ≤ count then [.breaks] else []) ++ copyWalk body count captures

/-- What a reference stands for: the text of a group that was passed, or nothing. -/
def referredText (names : Table Text Nat) (captures : Captures) : Reference → Text
  | .index n => captures.textOf n
  | .name name => ((Table.get? names name).map captures.textOf).getD []

variable (limit : Nat) (names : Table Text Nat)

mutual

/-- The expansions of a pattern in order, where no repetition goes beyond the limit. -/
def expansions : Pattern → Captures → List Expansion
  | char value, captures => [⟨[value], captures⟩]
  | set negated items, captures => (Sampling.members negated items).map fun u => ⟨[u], captures⟩
  | anchor, captures => [⟨[], captures⟩]
  | look _, captures => [⟨[], captures⟩]
  | seq items, captures => seqExpansions items captures
  | alt options, captures => altExpansions options captures
  | group none body, captures => expansions body captures
  | group (some capture) body, captures =>
    (expansions body captures).map fun inner =>
      ⟨inner.text, (capture.index, inner.text) :: inner.captures⟩
  | backref target, captures => [⟨referredText names captures target, captures⟩]
  | repeated body least most, captures =>
    (copies limit least most).flatMap fun count =>
      copyExpansions (fun captures => expansions body captures) count captures

/-- The expansions of parts one behind the other; the first part varies slowest. -/
def seqExpansions : List Pattern → Captures → List Expansion
  | [], captures => [⟨[], captures⟩]
  | item :: items, captures =>
    (expansions item captures).flatMap fun head =>
      (seqExpansions items head.captures).map head.after

/-- The expansions of alternatives, in order. -/
def altExpansions : List Pattern → Captures → List Expansion
  | [], _ => []
  | option :: options, captures => expansions option captures ++ altExpansions options captures

end

mutual

/-- The walk through the expansions of a pattern. -/
def walk : Pattern → Captures → Walk
  | char value, captures => [.step, .found ⟨[value], captures⟩]
  | set negated items, captures =>
    .step :: (Sampling.members negated items).map fun u => .found ⟨[u], captures⟩
  | anchor, captures => [.step, .found ⟨[], captures⟩]
  | look _, captures => [.step, .found ⟨[], captures⟩]
  | seq items, captures => .step :: seqWalk items captures
  | alt options, captures => .step :: altWalk options captures
  | group none body, captures => .step :: walk body captures
  | group (some capture) body, captures =>
    .step :: (walk body captures).bind fun inner =>
      [.found ⟨inner.text, (capture.index, inner.text) :: inner.captures⟩]
  | backref target, captures => [.step, .found ⟨referredText names captures target, captures⟩]
  | repeated body least most, captures =>
    .step :: (copies limit least most).flatMap fun count =>
      countWalk (fun captures => walk body captures) count captures

/-- The walk through parts one behind the other. -/
def seqWalk : List Pattern → Captures → Walk
  | [], captures => [.step, .found ⟨[], captures⟩]
  | item :: items, captures =>
    .step :: (walk item captures).bind fun head =>
      (seqWalk items head.captures).bind fun tail => [.found (head.after tail)]

/-- The walk through alternatives. -/
def altWalk : List Pattern → Captures → Walk
  | [], _ => []
  | option :: options, captures => walk option captures ++ altWalk options captures

end

theorem copyWalk_first (body : Captures → Walk) (count : Nat) (captures : Captures) :
    ∃ rest, copyWalk body count captures = .step :: rest := by
  cases count <;> exact ⟨_, rfl⟩

section Finds

variable {limit : Nat} {names : Table Text Nat}

theorem finds_copyWalk {body : Captures → Walk} {listed : Captures → List Expansion}
    (finds : ∀ captures, (body captures).finds = listed captures) (count : Nat)
    (captures : Captures) :
    (copyWalk body count captures).finds = copyExpansions listed count captures := by
  induction count generalizing captures with
  | zero => rfl
  | succ count ih =>
    simp [copyWalk, copyExpansions, Walk.finds_bind, finds, ih, List.map_eq_flatMap]

theorem finds_countWalk {body : Captures → Walk} {listed : Captures → List Expansion}
    (finds : ∀ captures, (body captures).finds = listed captures) (count : Nat)
    (captures : Captures) :
    (countWalk body count captures).finds = copyExpansions listed count captures := by
  rw [countWalk, Walk.finds_append, finds_copyWalk finds]
  split <;> rfl

mutual

/-- A walk through a pattern finds the expansions of the pattern, in their order. -/
theorem finds_walk : ∀ (pattern : Pattern) (captures : Captures),
    (walk limit names pattern captures).finds = expansions limit names pattern captures
  | char _, _ => rfl
  | set _ _, _ => by rw [walk, expansions, Walk.finds_step, Walk.finds_map_found]
  | anchor, _ => rfl
  | look _, _ => rfl
  | seq items, captures => by
    rw [walk, expansions, Walk.finds_step, finds_seqWalk items captures]
  | alt options, captures => by
    rw [walk, expansions, Walk.finds_step, finds_altWalk options captures]
  | group none body, captures => by
    rw [walk, expansions, Walk.finds_step, finds_walk body captures]
  | group (some _) body, captures => by
    simp [walk, expansions, Walk.finds_bind, finds_walk body captures, List.map_eq_flatMap]
  | backref _, _ => rfl
  | repeated body _ _, captures => by
    simp only [walk, expansions, Walk.finds_step, Walk.finds_flatMap,
      finds_countWalk (finds_walk body)]

theorem finds_seqWalk : ∀ (items : List Pattern) (captures : Captures),
    (seqWalk limit names items captures).finds = seqExpansions limit names items captures
  | [], _ => rfl
  | item :: items, captures => by
    simp [seqWalk, seqExpansions, Walk.finds_bind, finds_walk item, finds_seqWalk items,
      List.map_eq_flatMap]

theorem finds_altWalk : ∀ (options : List Pattern) (captures : Captures),
    (altWalk limit names options captures).finds = altExpansions limit names options captures
  | [], _ => rfl
  | option :: options, captures => by
    simp [altWalk, altExpansions, finds_walk option, finds_altWalk options]

end

end Finds

section Breaks

variable {limit : Nat} {names : Table Text Nat}

theorem breaks_of_copyWalk {body : Captures → Walk} (count : Nat) {captures : Captures}
    (inside : .breaks ∈ copyWalk body count captures) : ∃ captures, .breaks ∈ body captures := by
  induction count generalizing captures with
  | zero => simp [copyWalk] at inside
  | succ count ih =>
    simp only [copyWalk, List.mem_cons, reduceCtorEq, false_or] at inside
    obtain inside | ⟨head, inside⟩ := Walk.breaks_of_bind inside
    · exact ⟨captures, inside⟩
    · obtain inside | ⟨tail, inside⟩ := Walk.breaks_of_bind inside
      · exact ih inside
      · simp at inside

/-- A repetition breaks a walk down at counts within the limit only. -/
theorem breaks_of_countWalk {body : Captures → Walk} {count : Nat} {captures : Captures}
    (inside : .breaks ∈ countWalk body count captures) :
    lengthBound ≤ count ∨ ∃ captures, .breaks ∈ body captures := by
  obtain inside | inside := List.mem_append.1 inside
  · split at inside
    · exact .inl ‹_›
    · simp at inside
  · exact .inr (breaks_of_copyWalk count inside)

theorem le_of_mem_copies {least count : Nat} {most : Option Nat}
    (inside : count ∈ copies limit least most) : count ≤ limit := by
  simp only [copies, List.mem_range'_1] at inside
  have : leastCopies limit least most ≤ mostCopies limit most := Nat.min_le_right _ _
  have : mostCopies limit most ≤ limit := Nat.min_le_right _ _
  omega

mutual

/-- Under a limit that is the length of a list no walk breaks down. -/
theorem bound_le_of_breaks : ∀ (pattern : Pattern) (captures : Captures),
    .breaks ∈ walk limit names pattern captures → lengthBound ≤ limit
  | char _, _, inside | anchor, _, inside | look _, _, inside | backref _, _, inside => by
    simp [walk] at inside
  | set _ _, _, inside => by simp [walk] at inside
  | seq items, captures, inside => by
    simp only [walk, List.mem_cons, reduceCtorEq, false_or] at inside
    exact bound_le_of_breaks_seq items captures inside
  | alt options, captures, inside => by
    simp only [walk, List.mem_cons, reduceCtorEq, false_or] at inside
    exact bound_le_of_breaks_alt options captures inside
  | group none body, captures, inside => by
    simp only [walk, List.mem_cons, reduceCtorEq, false_or] at inside
    exact bound_le_of_breaks body captures inside
  | group (some _) body, captures, inside => by
    simp only [walk, List.mem_cons, reduceCtorEq, false_or] at inside
    obtain inside | ⟨inner, inside⟩ := Walk.breaks_of_bind inside
    · exact bound_le_of_breaks body captures inside
    · simp at inside
  | repeated body _ _, captures, inside => by
    simp only [walk, List.mem_cons, reduceCtorEq, false_or] at inside
    obtain ⟨count, listed, inside⟩ := List.mem_flatMap.1 inside
    obtain long | ⟨captures, inside⟩ := breaks_of_countWalk inside
    · exact Nat.le_trans long (le_of_mem_copies listed)
    · exact bound_le_of_breaks body captures inside

theorem bound_le_of_breaks_seq : ∀ (items : List Pattern) (captures : Captures),
    .breaks ∈ seqWalk limit names items captures → lengthBound ≤ limit
  | [], _, inside => by simp [seqWalk] at inside
  | item :: items, captures, inside => by
    simp only [seqWalk, List.mem_cons, reduceCtorEq, false_or] at inside
    obtain inside | ⟨head, inside⟩ := Walk.breaks_of_bind inside
    · exact bound_le_of_breaks item captures inside
    · obtain inside | ⟨tail, inside⟩ := Walk.breaks_of_bind inside
      · exact bound_le_of_breaks_seq items head.captures inside
      · simp at inside

theorem bound_le_of_breaks_alt : ∀ (options : List Pattern) (captures : Captures),
    .breaks ∈ altWalk limit names options captures → lengthBound ≤ limit
  | [], _, inside => by simp [altWalk] at inside
  | option :: options, captures, inside => by
    obtain inside | inside := List.mem_append.1 inside
    · exact bound_le_of_breaks option captures inside
    · exact bound_le_of_breaks_alt options captures inside

end

end Breaks

end Pattern

end Highlight
