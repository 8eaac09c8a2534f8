import Highlight.Proofs.Pattern.Meaning
import Highlight.Proofs.Pattern.Enumeration

/-!
# Patterns as parts of larger ones

Where a pattern becomes a part of a larger one, its groups get higher numbers (`number_raised`), and
its references go by the numbers and names of the larger one. The expansions of the part are those
of the pattern alone, with the same texts and the captures under the higher numbers, if each
reference still refers to the same group of the pattern (`expansions_raised`).
-/

namespace Highlight

/-- The captures of groups with numbers higher by `base`. -/
def Captures.raised (base : Nat) (captures : Captures) : Captures :=
  captures.map fun capture => (base + capture.1, capture.2)

def Expansion.raised (base : Nat) (expansion : Expansion) : Expansion :=
  ⟨expansion.text, expansion.captures.raised base⟩

/-- Only groups with numbers up to the count have captured. -/
def Captures.Within (count : Nat) (captures : Captures) : Prop :=
  ∀ capture ∈ captures, 1 ≤ capture.1 ∧ capture.1 ≤ count

/-- The number of the group that is referred to; none if no group has the name. -/
def Reference.index? (names : Table Text Nat) : Reference → Option Nat
  | .index n => some n
  | .name n => Table.get? names n

/-- With the other names and numbers higher by `base`, the reference refers to the same of the first
`count` groups as before, or to none of them as before. -/
def Reference.Follows (base count : Nat) (names names' : Table Text Nat) (target : Reference) : Prop :=
  ∀ k, 1 ≤ k → k ≤ count →
    (target.index? names = some k ↔ target.index? names' = some (base + k))

namespace Captures

variable {base count n : Nat} {captures : Captures}

theorem textOf_cons (m : Nat) (t : Text) :
    textOf ((m, t) :: captures) n = if n = m then t else captures.textOf n := by
  by_cases same : n = m
  · subst same
    simp [textOf]
  · have other : (n == m) = false := beq_eq_false_iff_ne.2 same
    simp [textOf, List.lookup, other, same]

theorem textOf_raised : (captures.raised base).textOf (base + n) = captures.textOf n := by
  induction captures with
  | nil => rfl
  | cons capture captures ih =>
    have rest : textOf (raised base captures) (base + n) = textOf captures n := ih
    obtain ⟨m, t⟩ := capture
    show textOf ((base + m, t) :: raised base captures) (base + n) = _
    rw [textOf_cons, textOf_cons, rest]
    simp

theorem textOf_of_not_mem (none : ∀ capture ∈ captures, capture.1 ≠ n) : captures.textOf n = [] := by
  induction captures with
  | nil => rfl
  | cons capture captures ih =>
    obtain ⟨here, later⟩ := List.forall_mem_cons.1 none
    obtain ⟨m, t⟩ := capture
    rw [textOf_cons, if_neg (Ne.symm here), ih later]

theorem Within.cons {m : Nat} {t : Text} (within : captures.Within count) (least : 1 ≤ m)
    (most : m ≤ count) : Captures.Within count ((m, t) :: captures) :=
  List.forall_mem_cons.2 ⟨⟨least, most⟩, within⟩

end Captures

namespace Pattern

theorem referredText_eq (names : Table Text Nat) (captures : Captures) (target : Reference) :
    referredText names captures target = ((target.index? names).map captures.textOf).getD [] := by
  cases target <;> rfl

/-- A reference that follows stands for the same text. -/
theorem referredText_raised {base count : Nat} {names names' : Table Text Nat} {target : Reference}
    {captures : Captures} (follows : target.Follows base count names names')
    (within : captures.Within count) :
    referredText names' (captures.raised base) target = referredText names captures target := by
  rw [referredText_eq, referredText_eq]
  -- a number is that of one of the groups before and behind, or it is that of none of them
  by_cases own : ∃ k, 1 ≤ k ∧ k ≤ count ∧ target.index? names = some k
  · obtain ⟨k, least, most, before⟩ := own
    have behind := (follows k least most).1 before
    rw [before, behind]
    exact Captures.textOf_raised
  · have before : ((target.index? names).map captures.textOf).getD [] = [] := by
      cases found : target.index? names with
      | none => rfl
      | some n =>
        refine Captures.textOf_of_not_mem fun capture inside same => own ?_
        obtain ⟨least, most⟩ := within capture inside
        exact ⟨n, same ▸ least, same ▸ most, found⟩
    have behind : ((target.index? names').map (captures.raised base).textOf).getD [] = [] := by
      cases found : target.index? names' with
      | none => rfl
      | some n =>
        refine Captures.textOf_of_not_mem fun raised listed same => own ?_
        obtain ⟨capture, inside, rfl⟩ := List.mem_map.1 listed
        obtain ⟨least, most⟩ := within capture inside
        exact ⟨capture.1, least, most, (follows _ least most).2 (found.trans (congrArg some same.symm))⟩
    rw [before, behind]

mutual

/-- The pattern with its groups numbered higher. -/
def raised (base : Nat) : Pattern → Pattern
  | alt options => alt (raisedAll base options)
  | seq items => seq (raisedAll base items)
  | group capture body =>
    group (capture.map fun capture => ⟨base + capture.index, capture.name⟩) (raised base body)
  | look body => look (raised base body)
  | repeated body least most => repeated (raised base body) least most
  | char value => char value
  | set negated items => set negated items
  | anchor => anchor
  | backref target => backref target

def raisedAll (base : Nat) : List Pattern → List Pattern
  | [] => []
  | item :: items => raised base item :: raisedAll base items

end

theorem enter_count (s : Numbering) (name : Option Text) : (s.enter name).count = s.count + 1 := by
  cases name <;> rfl

mutual

/-- Counted from a higher number on, the groups have numbers higher by as much. -/
theorem number_raised {base : Nat} : ∀ (pattern : Pattern) {s s' : Numbering},
    s'.count = base + s.count →
      (pattern.number s').1 = ((pattern.number s).1).raised base ∧
        (pattern.number s').2.count = base + (pattern.number s).2.count
  | alt options, s, s', counts => by
    obtain ⟨trees, counts⟩ := numberAll_raised options counts
    exact ⟨congrArg alt trees, counts⟩
  | seq items, s, s', counts => by
    obtain ⟨trees, counts⟩ := numberAll_raised items counts
    exact ⟨congrArg seq trees, counts⟩
  | group none body, s, s', counts => by
    obtain ⟨tree, counts⟩ := number_raised body counts
    exact ⟨congrArg (group none) tree, counts⟩
  | group (some capture) body, s, s', counts => by
    have entered : (s'.enter capture.name).count = base + (s.enter capture.name).count := by
      rw [enter_count, enter_count, counts, Nat.add_assoc]
    obtain ⟨tree, further⟩ := number_raised body entered
    refine ⟨?_, further⟩
    simp only [number, raised, tree, counts, Option.map_some, Nat.add_assoc]
  | look body, s, s', counts => by
    obtain ⟨tree, counts⟩ := number_raised body counts
    exact ⟨congrArg look tree, counts⟩
  | repeated body least most, s, s', counts => by
    obtain ⟨tree, counts⟩ := number_raised body counts
    exact ⟨congrArg (fun body => repeated body least most) tree, counts⟩
  | char _, _, _, counts | set _ _, _, _, counts | anchor, _, _, counts
  | backref _, _, _, counts => ⟨rfl, counts⟩

theorem numberAll_raised {base : Nat} : ∀ (items : List Pattern) {s s' : Numbering},
    s'.count = base + s.count →
      (numberAll items s').1 = raisedAll base (numberAll items s).1 ∧
        (numberAll items s').2.count = base + (numberAll items s).2.count
  | [], _, _, counts => ⟨rfl, counts⟩
  | item :: items, s, s', counts => by
    obtain ⟨tree, counts⟩ := number_raised item counts
    obtain ⟨trees, counts⟩ := numberAll_raised items counts
    exact ⟨congrArg₂ List.cons tree trees, counts⟩

end

mutual

/-- The groups of a pattern are numbered between the counts before and behind. -/
theorem indices_number : ∀ (pattern : Pattern) (s : Numbering),
    s.count ≤ (pattern.number s).2.count ∧
      ∀ i ∈ (pattern.number s).1.indices, s.count < i ∧ i ≤ (pattern.number s).2.count
  | alt options, s => indicesAll_numberAll options s
  | seq items, s => indicesAll_numberAll items s
  | group none body, s => indices_number body s
  | group (some capture) body, s => by
    obtain ⟨grows, within⟩ := indices_number body (s.enter capture.name)
    rw [enter_count] at grows within
    refine ⟨Nat.le_of_succ_le grows, fun i inside => ?_⟩
    obtain rfl | inside := List.mem_cons.1 (inside : i ∈ (s.count + 1) :: _)
    · exact ⟨Nat.lt_succ_self _, grows⟩
    · obtain ⟨least, most⟩ := within i inside
      exact ⟨Nat.lt_of_succ_lt least, most⟩
  | look body, s => indices_number body s
  | repeated body _ _, s => indices_number body s
  | char _, s | set _ _, s | anchor, s | backref _, s => ⟨Nat.le_refl _, nofun⟩

theorem indicesAll_numberAll : ∀ (items : List Pattern) (s : Numbering),
    s.count ≤ (numberAll items s).2.count ∧
      ∀ i ∈ indicesAll (numberAll items s).1, s.count < i ∧ i ≤ (numberAll items s).2.count
  | [], s => ⟨Nat.le_refl _, nofun⟩
  | item :: items, s => by
    obtain ⟨grows, within⟩ := indices_number item s
    obtain ⟨grows', within'⟩ := indicesAll_numberAll items (item.number s).2
    refine ⟨Nat.le_trans grows grows', fun i inside => ?_⟩
    obtain inside | inside := List.mem_append.1 (indicesAll_cons ▸ inside)
    · obtain ⟨least, most⟩ := within i inside
      exact ⟨least, Nat.le_trans most grows'⟩
    · obtain ⟨least, most⟩ := within' i inside
      exact ⟨Nat.lt_of_le_of_lt grows least, most⟩

end

/-! ## Expansions -/

/-- The expansions go over into those with higher numbers, and only the groups up to the count have
captured in them. -/
structure Carried (base count : Nat) (expansions expansions' : List Expansion) : Prop where
  raised : expansions' = expansions.map (Expansion.raised base)
  within : ∀ expansion ∈ expansions, expansion.captures.Within count

section Carried

variable {base count : Nat} {captures : Captures} {heads heads' : List Expansion}
  {tails tails' : Captures → List Expansion}

theorem Carried.single {t : Text} (within : captures.Within count) :
    Carried base count [⟨t, captures⟩] [⟨t, captures.raised base⟩] :=
  ⟨rfl, List.forall_mem_singleton.2 within⟩

theorem Carried.append {others others' : List Expansion} (first : Carried base count heads heads')
    (second : Carried base count others others') :
    Carried base count (heads ++ others) (heads' ++ others') := by
  refine ⟨?_, List.forall_mem_append.2 ⟨first.within, second.within⟩⟩
  rw [first.raised, second.raised, List.map_append]

theorem Carried.flatMap {α : Type} {list : List α} {part part' : α → List Expansion}
    (each : ∀ a ∈ list, Carried base count (part a) (part' a)) :
    Carried base count (list.flatMap part) (list.flatMap part') := by
  induction list with
  | nil => exact ⟨rfl, nofun⟩
  | cons a list ih =>
    obtain ⟨first, others⟩ := List.forall_mem_cons.1 each
    exact first.append (ih others)

/-- Expansions one behind the other. -/
theorem Carried.after (carried : Carried base count heads heads')
    (further : ∀ captures : Captures, captures.Within count →
      Carried base count (tails captures) (tails' (captures.raised base))) :
    Carried base count (heads.flatMap fun head => (tails head.captures).map head.after)
      (heads'.flatMap fun head => (tails' head.captures).map head.after) := by
  rw [carried.raised, List.flatMap_map]
  refine .flatMap fun head inside => ?_
  obtain ⟨raised, within⟩ := further head.captures (carried.within head inside)
  constructor
  · show (tails' (head.captures.raised base)).map (head.raised base).after = _
    rw [raised, List.map_map, List.map_map]
    rfl
  · intro whole listed
    obtain ⟨tail, inside, rfl⟩ := List.mem_map.1 listed
    exact within tail inside

theorem carried_copies {body body' : Captures → List Expansion}
    (each : ∀ captures : Captures, captures.Within count →
      Carried base count (body captures) (body' (captures.raised base))) (copies : Nat)
    (within : captures.Within count) :
    Carried base count (copyExpansions body copies captures)
      (copyExpansions body' copies (captures.raised base)) := by
  induction copies generalizing captures with
  | zero => exact .single within
  | succ copies ih => exact (each captures within).after fun _ within => ih within

end Carried

section Expansions

variable {limit base count : Nat} {names names' : Table Text Nat}

/-- The groups among these parts have numbers up to the count, and with the other names and higher
numbers all references among them refer to the same groups. -/
structure Movable (base count : Nat) (names names' : Table Text Nat) (parts : List Pattern) : Prop where
  own : ∀ i ∈ parts.filterMap captureIndex, 1 ≤ i ∧ i ≤ count
  follows : ∀ target, backref target ∈ parts → target.Follows base count names names'

theorem Movable.mono {small large : List Pattern} (movable : Movable base count names names' large)
    (subset : small ⊆ large) : Movable base count names names' small where
  own i inside := by
    obtain ⟨part, listed, index⟩ := List.mem_filterMap.1 inside
    exact movable.own i (List.mem_filterMap.2 ⟨part, subset listed, index⟩)
  follows target inside := movable.follows target (subset inside)

mutual

/-- The expansions of a pattern that is a part of a larger one are those of the pattern alone, with
higher numbers. -/
theorem expansions_raised : ∀ pattern : Pattern, Movable base count names names' pattern.parts →
    ∀ captures : Captures, captures.Within count →
      Carried base count (expansions limit names pattern captures)
        (expansions limit names' (pattern.raised base) (captures.raised base))
  | char _, _, captures, within | anchor, _, captures, within | look _, _, captures, within =>
    .single within
  | set negated items, _, captures, within => by
    refine ⟨?_, fun expansion listed => ?_⟩
    · simp only [expansions, raised, List.map_map]
      rfl
    · obtain ⟨u, -, rfl⟩ := List.mem_map.1 listed
      exact within
  | seq items, movable, captures, within =>
    seqExpansions_raised items (movable.mono (List.subset_cons_self _ _)) captures within
  | alt options, movable, captures, within =>
    altExpansions_raised options (movable.mono (List.subset_cons_self _ _)) captures within
  | group none body, movable, captures, within =>
    expansions_raised body (movable.mono (List.subset_cons_self _ _)) captures within
  | group (some capture) body, movable, captures, within => by
    have inside := expansions_raised body (movable.mono (List.subset_cons_self _ _)) captures within
    obtain ⟨least, most⟩ := movable.own capture.index List.mem_cons_self
    refine ⟨?_, fun expansion listed => ?_⟩
    · simp only [expansions, raised, Option.map_some, inside.raised, List.map_map]
      rfl
    · obtain ⟨inner, expanded, rfl⟩ := List.mem_map.1 listed
      exact (inside.within inner expanded).cons least most
  | backref target, movable, captures, within => by
    have same := referredText_raised (movable.follows target (self_mem_parts _)) within
    simp only [expansions, raised, same]
    exact .single within
  | repeated body least most, movable, captures, within => by
    have each := expansions_raised body (movable.mono (List.subset_cons_self _ _))
    simp only [expansions, raised]
    exact .flatMap fun copies _ => carried_copies each copies within

theorem seqExpansions_raised : ∀ items : List Pattern,
    Movable base count names names' (partsOfAll items) →
    ∀ captures : Captures, captures.Within count →
      Carried base count (seqExpansions limit names items captures)
        (seqExpansions limit names' (raisedAll base items) (captures.raised base))
  | [], _, captures, within => .single within
  | item :: items, movable, captures, within => by
    have first := expansions_raised item (movable.mono (List.subset_append_left _ _)) captures within
    have later := seqExpansions_raised items (movable.mono (List.subset_append_right _ _))
    simp only [seqExpansions, raisedAll]
    exact first.after later

theorem altExpansions_raised : ∀ options : List Pattern,
    Movable base count names names' (partsOfAll options) →
    ∀ captures : Captures, captures.Within count →
      Carried base count (altExpansions limit names options captures)
        (altExpansions limit names' (raisedAll base options) (captures.raised base))
  | [], _, captures, _ => ⟨rfl, nofun⟩
  | option :: options, movable, captures, within => by
    have first := expansions_raised option (movable.mono (List.subset_append_left _ _)) captures
      within
    have later := altExpansions_raised options (movable.mono (List.subset_append_right _ _))
      captures within
    simp only [altExpansions, raisedAll]
    exact first.append later

end

end Expansions

end Pattern

end Highlight
