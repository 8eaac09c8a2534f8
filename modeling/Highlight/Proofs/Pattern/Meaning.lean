import Highlight.Proofs.Pattern.Denotation

/-!
# What a pattern matches as a whole

`NumberedPattern.Matches` is the meaning of any pattern, whatever it is made of. Anchors and
lookarounds stand for the empty text. A back-reference stands for the text of its group, so that a
pattern not only spells a text, but leads from the texts that the groups have matched so far to
those that they have matched then. A group that has matched nothing has the empty text, and a
repetition forgets the texts of its groups before each round. Where nothing in a pattern depends on
what is around it, the pattern matches what it denotes (`matches_iff_denotes`). Patterns are
`Interchangeable` if they lead from the same texts to the same ones wherever their groups are
numbered from; such patterns may stand for each other in any pattern.
-/

namespace Highlight

/-- The text that each group has matched, empty if it has not. -/
abbrev Bindings := Nat → Text

namespace Bindings

/-- Nothing is known of these groups any more. -/
def forget (indices : List Nat) (bound : Bindings) : Bindings :=
  fun n => if n ∈ indices then [] else bound n

variable {bound : Bindings}

@[simp] theorem forget_nil : bound.forget [] = bound := by
  funext n
  simp [forget]

@[simp] theorem forget_forget (indices : List Nat) :
    (bound.forget indices).forget indices = bound.forget indices := by
  funext n
  simp only [forget]
  split <;> rfl

/-- To forget one group is to bind it to the empty text. -/
theorem forget_singleton (n : Nat) : bound.forget [n] = Function.update bound n [] := by
  funext m
  simp [forget, Function.update_apply]

end Bindings

/-- The text that a back-reference stands for; a name that no group has stands for none. -/
def Reference.textIn (names : Table Text Nat) (bound : Bindings) : Reference → Text
  | .index n => bound n
  | .name n => ((Table.get? names n).map bound).getD []

namespace Pattern

/-- The number of a capturing group. -/
def captureIndex : Pattern → Option Nat
  | group capture _ => capture.map (·.index)
  | _ => none

/-- The numbers of the capturing groups in a pattern. -/
def indices (pattern : Pattern) : List Nat := pattern.parts.filterMap captureIndex

/-- The numbers of the capturing groups in patterns. -/
def indicesAll (patterns : List Pattern) : List Nat := (partsOfAll patterns).filterMap captureIndex

section Indices

variable {body item : Pattern} {items : List Pattern}

theorem indicesAll_cons : indicesAll (item :: items) = indices item ++ indicesAll items :=
  List.filterMap_append

theorem indices_captured {capture : Capture} :
    indices (group (some capture) body) = capture.index :: indices body := rfl

end Indices

/-- A number of rounds, each from the bindings that the one before has left. -/
def Repeats (round : Bindings → Text → Bindings → Prop) : Nat → Bindings → Text → Bindings → Prop
  | 0, bound, t, after => t = [] ∧ after = bound
  | count + 1, bound, t, after => ∃ head tail between,
      round bound head between ∧ Repeats round count between tail after ∧ t = head ++ tail

mutual

/-- The pattern spells the text and leads from one binding of the groups to another. -/
def Spells (names : Table Text Nat) : Pattern → Bindings → Text → Bindings → Prop
  | char value, bound, t, after => t = [value] ∧ after = bound
  | set negated items, bound, t, after =>
    (∃ u, Reading.full.admits negated items u ∧ t = [u]) ∧ after = bound
  | anchor, bound, t, after => t = [] ∧ after = bound
  | look _, bound, t, after => t = [] ∧ after = bound
  | backref target, bound, t, after => t = target.textIn names bound ∧ after = bound
  | group none body, bound, t, after => Spells names body bound t after
  | group (some capture) body, bound, t, after =>
    ∃ inner, Spells names body bound t inner ∧ after = Function.update inner capture.index t
  | seq items, bound, t, after => SpellsAll names items bound t after
  | alt options, bound, t, after => SpellsAny names options bound t after
  | repeated body least most, bound, t, after =>
    let within := body.indices
    ∃ count, least ≤ count ∧ (∀ limit ∈ most, count ≤ limit) ∧
      Repeats (fun bound => Spells names body (bound.forget within)) count (bound.forget within) t
        after

/-- Patterns one behind the other. -/
def SpellsAll (names : Table Text Nat) : List Pattern → Bindings → Text → Bindings → Prop
  | [], bound, t, after => t = [] ∧ after = bound
  | item :: items, bound, t, after => ∃ head tail between,
      Spells names item bound head between ∧ SpellsAll names items between tail after ∧
        t = head ++ tail

/-- Alternatives. -/
def SpellsAny (names : Table Text Nat) : List Pattern → Bindings → Text → Bindings → Prop
  | [], _, _, _ => False
  | option :: options, bound, t, after =>
    Spells names option bound t after ∨ SpellsAny names options bound t after

end

section Denoted

variable {names : Table Text Nat}

theorem repeats_iff_times {round : Bindings → Text → Bindings → Prop} {body : Text → Prop}
    (each : ∀ bound t, (∃ after, round bound t after) ↔ body t) (count : Nat) (bound : Bindings)
    (t : Text) : (∃ after, Repeats round count bound t after) ↔ Times body count t := by
  induction count generalizing bound t with
  | zero => simp [Repeats, Times]
  | succ count ih =>
    constructor
    · rintro ⟨after, head, tail, between, first, rest, parts⟩
      exact ⟨head, tail, (each bound head).1 ⟨between, first⟩, (ih between tail).1 ⟨after, rest⟩,
        parts⟩
    · rintro ⟨head, tail, first, rest, parts⟩
      obtain ⟨between, first⟩ := (each bound head).2 first
      obtain ⟨after, rest⟩ := (ih between tail).2 rest
      exact ⟨after, head, tail, between, first, rest, parts⟩

/-- Nothing in the patterns depends on what is around it. -/
def ContextFree (parts : List Pattern) : Prop := ∀ part ∈ parts, part.isContextual = false

theorem ContextFree.mono {small large : List Pattern} (free : ContextFree large)
    (subset : small ⊆ large) : ContextFree small := fun part inside => free part (subset inside)

mutual

/-- From any bindings the texts are those that the pattern denotes. -/
theorem spells_iff_denotes : ∀ (pattern : Pattern), ContextFree pattern.parts →
    ∀ (bound : Bindings) (t : Text),
      (∃ after, Spells names pattern bound t after) ↔ Denotes .full pattern t
  | char _, _, bound, t => by simp [Spells, Denotes]
  | set _ _, _, bound, t => by simp [Spells, Denotes]
  | anchor, free, _, _ | look _, free, _, _ | backref _, free, _, _ =>
    Bool.noConfusion (free _ (self_mem_parts _))
  | group none body, free, bound, t => by
    simp only [Spells, Denotes]
    exact spells_iff_denotes body (free.mono (List.subset_cons_self _ _)) bound t
  | group (some capture) body, free, bound, t => by
    have inner := spells_iff_denotes body (free.mono (List.subset_cons_self _ _)) bound t
    rw [Denotes, ← inner]
    simp only [Spells]
    exact ⟨fun ⟨_, inner, spells, _⟩ => ⟨inner, spells⟩,
      fun ⟨inner, spells⟩ => ⟨_, inner, spells, rfl⟩⟩
  | seq items, free, bound, t => by
    simp only [Spells, Denotes]
    exact spellsAll_iff_denotes items (free.mono (List.subset_cons_self _ _)) bound t
  | alt options, free, bound, t => by
    simp only [Spells, Denotes]
    exact spellsAny_iff_denotes options (free.mono (List.subset_cons_self _ _)) bound t
  | repeated body least most, free, bound, t => by
    have each := fun bound => spells_iff_denotes body (free.mono (List.subset_cons_self _ _))
      (Bindings.forget body.indices bound)
    have rounds := fun count bound => repeats_iff_times each count bound t
    have unlimited : Reading.full.limit = none := rfl
    simp only [Spells, Denotes, unlimited, Option.mem_def, reduceCtorEq, false_implies,
      implies_true, true_and]
    rw [exists_comm]
    simp only [exists_and_left, rounds]

theorem spellsAll_iff_denotes : ∀ (items : List Pattern), ContextFree (partsOfAll items) →
    ∀ (bound : Bindings) (t : Text),
      (∃ after, SpellsAll names items bound t after) ↔ DenotesAll .full items t
  | [], _, bound, t => by simp [SpellsAll, DenotesAll]
  | item :: items, free, bound, t => by
    have first := spells_iff_denotes item (free.mono (List.subset_append_left _ _))
    have rest := spellsAll_iff_denotes items (free.mono (List.subset_append_right _ _))
    simp only [SpellsAll, DenotesAll]
    constructor
    · rintro ⟨after, head, tail, between, spells, others, parts⟩
      exact ⟨head, tail, (first bound head).1 ⟨between, spells⟩,
        (rest between tail).1 ⟨after, others⟩, parts⟩
    · rintro ⟨head, tail, denoted, others, parts⟩
      obtain ⟨between, spells⟩ := (first bound head).2 denoted
      obtain ⟨after, others⟩ := (rest between tail).2 others
      exact ⟨after, head, tail, between, spells, others, parts⟩

theorem spellsAny_iff_denotes : ∀ (options : List Pattern), ContextFree (partsOfAll options) →
    ∀ (bound : Bindings) (t : Text),
      (∃ after, SpellsAny names options bound t after) ↔ DenotesAny .full options t
  | [], _, bound, t => by simp [SpellsAny, DenotesAny]
  | option :: options, free, bound, t => by
    simp only [SpellsAny, DenotesAny, exists_or]
    exact or_congr (spells_iff_denotes option (free.mono (List.subset_append_left _ _)) bound t)
      (spellsAny_iff_denotes options (free.mono (List.subset_append_right _ _)) bound t)

end

end Denoted

section Options

variable {names : Table Text Nat} {body : Pattern} {xs ys : List Pattern} {bound after : Bindings}
  {t : Text}

theorem spellsAll_append : SpellsAll names (xs ++ ys) bound t after ↔ ∃ head tail between,
    SpellsAll names xs bound head between ∧ SpellsAll names ys between tail after ∧
      t = head ++ tail := by
  induction xs generalizing bound t with
  | nil => simp [SpellsAll]
  | cons x xs ih =>
    simp only [List.cons_append, SpellsAll, ih]
    constructor
    · rintro ⟨head, _, between, first, ⟨middle, tail, between', others, rest, rfl⟩, rfl⟩
      exact ⟨head ++ middle, tail, between', ⟨head, middle, between, first, others, rfl⟩, rest,
        (List.append_assoc _ _ _).symm⟩
    · rintro ⟨_, tail, between', ⟨head, middle, between, first, others, rfl⟩, rest, rfl⟩
      exact ⟨head, middle ++ tail, between, first, ⟨middle, tail, between', others, rest, rfl⟩,
        List.append_assoc _ _ _⟩

/-- An optional pattern is left out, or it is there once. -/
theorem spells_optional : Spells names (repeated body 0 (some 1)) bound t after ↔
    t = [] ∧ after = bound.forget body.indices ∨
      Spells names body (bound.forget body.indices) t after := by
  simp only [Spells, Nat.zero_le, true_and, Option.mem_def, Option.some.injEq, forall_eq']
  constructor
  · rintro ⟨count, most, rounds⟩
    obtain rfl | rfl : count = 0 ∨ count = 1 := by omega
    · exact .inl rounds
    · obtain ⟨head, _, between, first, ⟨rfl, rfl⟩, rfl⟩ := rounds
      rw [Bindings.forget_forget] at first
      rw [List.append_nil]
      exact .inr first
  · rintro (none | once)
    · exact ⟨0, Nat.zero_le 1, none⟩
    · refine ⟨1, Nat.le_refl 1, t, [], after, ?_, ⟨rfl, rfl⟩, (List.append_nil t).symm⟩
      show Spells names body ((bound.forget body.indices).forget body.indices) t after
      rwa [Bindings.forget_forget]

/-- An optional end in which no group captures is an alternative. -/
theorem spells_optional_end (bare : indicesAll ys = []) :
    Spells names (seq (xs ++ [repeated (group none (seq ys)) 0 (some 1)])) bound t after ↔
      Spells names (seq xs) bound t after ∨ Spells names (seq (xs ++ ys)) bound t after := by
  have optional {bound after : Bindings} {t : Text} :
      SpellsAll names [repeated (group none (seq ys)) 0 (some 1)] bound t after ↔
        t = [] ∧ after = bound ∨ SpellsAll names ys bound t after := by
    have none : (group none (seq ys)).indices = [] := bare
    have single : Spells names (group .none (seq ys)) = SpellsAll names ys := by
      funext bound t after
      simp only [Spells]
    have once := @spells_optional names (group .none (seq ys)) bound after t
    rw [none, Bindings.forget_nil, single] at once
    rw [← once]
    simp [SpellsAll]
  simp only [Spells, spellsAll_append, optional]
  constructor
  · rintro ⟨head, tail, between, first, ⟨rfl, rfl⟩ | rest, rfl⟩
    · rw [List.append_nil]
      exact .inl first
    · exact .inr ⟨head, tail, between, first, rest, rfl⟩
  · rintro (first | ⟨head, tail, between, first, rest, rfl⟩)
    · exact ⟨t, [], after, first, .inl ⟨rfl, rfl⟩, (List.append_nil t).symm⟩
    · exact ⟨head, tail, between, first, .inr rest, rfl⟩

end Options

/-- Patterns that lead from the same bindings to the same ones by the same texts, and with groups of
the same numbers and names, wherever these are counted from. -/
structure Interchangeable (a b : Pattern) : Prop where
  numbering : ∀ s, (b.number s).2 = (a.number s).2
  indices : ∀ s, (b.number s).1.indices = (a.number s).1.indices
  spells : ∀ names s, Spells names (b.number s).1 = Spells names (a.number s).1

/-- The same of patterns one behind the other, and of alternatives. -/
structure InterchangeableAll (as bs : List Pattern) : Prop where
  numbering : ∀ s, (numberAll bs s).2 = (numberAll as s).2
  indices : ∀ s, indicesAll (numberAll bs s).1 = indicesAll (numberAll as s).1
  spellsAll : ∀ names s, SpellsAll names (numberAll bs s).1 = SpellsAll names (numberAll as s).1
  spellsAny : ∀ names s, SpellsAny names (numberAll bs s).1 = SpellsAny names (numberAll as s).1

namespace Interchangeable

variable {a b : Pattern} {as bs : List Pattern}

theorem refl (a : Pattern) : Interchangeable a a := ⟨fun _ => rfl, fun _ => rfl, fun _ _ => rfl⟩

theorem all (each : List.Forall₂ Interchangeable as bs) : InterchangeableAll as bs := by
  induction each with
  | nil => exact ⟨fun _ => rfl, fun _ => rfl, fun _ _ => rfl, fun _ _ => rfl⟩
  | @cons a b as bs first _ ih =>
    refine ⟨fun s => ?_, fun s => ?_, fun names s => ?_, fun names s => ?_⟩
    · simp only [numberAll, first.numbering, ih.numbering]
    · simp only [numberAll, indicesAll_cons, first.numbering, first.indices, ih.indices]
    · funext bound t after
      simp only [numberAll, SpellsAll, first.numbering, first.spells, ih.spellsAll]
    · funext bound t after
      simp only [numberAll, SpellsAny, first.numbering, first.spells, ih.spellsAny]

theorem seq (each : List.Forall₂ Interchangeable as bs) : Interchangeable (seq as) (seq bs) where
  numbering := (all each).numbering
  indices := (all each).indices
  spells names s := by
    funext bound t after
    simp only [number, Spells, (all each).spellsAll]

theorem alt (each : List.Forall₂ Interchangeable as bs) : Interchangeable (alt as) (alt bs) where
  numbering := (all each).numbering
  indices := (all each).indices
  spells names s := by
    funext bound t after
    simp only [number, Spells, (all each).spellsAny]

theorem group (capture : Option Capture) (same : Interchangeable a b) :
    Interchangeable (group capture a) (group capture b) := by
  cases capture with
  | none =>
    refine ⟨same.numbering, same.indices, fun names s => ?_⟩
    funext bound t after
    simp only [number, Spells, same.spells]
  | some capture =>
    refine ⟨fun s => same.numbering _, fun s => ?_, fun names s => ?_⟩
    · simp only [number, indices_captured, same.indices]
    · funext bound t after
      simp only [number, Spells, same.spells]

theorem look (same : Interchangeable a b) : Interchangeable (look a) (look b) where
  numbering := same.numbering
  indices := same.indices
  spells names s := by
    funext bound t after
    simp only [number, Spells]

theorem repeated (least : Nat) (most : Option Nat) (same : Interchangeable a b) :
    Interchangeable (repeated a least most) (repeated b least most) where
  numbering := same.numbering
  indices := same.indices
  spells names s := by
    funext bound t after
    simp only [number, Spells, same.indices, same.spells]

end Interchangeable

end Pattern

namespace NumberedPattern

/-- The pattern spells the whole text, from groups that have matched nothing. -/
def Matches (tree : NumberedPattern) (t : Text) : Prop :=
  ∃ after, tree.root.Spells tree.names (fun _ => []) t after

/-- Where nothing depends on what is around it, a pattern matches the texts that it denotes. -/
theorem matches_iff_denotes {tree : NumberedPattern} (free : Pattern.ContextFree tree.root.parts)
    (t : Text) : tree.Matches t ↔ tree.root.Denotes .full t :=
  Pattern.spells_iff_denotes tree.root free _ t

/-- Interchangeable patterns match the same texts. -/
theorem matches_of_interchangeable {a b : Pattern} (same : Pattern.Interchangeable a b) (t : Text) :
    b.numbered.Matches t ↔ a.numbered.Matches t := by
  have names : b.numbered.names = a.numbered.names :=
    congrArg Numbering.names (same.numbering .empty)
  rw [Matches, Matches, names]
  exact Iff.of_eq (congrArg (fun spells => ∃ after, spells (fun _ => []) t after)
    (same.spells a.numbered.names .empty))

end NumberedPattern

end Highlight
