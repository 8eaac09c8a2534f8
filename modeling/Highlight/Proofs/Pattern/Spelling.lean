import Highlight.Proofs.Pattern.Captures
import Highlight.Proofs.Text.Digits

/-!
# How a pattern is spelled

`Pattern.print` spells a tree in one way: a unit by its number, a set by its items in brackets, a
quantifier by its counts in braces, and an empty sequence, which has no text of its own, by an empty
comment. What a group is numbered is not spelled. The lemmas below the printer say that the rules of
the grammar without patterns in them read such texts back. Each unit of a run is read wherever it
stands, but a rule that may take more is only as good as what stands behind: `HeadIn` says with
which units a rest may begin.
-/

namespace Highlight

open Reader Grammar

/-- Each text but the first stands behind the separator. -/
theorem Text.join_cons (sep t : Text) (ts : List Text) :
    join sep (t :: ts) = t ++ ts.flatMap fun t => sep ++ t := by
  rw [join]
  induction ts generalizing t with
  | nil => rw [List.intercalate_singleton, List.flatMap_nil, List.append_nil]
  | cons u ts ih =>
    rw [List.intercalate_cons_cons, ih, List.flatMap_cons, List.append_assoc, List.append_assoc]

/-- Four hexadecimal digits behind their mark. -/
def CodeUnit.spell (u : CodeUnit) : Text := "\\u" ++ Text.ofHex 4 u.toNat

/-- The letter of the class behind a backslash, or the dot. -/
def ClassName.spell : ClassName → Text
  | digit => "\\d"
  | word => "\\w"
  | space => "\\s"
  | notDigit => "\\D"
  | notWord => "\\W"
  | notSpace => "\\S"
  | any => "."

/-- A range of one unit is spelled as the unit. -/
def ClassItem.spell : ClassItem → Text
  | range lo hi => if lo = hi then lo.spell else lo.spell ++ ("-" ++ hi.spell)
  | named name => name.spell

def Reference.spell : Reference → Text
  | .index n => "\\" ++ Text.ofNat n
  | .name n => "\\k<" ++ (n ++ ">")

namespace Pattern

/-- The items in brackets; the class of all units is the dot. -/
def spellSet (negated : Bool) (items : List ClassItem) : Text :=
  if negated = false ∧ items = [.named .any] then "."
  else "[" ++ ((if negated then ("^" : Text) else []) ++ (items.flatMap ClassItem.spell ++ "]"))

/-- What stands between the parenthesis of a group and its body. -/
def groupMark : Option Capture → Text
  | none => "?:"
  | some ⟨_, none⟩ => []
  | some ⟨_, some name⟩ => "?<" ++ (name ++ ">")

/-- The counts of a quantifier in braces. -/
def spellBounds (least : Nat) : Option Nat → Text
  | some most => "\x7b" ++ (Text.ofNat least ++ ("," ++ (Text.ofNat most ++ "\x7d")))
  | none => "\x7b" ++ (Text.ofNat least ++ ",\x7d")

mutual

/-- The pattern as a part of a larger one. -/
def spell : Pattern → Text
  | alt options => Text.join "|" (spellAll options)
  | seq items => if items.isEmpty then "(?#)" else (spellAll items).flatten
  | char value => value.spell
  | set negated items => spellSet negated items
  | group capture body => "(" ++ (groupMark capture ++ (spell body ++ ")"))
  | look body => "(" ++ ("?=" ++ (spell body ++ ")"))
  | anchor => "^"
  | repeated body least most => spell body ++ spellBounds least most
  | backref target => target.spell

def spellAll : List Pattern → List Text
  | [] => []
  | item :: items => spell item :: spellAll items

end

/-- The pattern as a whole: with nothing around it an empty sequence is the empty text. -/
def print : Pattern → Text
  | seq [] => []
  | root => root.spell

theorem spellAll_eq_map (items : List Pattern) : spellAll items = items.map spell := by
  induction items with
  | nil => rfl
  | cons item items ih => rw [spellAll, ih, List.map_cons]

theorem spell_seq {items : List Pattern} (filled : items ≠ []) :
    (seq items).spell = items.flatMap spell := by
  rw [spell, if_neg (by rwa [List.isEmpty_iff]), spellAll_eq_map, List.flatMap_def]

/-- An option behind its bar. -/
def spellBarred (option : Pattern) : Text := "|" ++ option.spell

/-- Each option but the first stands behind a bar. -/
theorem spell_alt (head : Pattern) (options : List Pattern) :
    (alt (head :: options)).spell = head.spell ++ options.flatMap spellBarred := by
  rw [spell, spellAll_eq_map, List.map_cons, Text.join_cons, List.flatMap_map]
  rfl

theorem print_eq_spell {root : Pattern} (filled : root ≠ seq []) : root.print = root.spell := by
  unfold print
  split
  · exact absurd rfl filled
  · rfl

mutual

/-- The numbers of the groups are not spelled. -/
theorem spell_unnumbered : ∀ pattern : Pattern, pattern.unnumbered.spell = pattern.spell
  | alt options => by rw [unnumbered, spell, spell, spellAll_unnumberedAll options]
  | seq items => by
    have empty : (unnumberedAll items).isEmpty = items.isEmpty := by cases items <;> rfl
    rw [unnumbered, spell, spell, spellAll_unnumberedAll items, empty]
  | group none body => by
    rw [unnumbered, spell, spell, spell_unnumbered body]
    rfl
  | group (some ⟨_, none⟩) body => by
    rw [unnumbered, spell, spell, spell_unnumbered body]
    rfl
  | group (some ⟨_, some _⟩) body => by
    rw [unnumbered, spell, spell, spell_unnumbered body]
    rfl
  | look body => by rw [unnumbered, spell, spell, spell_unnumbered body]
  | repeated body _ _ => by rw [unnumbered, spell, spell, spell_unnumbered body]
  | char _ | set _ _ | anchor | backref _ => rfl

theorem spellAll_unnumberedAll : ∀ items : List Pattern,
    spellAll (unnumberedAll items) = spellAll items
  | [] => rfl
  | item :: items => by
    rw [unnumberedAll, spellAll, spellAll, spell_unnumbered item, spellAll_unnumberedAll items]

end

theorem print_unnumbered (root : Pattern) : root.unnumbered.print = root.print := by
  by_cases empty : root = seq []
  · rw [empty]
    rfl
  · have filled : root.unnumbered ≠ seq [] := by
      intro same
      cases root with
      | seq items =>
        cases items with
        | nil => exact empty rfl
        | cons item items => cases same
      | _ => cases same
    rw [print_eq_spell empty, print_eq_spell filled, spell_unnumbered]

/-- Numbering the groups of a pattern does not change its text. -/
theorem print_numbered (root : Pattern) : root.numbered.root.print = root.print := by
  have same : root.numbered.root.unnumbered = root.unnumbered := unnumbered_number root .empty
  rw [← print_unnumbered, same, print_unnumbered]

end Pattern

/-- The text is empty or begins with one of the units. -/
def HeadIn (us t : Text) : Prop := ∀ u ∈ t.head?, u ∈ us

section HeadIn

variable {us vs t : Text} {u : CodeUnit}

theorem headIn_nil : HeadIn us [] := nofun

theorem headIn_cons (member : u ∈ us) : HeadIn us (u :: t) := by
  intro v first
  obtain rfl := Option.some.inj first
  exact member

theorem HeadIn.mono (front : HeadIn us t) (sub : us ⊆ vs) : HeadIn vs t :=
  fun u first => sub (front u first)

theorem HeadIn.eq_nil_or (front : HeadIn us t) : t = [] ∨ ∃ u ∈ us, ∃ rest, t = u :: rest := by
  cases t with
  | nil => exact .inl rfl
  | cons u rest => exact .inr ⟨u, front u rfl, rest, rfl⟩

/-- No unit of a class is taken where none of the units is in the class. -/
theorem HeadIn.oneOf_eq_none {members : UnitClass} (front : HeadIn us t)
    (out : us.any members.holds = false) : (oneOf members).result t = none := by
  obtain rfl | ⟨u, inside, rest, rfl⟩ := front.eq_nil_or
  · rfl
  · exact oneOf_fail (Bool.eq_false_iff.2 (List.any_eq_false.1 out u inside)) rest

theorem HeadIn.literal_eq_none (front : HeadIn us t) (out : u ∉ us) :
    (literal [u]).result t = none := by
  refine Reader.literal_eq_none.2 ?_
  rintro ⟨rest, rfl⟩
  exact out (front u rfl)

end HeadIn

namespace Reader

variable {α : Type} {p : Reader α}

theorem count_le_flatMap {s : α → Text} {a : α} {as : List α} (inside : a ∈ as) (u : CodeUnit) :
    (s a).count u ≤ (as.flatMap s).count u := by
  rw [List.flatMap_def]
  exact (List.sublist_flatten_of_mem (List.mem_map_of_mem inside)).count_le u

/-- Values spelled one behind the other are read one after the other, if each of them is read before
what the next one begins with and before the rest. -/
theorem rounds_flatMap {s : α → Text} (fits : Text → Prop) {rest : Text} (last : fits rest)
    (stops : p.result rest = none) {as : List α}
    (reads : ∀ a ∈ as, ∀ t, fits t → p.result (s a ++ t) = some (a, t))
    (begins : ∀ a ∈ as, ∀ t, fits (s a ++ t)) : Rounds p (as.flatMap s ++ rest) as rest := by
  induction as with
  | nil => exact .stop stops
  | cons a as ih =>
    obtain ⟨first, reads⟩ := List.forall_mem_cons.1 reads
    obtain ⟨_, begins⟩ := List.forall_mem_cons.1 begins
    rw [List.flatMap_cons, List.append_assoc]
    refine .more (first _ ?_) (ih reads begins)
    cases as with
    | nil => exact last
    | cons b as =>
      rw [List.flatMap_cons, List.append_assoc]
      exact begins b List.mem_cons_self _

/-- A run of units of a class ends where no unit of the class follows. -/
theorem many_oneOf_append {members : UnitClass} {us rest : Text}
    (all : ∀ u ∈ us, members.holds u = true) (stops : (oneOf members).result rest = none) :
    (many (oneOf members)).result (us ++ rest) = some (us, rest) := by
  have rounds : Rounds (oneOf members) (us.flatMap (fun u => [u]) ++ rest) us rest :=
    rounds_flatMap (fun _ => True) trivial stops
      (fun u inside t _ => oneOf_cons (all u inside) t) fun _ _ _ => trivial
  rw [List.flatMap_singleton'] at rounds
  exact (many_eq_some (advances_oneOf members)).2 rounds

end Reader

namespace Grammar

variable {rest : Text}

theorem integer_ofNat (n : Nat) (stops : (oneOf .digit).result rest = none) :
    integer.result (Text.ofNat n ++ rest) = some (n, rest) := by
  obtain ⟨first, digits, spelled⟩ := List.exists_cons_of_ne_nil (Text.ofNat_ne_nil n)
  have all : ∀ u ∈ first :: digits, UnitClass.digit.holds u = true := by
    rw [← spelled]
    exact Text.isDigit_ofNat n
  obtain ⟨member, all⟩ := List.forall_mem_cons.1 all
  have run : (atLeastOnce (oneOf .digit)).result (first :: digits ++ rest) =
      some (first :: digits, rest) :=
    bind_of_read (oneOf_cons member _) (bind_of_read (many_oneOf_append all stops) rfl)
  have value : Text.decimal (first :: digits) = n := by rw [← spelled, Text.decimal_ofNat]
  rw [spelled]
  refine bind_of_read run ?_
  rw [value]
  rfl

/-- Counts in braces are read back, unless the mark of laziness follows. -/
theorem quantifier_spellBounds (least : Nat) (most : Option Nat)
    (greedy : rest.head? ≠ some (unit '?')) :
    quantifier.result (Pattern.spellBounds least most ++ rest) = some (⟨least, most⟩, rest) := by
  have number (n : Nat) {u : CodeUnit} (t : Text) (out : UnitClass.digit.holds u = false) :
      integer.result (Text.ofNat n ++ u :: t) = some (n, u :: t) :=
    integer_ofNat n (oneOf_fail out t)
  have counts : bounds.result (Pattern.spellBounds least most ++ rest) =
      some (⟨least, most⟩, rest) := by
    cases most with
    | some most =>
      have first (t : Text) : integer.result (Text.ofNat least ++ ("," ++ t)) =
          some (least, "," ++ t) := number least t (by decide)
      have second : integer.result (Text.ofNat most ++ ("\x7d" ++ rest)) =
          some (most, "\x7d" ++ rest) := number most rest (by decide)
      rw [Pattern.spellBounds]
      simp only [List.append_assoc]
      refine orElse_of_fail rfl (orElse_of_fail rfl (orElse_of_fail rfl (orElse_of_read ?_)))
      exact bind_of_read (literal_append _ _) <| bind_of_read (first _) <|
        bind_of_read (literal_append _ _) <| bind_of_read second <|
        bind_of_read (literal_append _ _) rfl
    | none =>
      have first : integer.result (Text.ofNat least ++ (",\x7d" ++ rest)) =
          some (least, ",\x7d" ++ rest) := number least _ (by decide)
      rw [Pattern.spellBounds]
      simp only [List.append_assoc]
      -- the alternative with two counts is tried first, and misses the second one
      refine orElse_of_fail rfl (orElse_of_fail rfl (orElse_of_fail rfl (orElse_of_fail ?_
        (orElse_of_read ?_))))
      · exact bind_of_read (literal_append _ _) (bind_of_read first rfl)
      · exact bind_of_read (literal_append _ _) <| bind_of_read first <|
          bind_of_read (literal_append _ _) rfl
  have unmarked : (Reader.optional (literal "?")).result rest = some (none, rest) :=
    optional_of_fail (literal_differs greedy rfl)
  exact bind_of_read counts (bind_of_read unmarked rfl)

/-- The shape of a name. -/
def IsName (n : Text) : Prop :=
  ∃ first others, n = first :: others ∧ UnitClass.nameStart.holds first = true ∧
    ∀ u ∈ others, UnitClass.nameRest.holds u = true

/-- A name ends at its bracket. -/
theorem name_append {n : Text} (named : IsName n) (rest : Text) :
    name.result (n ++ (">" ++ rest)) = some (n, ">" ++ rest) := by
  obtain ⟨first, others, rfl, starts, all⟩ := named
  have stops : (oneOf .nameRest).result (">" ++ rest) = none := oneOf_fail (by decide) rest
  exact bind_of_read (oneOf_cons starts _) (bind_of_read (many_oneOf_append all stops) rfl)

theorem escapedUnit_ofHex (u : CodeUnit) (rest : Text) :
    escapedUnit.result (unit 'u' :: (Text.ofHex 4 u.toNat ++ rest)) = some (u, rest) := by
  have bound := u.toNat_lt
  have digit (n : Nat) (small : n < 16) (t : Text) :
      (oneOf .hexDigit).result (digitUnit n :: t) = some (digitUnit n, t) :=
    oneOf_cons (show UnitClass.hexDigit.holds _ = true from digitUnit_isHexDigit n small) t
  have value := CodeUnit.hexadecimal_ofHex u
  rw [Text.ofHex_four bound] at value ⊢
  -- six letters for control units and the mark of two digits stand in front of the mark of four
  refine orElse_of_fail rfl <| orElse_of_fail rfl <| orElse_of_fail rfl <| orElse_of_fail rfl <|
    orElse_of_fail rfl <| orElse_of_fail rfl <| orElse_of_fail rfl <| orElse_of_read ?_
  refine bind_of_read (literal_append "u" _) <| bind_of_read (digit _ (by omega) _) <|
    bind_of_read (digit _ (by omega) _) <| bind_of_read (digit _ (by omega) _) <|
    bind_of_read (digit _ (by omega) _) ?_
  rw [value]
  rfl

/-- A unit spelled by its number is read back whatever follows. -/
theorem escape_spell (u : CodeUnit) (rest : Text) :
    escape.result (u.spell ++ rest) = some (u, rest) :=
  bind_of_read (literal_append "\\" _) (escapedUnit_ofHex u rest)

theorem bracketUnit_spell (u : CodeUnit) (rest : Text) :
    bracketUnit.result (u.spell ++ rest) = some (u, rest) :=
  orElse_of_read (escape_spell u rest)

section Sets

variable {item : ClassItem} {items : List ClassItem}

theorem spell_item_begins (bracketed : item ≠ .named .any) : ∃ t, item.spell = unit '\\' :: t := by
  cases item with
  | named name =>
    cases name with
    | any => exact absurd rfl bracketed
    | _ => exact ⟨_, rfl⟩
  | range lo hi =>
    rw [ClassItem.spell]
    split <;> exact ⟨_, rfl⟩

/-- An item of a set is read back in front of the next one and of the closing bracket. -/
theorem bracketItem_spell (bracketed : item ≠ .named .any) (front : HeadIn "\\]" rest) :
    bracketItem.result (item.spell ++ rest) = some (item, rest) := by
  cases item with
  | named name =>
    cases name with
    | any => exact absurd rfl bracketed
    | _ => rfl
  | range lo hi =>
    have lower (t : Text) : bracketItem.result (lo.spell ++ t) = (rangeFrom lo).result t := by
      rw [bracketItem_result]
      exact orElse_of_fail rfl (bind_of_read (bracketUnit_spell lo t) rfl)
    by_cases same : lo = hi
    · have unranged : (literal "-").result rest = none := front.literal_eq_none (by decide)
      rw [ClassItem.spell, if_pos same, lower, same]
      exact orElse_of_fail (bind_of_fail unranged) rfl
    · rw [ClassItem.spell, if_neg same, List.append_assoc, List.append_assoc, lower]
      exact orElse_of_read (bind_of_read (literal_append "-" _)
        (bind_of_read (bracketUnit_spell hi rest) rfl))

/-- What may stand between brackets: some items, none of them the dot. -/
def Fits (items : List ClassItem) : Prop := items ≠ [] ∧ ∀ item ∈ items, item ≠ .named .any

theorem spellSet_of_fits (negated : Bool) (fits : Fits items) : Pattern.spellSet negated items =
    "[" ++ ((if negated then ("^" : Text) else []) ++ (items.flatMap ClassItem.spell ++ "]")) := by
  refine if_neg ?_
  rintro ⟨_, rfl⟩
  exact fits.2 _ List.mem_cons_self rfl

/-- A set in brackets is read back whatever follows. -/
theorem bracketed_spellSet (negated : Bool) (fits : Fits items) (rest : Text) :
    bracketed.result (Pattern.spellSet negated items ++ rest) = some (.set negated items, rest) := by
  have closing : HeadIn "\\]" ("]" ++ rest) := headIn_cons (by decide)
  have rounds : Rounds bracketItem (items.flatMap ClassItem.spell ++ ("]" ++ rest)) items
      ("]" ++ rest) := by
    refine rounds_flatMap (HeadIn "\\]") closing (bracketItem_closed rest)
      (fun item inside t front => bracketItem_spell (fits.2 item inside) front)
      fun item inside t => ?_
    obtain ⟨x, begins⟩ := spell_item_begins (fits.2 item inside)
    rw [begins]
    exact headIn_cons (by decide)
  have reads := (many_eq_some advances_bracketItem).2 rounds
  -- the first item begins with a backslash, so it is neither a negation nor a closing bracket
  obtain ⟨x, begins⟩ : ∃ x, items.flatMap ClassItem.spell ++ ("]" ++ rest) = unit '\\' :: x := by
    obtain ⟨item, others, rfl⟩ := List.exists_cons_of_ne_nil fits.1
    obtain ⟨x, begins⟩ := spell_item_begins (fits.2 item List.mem_cons_self)
    rw [List.flatMap_cons, begins]
    exact ⟨_, rfl⟩
  rw [spellSet_of_fits negated fits]
  simp only [List.append_assoc]
  rw [begins] at reads ⊢
  have body : bracketBody.result ((if negated then ("^" : Text) else []) ++ unit '\\' :: x) =
      some (.set negated items, "]" ++ rest) := by
    have unled : (Reader.optional leadingBracket).result (unit '\\' :: x) =
        some (none, unit '\\' :: x) := rfl
    cases negated with
    | false =>
      have mark : (Reader.optional (literal "^")).result (unit '\\' :: x) =
          some (none, unit '\\' :: x) := rfl
      exact bind_of_read mark (bind_of_read unled (bind_of_read reads rfl))
    | true =>
      have mark : (Reader.optional (literal "^")).result ("^" ++ unit '\\' :: x) =
          some (some (), unit '\\' :: x) := optional_of_read (literal_append "^" _)
      exact bind_of_read mark (bind_of_read unled (bind_of_read reads rfl))
  exact bind_of_read (literal_append "[" _) <| bind_of_read body <|
    bind_of_read (literal_append "]" rest) rfl

end Sets

end Grammar

end Highlight
