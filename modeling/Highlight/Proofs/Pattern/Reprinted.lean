import Highlight.Proofs.Pattern.Spelling

/-!
# Printed patterns are read back

A pattern that was read is printed as a text that reads as the same pattern (`Pattern.read_print`).
The rules of the grammar are nested, and each is followed by other units than the next: behind an
atom there may be a brace, behind a quantified atom another atom, behind a sequence a bar, behind a
pattern a parenthesis. `Grammar.Rereads` says of one rule that it reads a pattern back in front of
the units that may follow, at every depth with room for the groups of the pattern. There is one
lemma for each way to build a pattern from parts that are read back; then `Grammar.rereads_pattern`
goes through the grammar, by induction on the depth, and finds that it builds in no other way.
-/

namespace Highlight.Grammar

open Reader

/-- The units that the spelling of an atom begins with. -/
def atomStarts : Text := "\\[.^("

/-- The units that may stand behind an atom, a brace for its quantifier among them. -/
def atomEnds : Text := "\\[.^(|)\x7b"

/-- The units that may stand behind a quantified atom. -/
def itemEnds : Text := "\\[.^(|)"

/-- The units that may stand behind a sequence. -/
def sequenceEnds : Text := "|)"

/-- The unit that may stand behind a pattern. -/
def patternEnds : Text := ")"

/-- The rule reads the pattern back from its spelling where the text ends or goes on with one of the
units, whatever stands behind that unit. -/
structure Rereads (rule : Reader Pattern → Reader Pattern) (ends : Text) (p : Pattern) : Prop where
  begins : ∃ u ∈ atomStarts, ∃ t, p.spell = u :: t
  reads : ∀ {depth : Nat} {rest : Text}, p.spell.count (unit '(') ≤ depth → HeadIn ends rest →
    (rule (pattern depth)).result (p.spell ++ rest) = some (p, rest)

namespace Rereads

variable {p body : Pattern} {rule : Reader Pattern → Reader Pattern} {ends : Text}

theorem headIn (rereads : Rereads rule ends p) {us : Text} (starts : atomStarts ⊆ us) (t : Text) :
    HeadIn us (p.spell ++ t) := by
  obtain ⟨u, start, x, spelled⟩ := rereads.begins
  rw [spelled]
  exact headIn_cons (starts start)

section Leaves

theorem leaf {u : CodeUnit} {t : Text} (spelled : p.spell = u :: t) (start : u ∈ ("\\[.^" : Text))
    (reads : ∀ rest, HeadIn atomEnds rest →
      (bracketed <|> short).result (p.spell ++ rest) = some (p, rest)) :
    Rereads atom atomEnds p where
  begins := ⟨u, List.mem_append_left [unit '('] start, t, spelled⟩
  reads {depth rest} _ front := by
    have other : (p.spell ++ rest).head? ≠ some (unit '(') := by
      rw [spelled]
      rintro same
      rw [Option.some.inj same] at start
      exact absurd start (by decide)
    rw [atom_leaf _ other]
    exact reads rest front

theorem anchor : Rereads atom atomEnds .anchor := leaf rfl (by decide) fun _ _ => rfl

theorem dot : Rereads atom atomEnds (.set false [.named .any]) :=
  leaf rfl (by decide) fun _ _ => rfl

theorem set (negated : Bool) {items : List ClassItem} (fits : Fits items) :
    Rereads atom atomEnds (.set negated items) :=
  leaf (spellSet_of_fits negated fits) (by decide) fun rest _ =>
    orElse_of_read (bracketed_spellSet negated fits rest)

/-- Behind a backslash only one alternative for an atom is left. -/
theorem escaped {t : Text} (spelled : p.spell = unit '\\' :: t)
    (reads : ∀ rest, HeadIn atomEnds rest →
      escapedAtom.result (p.spell ++ rest) = some (p, rest)) : Rereads atom atomEnds p := by
  refine leaf spelled (by decide) fun rest front => ?_
  have read := reads rest front
  rw [spelled] at read ⊢
  exact orElse_of_fail rfl <| orElse_of_fail rfl <| orElse_of_fail rfl <| orElse_of_fail rfl <|
    orElse_of_read read

theorem char (u : CodeUnit) : Rereads atom atomEnds (.char u) :=
  escaped rfl fun rest _ => orElse_of_fail rfl <| orElse_of_fail rfl <| orElse_of_fail rfl <|
    orElse_of_fail rfl <| bind_of_read (escape_spell u rest) rfl

theorem named {n : Text} (isName : IsName n) : Rereads atom atomEnds (.backref (.name n)) := by
  refine escaped rfl fun rest _ => ?_
  refine orElse_of_fail rfl <| orElse_of_fail rfl <| orElse_of_read ?_
  rw [Pattern.spell, Reference.spell, List.append_assoc, List.append_assoc]
  exact bind_of_read (literal_append "\\k<" _) <| bind_of_read (name_append isName rest) <|
    bind_of_read (literal_append ">" rest) rfl

/-- The first digit of the number of a group has no other meaning behind a backslash. -/
theorem digitUnit_positive : ∀ k < 10, 0 < k → UnitClass.positiveDigit.holds (digitUnit k) = true ∧
    UnitClass.classLetter.holds (digitUnit k) = false ∧
    UnitClass.anchorLetter.holds (digitUnit k) = false ∧ digitUnit k ≠ unit 'k' := by decide

theorem index_digits {n k : Nat} {rest : Text} (second : Option CodeUnit) (positive : 0 < k)
    (digit : k < 10) (spelled : Text.ofNat n = digitUnit k :: second.toList)
    (read : (Reader.optional (oneOf .digit)).result (second.toList ++ rest) = some (second, rest)) :
    escapedAtom.result ((Pattern.backref (.index n)).spell ++ rest) =
      some (.backref (.index n), rest) := by
  obtain ⟨member, noClass, noAnchor, noName⟩ := digitUnit_positive k digit positive
  have value : Text.decimal (digitUnit k :: second.toList) = n := by
    rw [← spelled, Text.decimal_ofNat]
  have fails {β : Type} {members : UnitClass} (out : members.holds (digitUnit k) = false)
      (f : CodeUnit → Reader β) (t : Text) : (do literal "\\"; let u ← oneOf members; f u).result
        (unit '\\' :: digitUnit k :: t) = none :=
    bind_of_read (literal_append "\\" _) (bind_of_fail (oneOf_fail out t))
  have unnamed (t : Text) : (literal "\\k<").result (unit '\\' :: digitUnit k :: t) = none :=
    Reader.literal_eq_none.2 fun begins =>
      noName (List.cons_prefix_cons.1 (List.cons_prefix_cons.1 begins).2).1.symm
  rw [Pattern.spell, Reference.spell, spelled]
  refine orElse_of_fail (bind_of_fail (fails noClass _ _)) <| orElse_of_fail (fails noAnchor _ _) <|
    orElse_of_fail (bind_of_fail (unnamed _)) <| orElse_of_read ?_
  refine bind_of_read (literal_append "\\" _) <| bind_of_read (oneOf_cons member _) <|
    bind_of_read read ?_
  rw [value]
  rfl

/-- The number of a group has one digit or two, and no third one follows. -/
theorem index {n : Nat} (positive : 0 < n) (short : n < 100) :
    Rereads atom atomEnds (.backref (.index n)) := by
  refine escaped rfl fun rest front => ?_
  have stops : (oneOf .digit).result rest = none := front.oneOf_eq_none (by decide)
  obtain small | large := Nat.lt_or_ge n 10
  · exact index_digits none positive small (Text.ofNat_of_lt small) (optional_of_fail stops)
  · have member : UnitClass.digit.holds (digitUnit (n % 10)) = true :=
      digitUnit_isDigit _ (Nat.mod_lt n (by decide))
    have spelled : Text.ofNat n = [digitUnit (n / 10), digitUnit (n % 10)] := by
      rw [Text.ofNat_of_le large, Text.ofNat_of_lt (by omega)]
      rfl
    exact index_digits (some _) (by omega) (by omega) spelled
      (optional_of_read (oneOf_cons member rest))

end Leaves

section Groups

/-- A group opens one parenthesis more than its body. -/
theorem room_of_group {mark b : Text} {depth : Nat}
    (room : ("(" ++ (mark ++ (b ++ ")")) : Text).count (unit '(') ≤ depth) :
    ∃ d, depth = d + 1 ∧ b.count (unit '(') ≤ d := by
  have opening : (Text.ofString "(").count (unit '(') = 1 := by decide
  rw [List.count_append, List.count_append, List.count_append, opening] at room
  exact ⟨depth - 1, by omega, by omega⟩

theorem atom_of_groupBody {inner : Reader Pattern} {t rest : Text}
    (read : (groupBody inner).result t = some (p, ")" ++ rest)) :
    (atom inner).result ("(" ++ t) = some (p, rest) := by
  rw [atom_group inner rfl]
  exact bind_of_read (literal_append "(" t) <| bind_of_read read <|
    bind_of_read (literal_append ")" rest) rfl

/-- An empty comment. -/
theorem comment : Rereads atom atomEnds (.seq []) where
  begins := ⟨unit '(', by decide, "?#)", rfl⟩
  reads {depth rest} _ _ := by
    have inside : (groupBody (pattern depth)).result ("?#" ++ (")" ++ rest)) =
        some (.seq [], ")" ++ rest) :=
      orElse_of_fail rfl <| orElse_of_fail rfl <| orElse_of_fail rfl <| orElse_of_fail rfl <|
        orElse_of_fail rfl <| orElse_of_fail rfl <| orElse_of_fail rfl <| orElse_of_fail rfl <|
        orElse_of_read <| bind_of_read (literal_append "?#" _) rfl
    exact atom_of_groupBody inside

/-- A group is read back if its inside is, given what the pattern in it reads as. -/
theorem enclosed (mark : Text) (spelled : p.spell = "(" ++ (mark ++ (body.spell ++ ")")))
    (rereads : Rereads alternatives patternEnds body)
    (inside : ∀ {inner : Reader Pattern} {t : Text},
      inner.result (body.spell ++ t) = some (body, t) →
      (groupBody inner).result (mark ++ (body.spell ++ t)) = some (p, t)) :
    Rereads atom atomEnds p where
  begins := ⟨unit '(', by decide, mark ++ (body.spell ++ ")"), spelled⟩
  reads {depth rest} room _ := by
    rw [spelled] at room ⊢
    obtain ⟨d, rfl, enough⟩ := room_of_group room
    have closing : HeadIn patternEnds (")" ++ rest) := headIn_cons (by decide)
    have read : (pattern (d + 1)).result (body.spell ++ (")" ++ rest)) = some (body, ")" ++ rest) :=
      rereads.reads enough closing
    rw [List.append_assoc, List.append_assoc, List.append_assoc]
    exact atom_of_groupBody (inside read)

theorem look (rereads : Rereads alternatives patternEnds body) :
    Rereads atom atomEnds (.look body) :=
  enclosed _ rfl rereads fun read => orElse_of_fail rfl <| orElse_of_fail rfl <|
    orElse_of_fail rfl <| orElse_of_read <| bind_of_read (literal_append "?=" _) <|
    bind_of_read read rfl

theorem uncaptured (rereads : Rereads alternatives patternEnds body) :
    Rereads atom atomEnds (.group none body) :=
  enclosed _ rfl rereads fun read => orElse_of_read <| bind_of_read (literal_append "?:" _) <|
    bind_of_read read rfl

/-- No pattern is spelled with a question mark in front. -/
theorem unnamed (rereads : Rereads alternatives patternEnds body) :
    Rereads atom atomEnds (captured none body) := by
  refine enclosed [] rfl rereads fun {inner t} read => ?_
  have plain : (body.spell ++ t).head? ≠ some (unit '?') := by
    intro same
    exact absurd (rereads.headIn (List.Subset.refl _) t _ same) (by decide)
  have fails {text : Text} (marked : text.head? = some (unit '?')) :
      (literal text).result (body.spell ++ t) = none := literal_differs plain marked
  have noName : groupName.result (body.spell ++ t) = none :=
    orElse_of_fail (bind_of_fail (fails rfl)) (bind_of_fail (fails rfl))
  rw [List.nil_append, groupBody_plain plain]
  exact bind_of_read (optional_of_fail noName) (bind_of_read read rfl)

theorem captured {n : Text} (isName : IsName n) (rereads : Rereads alternatives patternEnds body) :
    Rereads atom atomEnds (captured (some n) body) := by
  have spelled : (Grammar.captured (some n) body).spell =
      "(" ++ ("?<" ++ (n ++ ">") ++ (body.spell ++ ")")) := rfl
  refine enclosed _ spelled rereads fun {inner t} read => ?_
  have uniform : inner.result (body.spell ++ t) = none →
      inner.result ("?<" ++ (n ++ (">" ++ (body.spell ++ t)))) = none := by
    rw [read]
    exact nofun
  rw [List.append_assoc, List.append_assoc,
    groupBody_named (.inr rfl) (name_append isName _) uniform]
  exact bind_of_read read rfl

end Groups

section Sequences

theorem quantifier_eq_none {rest : Text} (front : HeadIn itemEnds rest) :
    quantifier.result rest = none := by
  obtain rfl | ⟨u, inside, t, rfl⟩ := front.eq_nil_or
  · rfl
  · have inside : u ∈ [unit '\\', unit '[', unit '.', unit '^', unit '(', unit '|', unit ')'] :=
      inside
    simp only [List.mem_cons, List.not_mem_nil, or_false] at inside
    obtain rfl | rfl | rfl | rfl | rfl | rfl | rfl := inside <;> rfl

/-- What an atom reads back a quantified atom does, where no quantifier follows. -/
theorem quantified (rereads : Rereads atom atomEnds p) : Rereads quantified itemEnds p where
  begins := rereads.begins
  reads {depth rest} room front := by
    have read := rereads.reads room (front.mono (by decide))
    exact bind_of_read read (bind_of_read (optional_of_fail (quantifier_eq_none front)) rfl)

theorem repeated (rereads : Rereads atom atomEnds p) (least : Nat) (most : Option Nat) :
    Rereads Grammar.quantified itemEnds (.repeated p least most) where
  begins := by
    obtain ⟨u, start, t, spelled⟩ := rereads.begins
    exact ⟨u, start, t ++ Pattern.spellBounds least most, by rw [Pattern.spell, spelled]; rfl⟩
  reads {depth rest} room front := by
    rw [Pattern.spell] at room ⊢
    rw [List.append_assoc]
    have enough := Nat.le_trans ((List.sublist_append_left _ _).count_le (unit '(')) room
    have brace : HeadIn atomEnds (Pattern.spellBounds least most ++ rest) := by
      cases most <;> exact headIn_cons (by decide)
    have greedy : rest.head? ≠ some (unit '?') := fun same => absurd (front _ same) (by decide)
    have counts := quantifier_spellBounds least most greedy
    exact bind_of_read (rereads.reads enough brace) (bind_of_read (optional_of_read counts) rfl)

variable {items : List Pattern} {depth : Nat} {rest : Text}

/-- Quantified atoms are read one after the other up to the end of the sequence. -/
theorem many_quantified (all : ∀ item ∈ items, Rereads Grammar.quantified itemEnds item)
    (room : (items.flatMap Pattern.spell).count (unit '(') ≤ depth)
    (front : HeadIn sequenceEnds rest) :
    (many (Grammar.quantified (pattern depth))).result (items.flatMap Pattern.spell ++ rest) =
      some (items, rest) := by
  have stops : (Grammar.quantified (pattern depth)).result rest = none := by
    obtain rfl | ⟨u, inside, t, rfl⟩ := front.eq_nil_or
    · exact quantified_nil _
    · have inside : u ∈ [unit '|', unit ')'] := inside
      exact quantified_stops _ (by simpa using inside) t
  have rounds : Rounds (Grammar.quantified (pattern depth))
      (items.flatMap Pattern.spell ++ rest) items rest := by
    refine rounds_flatMap (HeadIn itemEnds) (front.mono (by decide)) stops
      (fun item inside t front => (all item inside).reads ?_ front)
      fun item inside t => (all item inside).headIn (by decide) t
    exact Nat.le_trans (count_le_flatMap inside _) room
  exact (many_eq_some (advances_quantified (shaped_pattern depth))).2 rounds

theorem single (rereads : Rereads Grammar.quantified itemEnds p) :
    Rereads sequence sequenceEnds p where
  begins := rereads.begins
  reads {depth rest} room front := by
    have enough : ([p].flatMap Pattern.spell).count (unit '(') ≤ depth := by
      rwa [List.flatMap_singleton]
    have read := many_quantified (List.forall_mem_singleton.2 rereads) enough front
    rw [List.flatMap_singleton] at read
    exact bind_of_read read rfl

theorem seq {first second : Pattern}
    (all : ∀ item ∈ first :: second :: items, Rereads Grammar.quantified itemEnds item) :
    Rereads sequence sequenceEnds (.seq (first :: second :: items)) where
  begins := by
    obtain ⟨u, start, t, spelled⟩ := (all first List.mem_cons_self).begins
    refine ⟨u, start, t ++ (second :: items).flatMap Pattern.spell, ?_⟩
    rw [Pattern.spell_seq (List.cons_ne_nil _ _), List.flatMap_cons, spelled]
    rfl
  reads {depth rest} room front := by
    rw [Pattern.spell_seq (List.cons_ne_nil _ _)] at room ⊢
    exact bind_of_read (many_quantified all room front) rfl

end Sequences

section Alternatives

variable {head : Pattern} {options : List Pattern}

/-- Behind the first option each one has its bar in front. -/
theorem alternatives_spelled {depth : Nat} {rest : Text}
    (all : ∀ option ∈ head :: options, Rereads sequence sequenceEnds option)
    (room : (head.spell ++ options.flatMap Pattern.spellBarred).count (unit '(') ≤ depth)
    (front : HeadIn patternEnds rest) :
    (alternatives (pattern depth)).result
      (head.spell ++ (options.flatMap Pattern.spellBarred ++ rest)) =
        some (if options.isEmpty then head else .alt (head :: options), rest) := by
  obtain ⟨first, others⟩ := List.forall_mem_cons.1 all
  rw [List.count_append] at room
  have bar (t : Text) : HeadIn sequenceEnds ("|" ++ t) := headIn_cons (by decide)
  have last : HeadIn sequenceEnds rest := front.mono (by decide)
  have stops : (barred (pattern depth)).result rest = none :=
    bind_of_fail (front.literal_eq_none (by decide))
  have rounds : Rounds (barred (pattern depth))
      (options.flatMap Pattern.spellBarred ++ rest) options rest := by
    refine rounds_flatMap (HeadIn sequenceEnds) last stops (fun option inside t front => ?_)
      fun option _ t => ?_
    · refine barred_eq_some.2 ⟨option.spell ++ t, List.append_assoc _ _ _, ?_⟩
      refine (others option inside).reads ?_ front
      have part := count_le_flatMap (s := Pattern.spellBarred) inside (unit '(')
      rw [Pattern.spellBarred, List.count_append] at part
      omega
    · rw [Pattern.spellBarred, List.append_assoc]
      exact bar _
  have behind : HeadIn sequenceEnds (options.flatMap Pattern.spellBarred ++ rest) := by
    cases options with
    | nil => exact last
    | cons option options =>
      rw [List.flatMap_cons, Pattern.spellBarred, List.append_assoc, List.append_assoc]
      exact bar _
  exact alternatives_eq_some.2 ⟨head, _, options, first.reads (by omega) behind,
    (many_eq_some (advances_barred (shaped_pattern depth))).2 rounds, rfl⟩

theorem only (rereads : Rereads sequence sequenceEnds p) : Rereads alternatives patternEnds p where
  begins := rereads.begins
  reads {depth rest} room front := by
    refine @alternatives_spelled p [] depth rest (List.forall_mem_singleton.2 rereads) ?_ front
    rwa [List.flatMap_nil, List.append_nil]

theorem alt {option : Pattern}
    (all : ∀ option' ∈ head :: option :: options, Rereads sequence sequenceEnds option') :
    Rereads alternatives patternEnds (.alt (head :: option :: options)) where
  begins := by
    obtain ⟨u, start, t, spelled⟩ := (all head List.mem_cons_self).begins
    rw [Pattern.spell_alt, spelled]
    exact ⟨u, start, _, rfl⟩
  reads {depth rest} room front := by
    rw [Pattern.spell_alt] at room ⊢
    rw [List.append_assoc]
    exact alternatives_spelled all room front

end Alternatives

end Rereads

section Rules

theorem yields_name : Yields name IsName :=
  yields_next (yields_oneOf _) fun first starts =>
    yields_value (yields_many (advances_oneOf _) (yields_oneOf _)) fun others all =>
      ⟨first, others, rfl, starts, all⟩

/-- A first digit that is not zero and perhaps a second one. -/
theorem decimal_bounds {first : CodeUnit} {second : Option CodeUnit}
    (positive : UnitClass.positiveDigit.holds first = true)
    (digit : ∀ u ∈ second, UnitClass.digit.holds u = true) :
    0 < Text.decimal (first :: second.toList) ∧ Text.decimal (first :: second.toList) < 100 := by
  have bounds {lo hi : Char} {u : CodeUnit} (between : u.isBetween lo hi = true) :
      (unit lo).toNat ≤ u.toNat ∧ u.toNat ≤ (unit hi).toNat := by
    rwa [CodeUnit.isBetween, Bool.and_eq_true, decide_eq_true_iff, decide_eq_true_iff] at between
  have ones : 49 ≤ first.toNat ∧ first.toNat ≤ 57 := bounds positive
  cases second with
  | none =>
    have value : Text.decimal [first] = 0 * 10 + (first.toNat - 48) := rfl
    rw [Option.toList_none, value]
    omega
  | some second =>
    have value : Text.decimal [first, second] =
        (0 * 10 + (first.toNat - 48)) * 10 + (second.toNat - 48) := rfl
    have units : 48 ≤ second.toNat ∧ second.toNat ≤ 57 := bounds (digit second rfl)
    rw [Option.toList_some, value]
    omega

theorem yields_namedClass : Yields namedClass (· ≠ .any) := by
  have letter (u : CodeUnit) : classOf u ≠ .any := by
    unfold classOf
    repeat' split
    all_goals exact nofun
  exact yields_bind fun _ => yields_bind fun u => yields_pure (letter u)

theorem yields_bracketItem : Yields bracketItem (· ≠ .named .any) :=
  yields_orElse (yields_value yields_namedClass fun _ other same =>
    other (ClassItem.named.inj same)) <|
  yields_orElse (yields_bind fun _ => yields_bind fun _ => yields_bind fun _ => yields_pure nofun) <|
  yields_bind fun _ => yields_pure nofun

/-- Brackets with nothing between them would be a set that begins with the closing one. -/
theorem rereads_bracketed : Yields bracketed (Rereads atom atomEnds) := by
  intro t a rest read
  obtain ⟨_, _, _, further⟩ := bind_eq_some.1 read
  obtain ⟨set, last, inside, further⟩ := bind_eq_some.1 further
  obtain ⟨_, _, closes, rfl, rfl⟩ := bind_eq_some.1 further
  obtain rfl := literal_eq_some.1 closes
  obtain ⟨negated, _, _, further⟩ := bind_eq_some.1 inside
  obtain ⟨first, afterFirst, leads, further⟩ := bind_eq_some.1 further
  obtain ⟨items, _, reads, rfl, rfl⟩ := bind_eq_some.1 further
  have others := yields_many advances_bracketItem yields_bracketItem reads
  refine .set negated.isSome ?_
  obtain lead | ⟨failed, lead⟩ := orElse_eq_some.1 leads
  · obtain ⟨item, _, bracket, rfl, rfl⟩ := bind_eq_some.1 lead
    obtain ⟨_, _, _, rfl, rfl⟩ := bind_eq_some.1 bracket
    exact ⟨List.cons_ne_nil _ _, List.forall_mem_cons.2 ⟨nofun, others⟩⟩
  · cases lead
    refine ⟨?_, others⟩
    rintro rfl
    cases (many_eq_some advances_bracketItem).1 reads
    cases failed

theorem rereads_escapedAtom : Yields escapedAtom (Rereads atom atomEnds) := by
  refine yields_orElse ?_ (yields_orElse ?_ (yields_orElse ?_ (yields_orElse ?_ ?_)))
  · refine yields_value yields_namedClass fun name other => .set false ⟨List.cons_ne_nil _ _, ?_⟩
    exact List.forall_mem_singleton.2 fun same => other (ClassItem.named.inj same)
  · exact yields_bind fun _ => yields_bind fun _ => yields_pure .anchor
  · exact yields_bind fun _ => yields_next yields_name fun n isName =>
      yields_bind fun _ => yields_pure (.named isName)
  · refine yields_bind fun _ => yields_next (yields_oneOf _) fun first positive =>
      yields_next (yields_optional (yields_oneOf _)) fun second digit => yields_pure ?_
    obtain ⟨least, most⟩ := decimal_bounds positive digit
    exact .index least most
  · exact yields_bind fun u => yields_pure (.char u)

theorem rereads_short : Yields short (Rereads atom atomEnds) :=
  yields_orElse (yields_bind fun _ => yields_pure .dot) <|
  yields_orElse (yields_bind fun _ => yields_pure .anchor) <|
  yields_orElse (yields_bind fun _ => yields_pure .anchor) <|
  yields_orElse rereads_escapedAtom <|
  yields_bind fun u => yields_pure (.char u)

variable {inner : Reader Pattern} (ih : Yields inner (Rereads alternatives patternEnds))

include ih

theorem rereads_groupBody : Yields (groupBody inner) (Rereads atom atomEnds) := by
  have marked {mark : Text} {node : Pattern → Pattern}
      (holds : ∀ {body}, Rereads alternatives patternEnds body →
        Rereads atom atomEnds (node body)) :
      Yields (do literal mark; let body ← inner; pure (node body)) (Rereads atom atomEnds) :=
    yields_bind fun _ => yields_value ih fun _ => holds
  have named {mark : Text} : Yields (do
      literal mark
      let name ← name
      literal ">"
      let body ← inner
      pure (captured (some name) body)) (Rereads atom atomEnds) :=
    yields_bind fun _ => yields_next yields_name fun n isName => yields_bind fun _ =>
      yields_value ih fun _ => .captured isName
  refine yields_orElse (marked .uncaptured) (yields_orElse named (yields_orElse ?_ (yields_orElse
    (marked .look) (yields_orElse (marked .look) (yields_orElse (marked .look) (yields_orElse
    (marked .look) (yields_orElse named (yields_orElse ?_ (yields_orElse ?_ (yields_orElse ?_
    (yields_value ih fun _ => .unnamed)))))))))))
  · exact yields_bind fun _ => yields_value yields_name fun n isName => .named isName
  · exact yields_bind fun _ => yields_bind fun _ => yields_pure .comment
  · exact yields_bind fun _ => yields_bind fun _ => yields_bind fun _ =>
      yields_value ih fun _ => .uncaptured
  · exact yields_bind fun _ => yields_bind fun _ => yields_pure .comment

theorem rereads_atom : Yields (atom inner) (Rereads atom atomEnds) := by
  have group : Yields (group inner) (Rereads atom atomEnds) :=
    yields_bind fun _ => yields_next (rereads_groupBody ih) fun _ rereads =>
      yields_bind fun _ => yields_pure rereads
  exact yields_orElse group (yields_orElse rereads_bracketed rereads_short)

theorem rereads_quantified : Yields (quantified inner) (Rereads quantified itemEnds) := by
  refine yields_next (rereads_atom ih) fun body rereads => yields_bind fun bounds => yields_pure ?_
  cases bounds with
  | none => exact rereads.quantified
  | some bounds => exact rereads.repeated bounds.least bounds.most

end Rules

/-- Every pattern that is read is read back from its spelling. -/
theorem rereads_pattern (depth : Nat) :
    Yields (pattern depth) (Rereads alternatives patternEnds) := by
  induction depth with
  | zero => exact fun _ _ _ read => nomatch read
  | succ depth ih =>
    have items := yields_many (advances_quantified (shaped_pattern depth)) (rereads_quantified ih)
    have sequences : Yields (sequence (pattern depth)) (Rereads sequence sequenceEnds) := by
      refine yields_value items fun items all => ?_
      match items with
      | [] => exact Rereads.comment.quantified.single
      | [item] => exact (all item List.mem_cons_self).single
      | first :: second :: items => exact .seq all
    have options : Yields (barred (pattern depth)) (Rereads sequence sequenceEnds) :=
      yields_bind fun _ => sequences
    refine yields_next sequences fun head first => ?_
    refine yields_value (yields_many (advances_barred (shaped_pattern depth)) options)
      fun options all => ?_
    cases options with
    | nil => exact first.only
    | cons option options => exact .alt (List.forall_mem_cons.2 ⟨first, all⟩)

end Highlight.Grammar

namespace Highlight.Pattern

/-- The tree of a pattern is the tree of its printed text. -/
theorem readTree_print {t : Text} {root : Pattern} (read : readTree t = .ok root) :
    readTree root.print = .ok root := by
  by_cases empty : root = seq []
  · rw [empty]
    exact readTree_eq_ok.2 rfl
  · have rereads := Grammar.rereads_pattern _ (readTree_eq_ok.1 read)
    have whole := rereads.reads (Nat.le_refl _) headIn_nil
    rw [List.append_nil] at whole
    rw [print_eq_spell empty]
    exact readTree_eq_ok.2 whole

/-- Whatever pattern is read, its printed text is the same pattern: the same tree, the same numbers
of its groups, as many of them and with the same names. -/
theorem read_print {t : Text} {tree : NumberedPattern} (read : Pattern.read t = .ok tree) :
    Pattern.read tree.root.print = .ok tree := by
  obtain ⟨root, plain, rfl⟩ := read_eq_ok.1 read
  rw [print_numbered]
  exact read_eq_ok.2 ⟨root, readTree_print plain, rfl⟩

/-- A negated set that begins with its closing bracket, a lazy quantifier, an option without text, a
quantifier with one count, both ways to refer to a group, a lookahead and a comment. -/
def variedPattern : Text := "^(?P<y>[^]\\w-a]+?)(\\n|)*(?:b\x7b2\x7d|(?P=y))(?!\\1$)(?#x)."

/-- The text that `variedPattern` is printed as. -/
def variedPrint : Text :=
  "^(?<y>[^\\u005d\\w\\u002d\\u0061]\x7b1,\x7d)(\\u000a|(?#))\x7b0,\x7d" ++
    "(?:\\u0062\x7b2,2\x7d|\\k<y>)(?=\\1^)(?#)."

theorem read_print_variedPattern : ∃ tree, Pattern.read variedPattern = .ok tree ∧
    tree.root.print = variedPrint ∧ Pattern.read tree.root.print = .ok tree := by
  have printed : (Pattern.read variedPattern).toOption.map (fun tree => tree.root.print) =
      some variedPrint := by decide +kernel
  obtain ⟨tree, accepted, same⟩ := Option.map_eq_some_iff.1 printed
  have read := eq_ok_of_toOption accepted
  exact ⟨tree, read, same, read_print read⟩

end Highlight.Pattern
