import Highlight.Proofs.Pattern.Ground
import Highlight.Proofs.Pattern.Reprinted

/-!
# Derivations of patterns

`Grammar.Derives` describes the patterns without the readers around them: which texts are atoms,
items, sequences and lists of options, and what is read in them. There is no order of choice in it
and no depth, and a sequence ends just where nothing can go on. It describes the same patterns
(`readTree_iff_derives`): a text has a tree exactly if it derives a list of options to its end. What
holds of every pattern can so be proved by induction on a derivation.
-/

namespace Highlight.Grammar

open Reader

/-- The marks of lookarounds. -/
def lookMarks : List Text := ["?=", "?!", "?<=", "?<!"]

/-- What stands between the parenthesis of a group and the pattern in it, and what the group makes
of the pattern. -/
inductive Mark : Text → (Pattern → Pattern) → Prop where
  | plain : Mark [] (captured none)
  | named {front n : Text} (spelling : front = "?P<" ∨ front = "?<") (isName : IsName n) :
    Mark (front ++ (n ++ ">")) (captured (some n))
  | uncaptured : Mark "?:" (.group none)
  | look {front : Text} (listed : front ∈ lookMarks) : Mark front .look
  | flagged {flags : Text} (nonempty : flags ≠ [])
    (known : ∀ u ∈ flags, UnitClass.flagOrMinus.holds u = true) :
    Mark ("?" ++ (flags ++ ":")) (.group none)

/-- What may stand between parentheses without a pattern in it. -/
inductive Bare : Text → Pattern → Prop where
  | reference {n : Text} (isName : IsName n) : Bare ("?P=" ++ n) (.backref (.name n))
  | comment {x : Text} (known : ∀ u ∈ x, UnitClass.commented.holds u = true) :
    Bare ("?#" ++ x) (.seq [])
  | flags {flags : Text} (nonempty : flags ≠ [])
    (known : ∀ u ∈ flags, UnitClass.flag.holds u = true) : Bare ("?" ++ flags) (.seq [])

/-- An atom with the quantifier behind it. -/
def quantify (bounds : Option Bounds) (body : Pattern) : Pattern :=
  match bounds with
  | some bounds => .repeated body bounds.least bounds.most
  | none => body

/-- Items one behind the other; a single one stands alone. -/
def sequenceOf : List Pattern → Pattern
  | [item] => item
  | items => .seq items

/-- Options; a single one stands alone. -/
def alternativesOf : List Pattern → Pattern
  | [option] => option
  | options => .alt options

theorem alternativesOf_cons (head : Pattern) (others : List Pattern) :
    alternativesOf (head :: others) = if others.isEmpty then head else .alt (head :: others) := by
  cases others <;> rfl

/-- The parts of a pattern that the grammar tells apart. -/
inductive Category where
  | atom | item | sequence | options
  deriving DecidableEq

/-- The text is a part of a pattern and a rest, and these patterns are read in the part: a single
one in an atom and an item, any number of them in a sequence, and one for each option. -/
inductive Derives : Category → Text → List Pattern → Text → Prop where
  | leaf {t rest : Text} {a : Pattern} (read : (bracketed <|> short).result t = some (a, rest)) :
    Derives .atom t [a] rest
  | bare {x rest : Text} {a : Pattern} (bare : Bare x a) :
    Derives .atom (unit '(' :: (x ++ unit ')' :: rest)) [a] rest
  | group {w t rest : Text} {node : Pattern → Pattern} {options : List Pattern}
    (mark : Mark w node) (inside : Derives .options t options (unit ')' :: rest)) :
    Derives .atom (unit '(' :: (w ++ t)) [node (alternativesOf options)] rest
  | item {t middle rest : Text} {a : Pattern} {bounds : Option Bounds}
    (first : Derives .atom t [a] middle)
    (times : (Reader.optional quantifier).result middle = some (bounds, rest)) :
    Derives .item t [quantify bounds a] rest
  | nil {rest : Text} (ends : HeadIn sequenceEnds rest) : Derives .sequence rest [] rest
  | cons {t middle rest : Text} {a : Pattern} {as : List Pattern}
    (first : Derives .item t [a] middle) (later : Derives .sequence middle as rest) :
    Derives .sequence t (a :: as) rest
  | last {t rest : Text} {as : List Pattern} (only : Derives .sequence t as rest)
    (ends : HeadIn patternEnds rest) : Derives .options t [sequenceOf as] rest
  | more {t middle rest : Text} {as options : List Pattern}
    (first : Derives .sequence t as (unit '|' :: middle))
    (later : Derives .options middle options rest) :
    Derives .options t (sequenceOf as :: options) rest

/-! ## What is read is derived -/

section Reading

variable {inner : Reader Pattern} {t rest : Text} {a : Pattern}

theorem name_eq_some {n : Text} (read : name.result t = some (n, rest)) :
    IsName n ∧ t = n ++ rest := by
  refine ⟨yields_name read, ?_⟩
  obtain ⟨first, middle, starts, further⟩ := bind_eq_some.1 read
  obtain ⟨others, _, goes, rfl, rfl⟩ := bind_eq_some.1 further
  obtain ⟨rfl, _⟩ := oneOf_eq_some.1 starts
  have units : Takes (many (oneOf .nameRest)) fun x as _ => x = as :=
    takes_many (advances_oneOf _) (takes_oneOf _) rfl fun ⟨one, _⟩ all => by rw [one, all]; rfl
  obtain ⟨x, rfl, rfl⟩ := units goes
  rfl

/-- The inside of a group is a mark with a pattern behind it, or one without a pattern. -/
def Inside (inner : Reader Pattern) (t : Text) (a : Pattern) (rest : Text) : Prop :=
  (∃ w node t' body, t = w ++ t' ∧ Mark w node ∧ inner.result t' = some (body, rest) ∧
    a = node body) ∨ ∃ x, t = x ++ rest ∧ Bare x a

theorem inside_of_marked {w : Text} {node : Pattern → Pattern} (mark : Mark w node)
    (read : (do literal w; let body ← inner; pure (node body)).result t = some (a, rest)) :
    Inside inner t a rest := by
  obtain ⟨_, t', front, further⟩ := bind_eq_some.1 read
  obtain ⟨body, _, inside, rfl, rfl⟩ := bind_eq_some.1 further
  exact .inl ⟨w, node, t', body, literal_eq_some.1 front, mark, inside, rfl⟩

theorem inside_of_named {front : Text} (spelling : front = "?P<" ∨ front = "?<")
    (read : (do
      literal front
      let name ← name
      literal ">"
      let body ← inner
      pure (captured (some name) body)).result t = some (a, rest)) : Inside inner t a rest := by
  obtain ⟨_, behind, opens, further⟩ := bind_eq_some.1 read
  obtain ⟨n, _, named, further⟩ := bind_eq_some.1 further
  obtain ⟨_, t', closes, further⟩ := bind_eq_some.1 further
  obtain ⟨body, _, inside, rfl, rfl⟩ := bind_eq_some.1 further
  obtain rfl := literal_eq_some.1 opens
  obtain ⟨isName, rfl⟩ := name_eq_some named
  obtain rfl := literal_eq_some.1 closes
  exact .inl ⟨front ++ (n ++ ">"), _, t', body, by simp only [List.append_assoc],
    .named spelling isName, inside, rfl⟩

theorem inside_of_bare {β : Type} {front : Text} {p : Reader β} {node : β → Pattern}
    (bare : ∀ {t b rest}, p.result t = some (b, rest) →
      ∃ x, t = x ++ rest ∧ Bare (front ++ x) (node b))
    (read : (do literal front; let b ← p; pure (node b)).result t = some (a, rest)) :
    Inside inner t a rest := by
  obtain ⟨_, behind, opens, further⟩ := bind_eq_some.1 read
  obtain ⟨b, _, second, rfl, rfl⟩ := bind_eq_some.1 further
  obtain rfl := literal_eq_some.1 opens
  obtain ⟨x, rfl, isBare⟩ := bare second
  exact .inr ⟨_, (List.append_assoc _ _ _).symm, isBare⟩

theorem inside_of_groupBody (read : (groupBody inner).result t = some (a, rest)) :
    Inside inner t a rest := by
  unfold groupBody at read
  obtain read | ⟨-, read⟩ := orElse_eq_some.1 read
  · exact inside_of_marked .uncaptured read
  obtain read | ⟨-, read⟩ := orElse_eq_some.1 read
  · exact inside_of_named (.inl rfl) read
  obtain read | ⟨-, read⟩ := orElse_eq_some.1 read
  · refine inside_of_bare (fun named => ?_) read
    obtain ⟨isName, rfl⟩ := name_eq_some named
    exact ⟨_, rfl, .reference isName⟩
  obtain read | ⟨-, read⟩ := orElse_eq_some.1 read
  · exact inside_of_marked (.look (by decide)) read
  obtain read | ⟨-, read⟩ := orElse_eq_some.1 read
  · exact inside_of_marked (.look (by decide)) read
  obtain read | ⟨-, read⟩ := orElse_eq_some.1 read
  · exact inside_of_marked (.look (by decide)) read
  obtain read | ⟨-, read⟩ := orElse_eq_some.1 read
  · exact inside_of_marked (.look (by decide)) read
  obtain read | ⟨-, read⟩ := orElse_eq_some.1 read
  · exact inside_of_named (.inr rfl) read
  obtain read | ⟨-, read⟩ := orElse_eq_some.1 read
  · refine inside_of_bare (fun units => ?_) read
    obtain ⟨x, rfl, known⟩ := shaped_many_oneOf _ units
    exact ⟨x, rfl, .comment known⟩
  obtain read | ⟨-, read⟩ := orElse_eq_some.1 read
  · obtain ⟨_, behind, opens, further⟩ := bind_eq_some.1 read
    obtain ⟨_, _, units, further⟩ := bind_eq_some.1 further
    obtain ⟨_, t', colon, further⟩ := bind_eq_some.1 further
    obtain ⟨body, _, inside, rfl, rfl⟩ := bind_eq_some.1 further
    obtain rfl := literal_eq_some.1 opens
    obtain ⟨flags, rfl, nonempty, known⟩ := shaped_atLeastOnce _ units
    obtain rfl := literal_eq_some.1 colon
    exact .inl ⟨"?" ++ (flags ++ ":"), _, t', body, by simp only [List.append_assoc],
      .flagged nonempty known, inside, rfl⟩
  obtain read | ⟨-, read⟩ := orElse_eq_some.1 read
  · refine inside_of_bare (fun units => ?_) read
    obtain ⟨flags, rfl, nonempty, known⟩ := shaped_atLeastOnce _ units
    exact ⟨flags, rfl, .flags nonempty known⟩
  · obtain ⟨body, _, inside, rfl, rfl⟩ := bind_eq_some.1 read
    exact .inl ⟨[], _, t, body, rfl, .plain, inside, rfl⟩

end Reading

section Sound

variable {depth : Nat} (ih : ∀ {t rest : Text} {a : Pattern}, HeadIn patternEnds rest →
  (pattern depth).result t = some (a, rest) →
  ∃ options, a = alternativesOf options ∧ Derives .options t options rest)
  {t rest : Text} {a : Pattern}

include ih

theorem derives_of_atom (read : (atom (pattern depth)).result t = some (a, rest)) :
    Derives .atom t [a] rest := by
  rw [atom_eq] at read
  obtain read | ⟨-, read⟩ := orElse_eq_some.1 read
  · obtain ⟨_, behind, opens, further⟩ := bind_eq_some.1 read
    obtain ⟨_, _, body, further⟩ := bind_eq_some.1 further
    obtain ⟨_, _, closes, rfl, rfl⟩ := bind_eq_some.1 further
    have opened : t = unit '(' :: behind := literal_eq_some.1 opens
    obtain rfl := literal_eq_some.1 closes
    subst opened
    obtain ⟨w, node, t', body, rfl, mark, inside, rfl⟩ | ⟨x, rfl, bare⟩ := inside_of_groupBody body
    · obtain ⟨options, rfl, derives⟩ := ih (headIn_cons (by decide)) inside
      exact .group mark derives
    · exact .bare bare
  · exact .leaf read

theorem derives_of_item (read : (quantified (pattern depth)).result t = some (a, rest)) :
    Derives .item t [a] rest := by
  obtain ⟨body, middle, first, further⟩ := bind_eq_some.1 read
  obtain ⟨bounds, _, times, rfl, rfl⟩ := bind_eq_some.1 further
  exact .item (derives_of_atom ih first) times

theorem derives_of_rounds {as : List Pattern}
    (rounds : Rounds (quantified (pattern depth)) t as rest) (ends : HeadIn sequenceEnds rest) :
    Derives .sequence t as rest := by
  induction rounds with
  | stop => exact .nil ends
  | more read _ later => exact .cons (derives_of_item ih read) (later ends)

theorem derives_of_sequence (read : (sequence (pattern depth)).result t = some (a, rest))
    (ends : HeadIn sequenceEnds rest) :
    ∃ as, a = sequenceOf as ∧ Derives .sequence t as rest := by
  obtain ⟨items, _, reads, rfl, rfl⟩ := bind_eq_some.1 read
  have rounds := (many_eq_some (advances_quantified (shaped_pattern depth))).1 reads
  exact ⟨items, rfl, derives_of_rounds ih rounds ends⟩

omit ih in
/-- A sequence in front of options ends as a sequence does. -/
theorem headIn_of_barred {options : List Pattern}
    (rounds : Rounds (barred (pattern depth)) t options rest) (ends : HeadIn patternEnds rest) :
    HeadIn sequenceEnds t := by
  cases rounds with
  | stop => exact ends.mono (by decide)
  | more read _ =>
    obtain ⟨behind, rfl, _⟩ := barred_eq_some.1 read
    exact headIn_cons (by decide)

theorem derives_of_barred {options : List Pattern} {middle : Text} {as : List Pattern}
    (first : Derives .sequence t as middle)
    (rounds : Rounds (barred (pattern depth)) middle options rest) (ends : HeadIn patternEnds rest) :
    Derives .options t (sequenceOf as :: options) rest := by
  induction rounds generalizing t as with
  | stop => exact .last first ends
  | more read later further =>
    obtain ⟨behind, rfl, option⟩ := barred_eq_some.1 read
    obtain ⟨bs, rfl, next⟩ := derives_of_sequence ih option (headIn_of_barred later ends)
    exact .more first (further next ends)

theorem derives_of_alternatives (ends : HeadIn patternEnds rest)
    (read : (alternatives (pattern depth)).result t = some (a, rest)) :
    ∃ options, a = alternativesOf options ∧ Derives .options t options rest := by
  obtain ⟨head, middle, options, first, second, rfl⟩ := alternatives_eq_some.1 read
  have rounds := (many_eq_some (advances_barred (shaped_pattern depth))).1 second
  obtain ⟨as, rfl, derives⟩ := derives_of_sequence ih first (headIn_of_barred rounds ends)
  exact ⟨sequenceOf as :: options, (alternativesOf_cons _ _).symm,
    derives_of_barred ih derives rounds ends⟩

end Sound

/-- A pattern that is read up to where a pattern may end is derived, at any depth. -/
theorem derives_of_pattern (depth : Nat) {t rest : Text} {a : Pattern}
    (ends : HeadIn patternEnds rest) (read : (pattern depth).result t = some (a, rest)) :
    ∃ options, a = alternativesOf options ∧ Derives .options t options rest := by
  induction depth generalizing t a rest with
  | zero => cases read
  | succ depth ih => exact derives_of_alternatives ih ends read

/-! ## What is derived stands in front of the rest -/

section Taken

variable {category : Category} {t rest : Text} {as : List Pattern}

/-- Nothing that is derived begins with a question mark. -/
theorem Derives.unmarked (derives : Derives category t as rest) : t.head? ≠ some (unit '?') := by
  induction derives with
  | leaf read =>
    intro marked
    obtain ⟨t, rfl⟩ := List.head?_eq_some_iff.1 marked
    cases read
  | bare bare => exact nofun
  | group mark inside _ => exact nofun
  | item first times ih => exact ih
  | nil ends =>
    intro marked
    exact absurd (ends _ marked) (by decide)
  | cons first later ih _ => exact ih
  | last only ends ih => exact ih
  | more first later ih _ => exact ih

theorem IsName.inert {n : Text} (isName : IsName n) : Dialect.InertText n := by
  obtain ⟨first, others, rfl, starts, all⟩ := isName
  have start : UnitClass.nameStart.IsInert := by decide
  have later : UnitClass.nameRest.IsInert := by decide
  exact List.forall_mem_cons.2 ⟨start.unit starts, fun u inside => later.unit (all u inside)⟩

/-- Behind the mark of a group stands code. -/
theorem Mark.ground {w : Text} {node : Pattern → Pattern} (mark : Mark w node) :
    w = [] ∨ Ground.run .paren w = .code := by
  cases mark with
  | plain => exact .inl rfl
  | @named front n spelling isName =>
    have inert : Dialect.InertText (n ++ ">") :=
      List.forall_mem_append.2 ⟨isName.inert, (by decide : Dialect.InertText ">")⟩
    have begins : Ground.run .paren front = .code := by
      obtain rfl | rfl := spelling <;> rfl
    rw [Ground.run_append, begins, Ground.run_inert inert]
    exact .inr rfl
  | uncaptured => exact .inr rfl
  | look listed =>
    have all : ∀ front ∈ lookMarks, Ground.run .paren front = .code := by decide
    exact .inr (all w listed)
  | flagged nonempty known =>
    have begins : Ground.run .paren "?" = .mark := rfl
    have code := (Ground.run_flags (by decide) (by decide) nonempty known).1
    rw [Ground.run_append, Ground.run_append, begins, code]
    exact .inr rfl

/-- Behind a group without a pattern stands code. -/
theorem Bare.ground {x : Text} {a : Pattern} (bare : Bare x a) :
    Ground.run .paren (x ++ ")") = .code := by
  cases bare with
  | reference isName =>
    have begins : Ground.run .paren "?P=" = .code := rfl
    rw [Ground.run_append, Ground.run_append, begins, Ground.run_inert isName.inert]
    rfl
  | @comment y known =>
    have begins : Ground.run .paren "?#" = .comment := rfl
    have open_ : unit ')' ∉ y := fun closes => absurd (known _ closes) (by decide)
    rw [Ground.run_append, Ground.run_append, begins, Ground.run_comment open_]
    rfl
  | flags nonempty known =>
    have begins : Ground.run .paren "?" = .mark := rfl
    have code := (Ground.run_flags (by decide) (by decide) nonempty known).1
    rw [Ground.run_append, Ground.run_append, begins, code]
    rfl

/-- What is derived is a part of the text that begins and ends in code. -/
theorem Derives.taken (derives : Derives category t as rest) :
    ∃ x, t = x ++ rest ∧ Ground.run .code x = .code := by
  induction derives with
  | leaf read =>
    obtain ⟨x, rfl, leafText⟩ := takes_leaf read
    exact ⟨x, rfl, leafText.ground.2⟩
  | @bare x rest a bare =>
    exact ⟨unit '(' :: (x ++ ")"), by simp [Text.ofString, unit, CodeUnit.ofScalar], bare.ground⟩
  | @group w t rest node options mark inside ih =>
    obtain ⟨x, rfl, code⟩ := ih
    refine ⟨unit '(' :: (w ++ (x ++ ")")), by simp [Text.ofString, unit, CodeUnit.ofScalar], ?_⟩
    have behind : Ground.run .code (x ++ ")") = .code := by
      rw [Ground.run_append, code]
      rfl
    show Ground.run .paren (w ++ (x ++ ")")) = .code
    obtain rfl | marked := mark.ground
    · -- behind a bare parenthesis only a question mark is not read as code
      have unmarked := inside.unmarked
      cases x with
      | nil => rfl
      | cons u x =>
        have plain : u ≠ unit '?' := fun same => unmarked (congrArg some same)
        rw [← behind]
        simp only [List.nil_append, List.cons_append, Ground.run_cons, Ground.next_paren plain]
    · rw [Ground.run_append, marked, behind]
  | item first times ih =>
    obtain ⟨x, rfl, code⟩ := ih
    obtain ⟨y, rfl, inert⟩ := inert_optional inert_quantifier times
    refine ⟨x ++ y, (List.append_assoc _ _ _).symm, ?_⟩
    rw [Ground.run_append, code, Ground.run_inert inert]
  | nil ends => exact ⟨[], rfl, rfl⟩
  | cons first later ih ih' =>
    obtain ⟨x, rfl, code⟩ := ih
    obtain ⟨y, rfl, code'⟩ := ih'
    refine ⟨x ++ y, (List.append_assoc _ _ _).symm, ?_⟩
    rw [Ground.run_append, code, code']
  | last only ends ih => exact ih
  | more first later ih ih' =>
    obtain ⟨x, rfl, code⟩ := ih
    obtain ⟨y, rfl, code'⟩ := ih'
    refine ⟨x ++ ("|" ++ y), by simp [Text.ofString, unit, CodeUnit.ofScalar], ?_⟩
    have bar : Ground.run .code "|" = .code := rfl
    rw [Ground.run_append, Ground.run_append, code, bar, code']

theorem Derives.suffix (derives : Derives category t as rest) : rest <:+ t := by
  obtain ⟨x, rfl, _⟩ := derives.taken
  exact List.suffix_append x rest

end Taken

/-! ## What is derived is read -/

section Inside

variable {inner : Reader Pattern} {t rest : Text} {a : Pattern}

theorem name_reads {n : Text} (isName : IsName n) (stops : (oneOf .nameRest).result rest = none) :
    name.result (n ++ rest) = some (n, rest) := by
  obtain ⟨first, others, rfl, starts, all⟩ := isName
  exact bind_of_read (oneOf_cons starts _) (bind_of_read (many_oneOf_append all stops) rfl)

/-- Flags are read up to the first unit that is none. -/
theorem flags_read {members : UnitClass} {flags : Text} (nonempty : flags ≠ [])
    (known : ∀ u ∈ flags, members.holds u = true)
    (stops : (oneOf members).result rest = none) :
    (atLeastOnce (oneOf members)).result (flags ++ rest) = some (flags, rest) := by
  obtain ⟨first, others, rfl⟩ := List.exists_cons_of_ne_nil nonempty
  obtain ⟨here, later⟩ := List.forall_mem_cons.1 known
  exact bind_of_read (oneOf_cons here _) (bind_of_read (many_oneOf_append later stops) rfl)

/-- Behind the question mark of flags no other mark goes on. -/
theorem literal_beside_flags {members : UnitClass} {flags text : Text} {v : CodeUnit}
    (nonempty : flags ≠ []) (known : ∀ u ∈ flags, members.holds u = true)
    (out : members.holds v = false) :
    (literal (unit '?' :: v :: text)).result ("?" ++ (flags ++ rest)) = none := by
  obtain ⟨first, others, rfl⟩ := List.exists_cons_of_ne_nil nonempty
  have other := UnitClass.ne_of_holds (known first List.mem_cons_self) out
  refine literal_eq_none.2 fun begins => other ?_
  exact (List.cons_prefix_cons.1 (List.cons_prefix_cons.1 begins).2).1.symm

/-- Where flags stand behind the parenthesis, only the two alternatives for flags are left, and the
one for a pattern. -/
theorem groupBody_flags {members : UnitClass} {flags : Text} (nonempty : flags ≠ [])
    (known : ∀ u ∈ flags, members.holds u = true)
    (out : (":P=!<#" : Text).any members.holds = false) {found : Option (Pattern × Text)}
    (further : ((do
        literal "?"
        let _ ← Reader.atLeastOnce (oneOf .flagOrMinus)
        literal ":"
        let body ← inner
        pure (Pattern.group none body))
      <|> (do
        literal "?"
        let _ ← Reader.atLeastOnce (oneOf .flag)
        pure (Pattern.seq []))
      <|> (do let body ← inner; pure (captured none body))).result ("?" ++ (flags ++ rest)) =
        found) :
    (groupBody inner).result ("?" ++ (flags ++ rest)) = found := by
  have beside {v : CodeUnit} (text : Text) (listed : v ∈ (":P=!<#" : Text)) :
      (literal (unit '?' :: v :: text)).result ("?" ++ (flags ++ rest)) = none :=
    literal_beside_flags nonempty known (Bool.eq_false_iff.2 (List.any_eq_false.1 out v listed))
  refine orElse_of_fail (bind_of_fail (beside [] (by decide)))
    (orElse_of_fail (bind_of_fail (beside "<" (by decide)))
    (orElse_of_fail (bind_of_fail (beside "=" (by decide)))
    (orElse_of_fail (bind_of_fail (beside [] (by decide)))
    (orElse_of_fail (bind_of_fail (beside [] (by decide)))
    (orElse_of_fail (bind_of_fail (beside "=" (by decide)))
    (orElse_of_fail (bind_of_fail (beside "!" (by decide)))
    (orElse_of_fail (bind_of_fail (beside [] (by decide)))
    (orElse_of_fail (bind_of_fail (beside [] (by decide))) further))))))))

theorem flagOrMinus_of_flag {u : CodeUnit} (flag : UnitClass.flag.holds u = true) :
    UnitClass.flagOrMinus.holds u = true := by
  have listed : u ∈ ("aiLmsux" : Text) := List.contains_iff_mem.1 flag
  exact List.contains_iff_mem.2 (List.mem_append_left [unit '-'] listed)

/-- Behind the mark of a group the pattern in it is read. -/
theorem groupBody_of_mark {w : Text} {node : Pattern → Pattern} (mark : Mark w node)
    (unmarked : t.head? ≠ some (unit '?')) (read : inner.result t = some (a, rest)) :
    (groupBody inner).result (w ++ t) = some (node a, rest) := by
  have fails {front text : Text} (beside : ¬ text <+: front ∧ ¬ front <+: text) :
      (literal text).result (front ++ t) = none := literal_beside beside t
  cases mark with
  | plain =>
    have noName : (Reader.optional groupName).result t = some (none, t) := by
      refine optional_of_fail (orElse_of_fail (bind_of_fail ?_) (bind_of_fail ?_))
      · exact literal_differs unmarked rfl
      · exact literal_differs unmarked rfl
    rw [List.nil_append, groupBody_plain unmarked]
    exact bind_of_read noName (bind_of_read read rfl)
  | named spelling isName =>
    have uniform {x : Text} : inner.result t = none → inner.result x = none := by
      rw [read]
      exact nofun
    rw [List.append_assoc, List.append_assoc,
      groupBody_named spelling (name_append isName t) uniform]
    exact bind_of_read read rfl
  | uncaptured =>
    exact orElse_of_read (bind_of_read (literal_append "?:" t) (bind_of_read read rfl))
  | look listed =>
    have own : (literal w).result (w ++ t) = some ((), t) := literal_append w t
    simp only [lookMarks, List.mem_cons, List.not_mem_nil, or_false] at listed
    obtain rfl | rfl | rfl | rfl := listed <;>
      simp (disch := decide) only [groupBody, result_orElse, result_bind, result_pure, fails, own,
        read, Option.bind_none, Option.none_or, Option.bind_some, Option.some_or]
  | @flagged flags nonempty known =>
    have stops : (oneOf .flagOrMinus).result (":" ++ t) = none := oneOf_fail (by decide) t
    rw [List.append_assoc, List.append_assoc]
    refine groupBody_flags nonempty known (by decide) (orElse_of_read ?_)
    exact bind_of_read (literal_append "?" _) <| bind_of_read (flags_read nonempty known stops) <|
      bind_of_read (literal_append ":" t) <| bind_of_read read rfl

/-- The inside of a group without a pattern is read up to its parenthesis. -/
theorem groupBody_of_bare {x : Text} (bare : Bare x a) (rest : Text) :
    (groupBody inner).result (x ++ unit ')' :: rest) = some (a, unit ')' :: rest) := by
  have fails {front text : Text} (beside : ¬ text <+: front ∧ ¬ front <+: text) (rest : Text) :
      (literal text).result (front ++ rest) = none := literal_beside beside rest
  cases bare with
  | @reference n isName =>
    have stops : (oneOf .nameRest).result (unit ')' :: rest) = none := oneOf_fail (by decide) rest
    rw [List.append_assoc]
    refine orElse_of_fail (bind_of_fail (fails (by decide) _)) <|
      orElse_of_fail (bind_of_fail (fails (by decide) _)) <| orElse_of_read ?_
    exact bind_of_read (literal_append "?P=" _) (bind_of_read (name_reads isName stops) rfl)
  | @comment y known =>
    have stops : (oneOf .commented).result (unit ')' :: rest) = none := oneOf_fail (by decide) rest
    have own (t : Text) : (literal "?#").result ("?#" ++ t) = some ((), t) := literal_append "?#" t
    rw [List.append_assoc]
    simp (disch := decide) only [groupBody, result_orElse, result_bind, result_pure, fails, own,
      many_oneOf_append known stops, Option.bind_none, Option.none_or, Option.bind_some,
      Option.some_or]
  | @flags flags nonempty known =>
    have wider : ∀ u ∈ flags, UnitClass.flagOrMinus.holds u = true := fun u inside =>
      flagOrMinus_of_flag (known u inside)
    have stops (members : UnitClass) (out : members.holds (unit ')') = false) :
        (oneOf members).result (unit ')' :: rest) = none := oneOf_fail out rest
    rw [List.append_assoc]
    refine groupBody_flags nonempty known (by decide) (orElse_of_fail ?_ (orElse_of_read ?_))
    · exact bind_of_read (literal_append "?" _) <|
        bind_of_read (flags_read nonempty wider (stops _ (by decide))) rfl
    · exact bind_of_read (literal_append "?" _) <|
        bind_of_read (flags_read nonempty known (stops _ (by decide))) rfl

end Inside

/-- The rule for the category reads these patterns. -/
def Category.Reads (depth : Nat) : Category → Text → List Pattern → Text → Prop
  | atom, t, as, rest => ∃ a, as = [a] ∧ (Grammar.atom (pattern depth)).result t = some (a, rest)
  | item, t, as, rest => ∃ a, as = [a] ∧ (quantified (pattern depth)).result t = some (a, rest)
  | sequence, t, as, rest => Rounds (quantified (pattern depth)) t as rest
  | options, t, as, rest => ∃ head middle others, as = head :: others ∧
    (Grammar.sequence (pattern depth)).result t = some (head, middle) ∧
      Rounds (barred (pattern depth)) middle others rest

section Complete

variable {depth : Nat} {t rest : Text}

theorem reads_of_rounds {as : List Pattern} (rounds : Rounds (quantified (pattern depth)) t as rest) :
    (sequence (pattern depth)).result t = some (sequenceOf as, rest) :=
  bind_of_read ((many_eq_some (advances_quantified (shaped_pattern depth))).2 rounds) rfl

theorem pattern_of_reads {options : List Pattern}
    (reads : Category.Reads depth .options t options rest) :
    (pattern (depth + 1)).result t = some (alternativesOf options, rest) := by
  obtain ⟨head, middle, others, rfl, first, rounds⟩ := reads
  exact alternatives_eq_some.2 ⟨head, middle, others, first,
    (many_eq_some (advances_barred (shaped_pattern depth))).2 rounds, alternativesOf_cons _ _⟩

/-- What is derived is read, at every depth with room for the groups of the text. -/
theorem Derives.reads {category : Category} {as : List Pattern} (derives : Derives category t as rest)
    (room : t.count (unit '(') ≤ depth) : category.Reads depth t as rest := by
  induction derives generalizing depth with
  | @leaf t rest a read =>
    have other : t.head? ≠ some (unit '(') := by
      intro opens
      obtain ⟨t, rfl⟩ := List.head?_eq_some_iff.1 opens
      cases read
    exact ⟨a, rfl, by rwa [atom_leaf _ other]⟩
  | @bare x rest a bare =>
    refine ⟨a, rfl, ?_⟩
    rw [atom_group _ rfl]
    exact bind_of_read (literal_append "(" _) <| bind_of_read (groupBody_of_bare bare rest) <|
      bind_of_read (literal_append ")" rest) rfl
  | @group w t rest node options mark inside ih =>
    rw [List.count_cons_self, List.count_append] at room
    obtain ⟨depth, rfl⟩ : ∃ d, depth = d + 1 := ⟨depth - 1, by omega⟩
    have enough : t.count (unit '(') ≤ depth := by omega
    have read := pattern_of_reads (ih enough)
    refine ⟨_, rfl, ?_⟩
    rw [atom_group _ rfl]
    exact bind_of_read (literal_append "(" _) <|
      bind_of_read (groupBody_of_mark mark inside.unmarked read) <|
      bind_of_read (literal_append ")" rest) rfl
  | item first times ih =>
    obtain ⟨a, same, read⟩ := ih room
    cases same
    exact ⟨_, rfl, bind_of_read read (bind_of_read times rfl)⟩
  | nil ends =>
    refine .stop ?_
    obtain rfl | ⟨u, inside, t, rfl⟩ := ends.eq_nil_or
    · exact quantified_nil _
    · have inside : u ∈ [unit '|', unit ')'] := inside
      exact quantified_stops _ (by simpa using inside) t
  | cons first later ih ih' =>
    obtain ⟨a, same, read⟩ := ih room
    cases same
    exact .more read (ih' (Nat.le_trans (first.suffix.sublist.count_le _) room))
  | last only ends ih =>
    have stops : (barred (pattern depth)).result _ = none :=
      bind_of_fail (ends.literal_eq_none (by decide))
    exact ⟨_, _, [], rfl, reads_of_rounds (ih room), .stop stops⟩
  | @more t middle rest as options first later ih ih' =>
    have part := first.suffix.sublist.count_le (unit '(')
    have fewer := (List.sublist_cons_self (unit '|') middle).count_le (unit '(')
    obtain ⟨head, behind, others, rfl, option, rounds⟩ := ih' (show _ ≤ depth by omega)
    exact ⟨_, _, head :: others, rfl, reads_of_rounds (ih room),
      .more (barred_eq_some.2 ⟨_, rfl, option⟩) rounds⟩

end Complete

end Highlight.Grammar

namespace Highlight.Pattern

open Grammar

/-- A text has a tree just if it derives a list of options to its end, and the tree is that of the
options. -/
theorem readTree_iff_derives {t : Text} {root : Pattern} : readTree t = .ok root ↔
    ∃ options, root = alternativesOf options ∧ Derives .options t options [] := by
  rw [readTree_eq_ok]
  constructor
  · exact derives_of_pattern _ headIn_nil
  · rintro ⟨options, rfl, derives⟩
    exact pattern_of_reads (derives.reads (Nat.le_refl _))

end Highlight.Pattern
