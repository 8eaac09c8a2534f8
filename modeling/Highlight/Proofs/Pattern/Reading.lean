import Highlight.Pattern.Reader

/-!
# What a reader takes off a text

`Reader.Takes p post` says of a reader what it does when it succeeds: the text it took stands at the
front, the rest is left as it is, and `post` holds of what it took, the value it read in it and the
rest. There is one rule for each way in which readers are put together, so that the contract of a
rule of the grammar is put together like the rule. Repeated reading comes with the relation
`Reader.Rounds`, which no count of rounds bounds.
-/

namespace Highlight.Reader

variable {α β : Type} {p q : Reader α} {f : α → Reader β} {t rest : Text} {a : α} {b : β}

theorem result_pure (a : α) (t : Text) : (pure a : Reader α).result t = some (a, t) := rfl

theorem result_bind : (p >>= f).result t = (p.result t).bind fun read => (f read.1).result read.2 := by
  show (andThen p f).result t = _
  simp only [andThen]
  cases p.result t <;> rfl

theorem result_orElse : (p <|> q).result t = (p.result t).or (q.result t) := by
  show (orElse p fun _ => q).result t = _
  simp only [orElse]
  cases p.result t <;> rfl

theorem bind_eq_some : (p >>= f).result t = some (b, rest) ↔
    ∃ a rest', p.result t = some (a, rest') ∧ (f a).result rest' = some (b, rest) := by
  rw [result_bind, Option.bind_eq_some_iff, Prod.exists]

theorem bind_eq_none : (p >>= f).result t = none ↔
    ∀ a rest', p.result t = some (a, rest') → (f a).result rest' = none := by
  rw [result_bind, Option.bind_eq_none_iff, Prod.forall]

theorem orElse_eq_some : (p <|> q).result t = some (a, rest) ↔
    p.result t = some (a, rest) ∨ p.result t = none ∧ q.result t = some (a, rest) := by
  rw [result_orElse, Option.or_eq_some_iff]

theorem bind_of_read {found : Option (β × Text)} (read : p.result t = some (a, rest))
    (further : (f a).result rest = found) : (p >>= f).result t = found := by
  rw [result_bind, read]
  exact further

theorem bind_of_fail (failed : p.result t = none) : (p >>= f).result t = none := by
  rw [result_bind, failed]
  rfl

theorem orElse_of_read (read : p.result t = some (a, rest)) :
    (p <|> q).result t = some (a, rest) :=
  orElse_eq_some.2 (.inl read)

theorem orElse_of_fail {found : Option (α × Text)} (failed : p.result t = none)
    (further : q.result t = found) : (p <|> q).result t = found := by
  rw [result_orElse, failed]
  exact further

theorem optional_of_read (read : p.result t = some (a, rest)) :
    (optional p).result t = some (some a, rest) :=
  orElse_of_read (bind_of_read read rfl)

theorem optional_of_fail (failed : p.result t = none) :
    (optional p).result t = some (none, t) :=
  orElse_of_fail (bind_of_fail failed) rfl

theorem literal_append (text rest : Text) : (literal text).result (text ++ rest) = some ((), rest) := by
  have begins : text.isPrefixOf (text ++ rest) = true :=
    List.isPrefixOf_iff_prefix.2 (List.prefix_append text rest)
  show (if text.isPrefixOf (text ++ rest) then _ else none) = _
  rw [if_pos begins, List.drop_left]

theorem literal_eq_some {text : Text} {a : Unit} :
    (literal text).result t = some (a, rest) ↔ t = text ++ rest := by
  constructor
  · intro read
    have read : (if text.isPrefixOf t then some ((), t.drop text.length) else none) =
        some (a, rest) := read
    split at read
    · rename_i begins
      cases read
      obtain ⟨after, rfl⟩ := List.isPrefixOf_iff_prefix.1 begins
      rw [List.drop_left]
    · cases read
  · rintro rfl
    exact literal_append text rest

theorem literal_eq_none {text : Text} : (literal text).result t = none ↔ ¬ text <+: t := by
  constructor
  · rintro failed ⟨rest, rfl⟩
    exact absurd (failed.symm.trans (literal_append text rest)) nofun
  · intro differs
    cases read : (literal text).result t with
    | none => rfl
    | some found => exact absurd ⟨found.2, (literal_eq_some.1 read).symm⟩ differs

theorem oneOf_cons {members : UnitClass} {u : CodeUnit} (member : members.holds u = true)
    (rest : Text) : (oneOf members).result (u :: rest) = some (u, rest) := if_pos member

theorem oneOf_fail {members : UnitClass} {u : CodeUnit} (out : members.holds u = false)
    (rest : Text) : (oneOf members).result (u :: rest) = none := by
  have other : ¬members.holds u = true := Bool.eq_false_iff.1 out
  exact if_neg other

theorem oneOf_eq_some {members : UnitClass} {u : CodeUnit} :
    (oneOf members).result t = some (u, rest) ↔ t = u :: rest ∧ members.holds u = true := by
  constructor
  · intro read
    cases t with
    | nil => cases read
    | cons v t =>
      have read : (if members.holds v then some (v, t) else none) = some (u, rest) := read
      split at read
      · cases read
        exact ⟨rfl, ‹_›⟩
      · cases read
  · rintro ⟨rfl, member⟩
    exact oneOf_cons member rest

theorem anyUnit_eq_some {u : CodeUnit} : anyUnit.result t = some (u, rest) ↔ t = u :: rest := by
  constructor
  · intro read
    cases t with
    | nil => cases read
    | cons v t =>
      cases read
      rfl
  · rintro rfl
    rfl

/-- A whole text is read where nothing is left. -/
theorem readAll_eq_ok : p.readAll t = .ok a ↔ p.result t = some (a, []) := by
  unfold readAll
  dsimp only
  cases p.result t with
  | none => simp
  | some found =>
    obtain ⟨b, rest⟩ := found
    cases rest <;> simp

/-- Rounds of a reader up to the first that fails. -/
inductive Rounds (p : Reader α) : Text → List α → Text → Prop
  | stop {t : Text} (failed : p.result t = none) : Rounds p t [] t
  | more {t middle rest : Text} {a : α} {as : List α} (read : p.result t = some (a, middle))
    (later : Rounds p middle as rest) : Rounds p t (a :: as) rest

/-- The reader takes at least one unit whenever it succeeds. -/
def Advances (p : Reader α) : Prop :=
  ∀ ⦃t a rest⦄, p.result t = some (a, rest) → rest.length < t.length

/-- Every text has units enough for the rounds of a reader that advances. -/
theorem rounds_manyResult (advances : Advances p) (fuel : Text) {t : Text}
    (enough : t.length ≤ fuel.length) :
    Rounds p t (manyResult p.result fuel t).1 (manyResult p.result fuel t).2 := by
  induction fuel generalizing t with
  | nil =>
    rw [List.length_eq_zero_iff.1 (Nat.le_zero.1 enough)]
    refine .stop ?_
    cases read : p.result [] with
    | none => rfl
    | some found => exact absurd (advances read) (Nat.not_lt_zero _)
  | cons _ fuel ih =>
    rw [manyResult]
    split
    · rename_i a rest read
      have shorter := advances read
      have fewer : t.length ≤ fuel.length + 1 := enough
      exact .more read (ih (by omega))
    · exact .stop ‹_›

theorem Rounds.unique {as as' : List α} {rest rest' : Text} (rounds : Rounds p t as rest)
    (rounds' : Rounds p t as' rest') : as = as' ∧ rest = rest' := by
  induction rounds generalizing as' rest' with
  | stop failed =>
    cases rounds' with
    | stop => exact ⟨rfl, rfl⟩
    | more read => exact absurd (failed.symm.trans read) nofun
  | more read _ ih =>
    cases rounds' with
    | stop failed => exact absurd (failed.symm.trans read) nofun
    | more read' later =>
      cases read.symm.trans read'
      obtain ⟨rfl, rfl⟩ := ih later
      exact ⟨rfl, rfl⟩

theorem many_eq_some (advances : Advances p) {as : List α} :
    (many p).result t = some (as, rest) ↔ Rounds p t as rest := by
  have rounds := rounds_manyResult advances t (Nat.le_refl t.length)
  constructor
  · intro read
    have same : manyResult p.result t t = (as, rest) := Option.some.inj read
    rwa [same] at rounds
  · intro rounds'
    obtain ⟨rfl, rfl⟩ := rounds.unique rounds'
    rfl

/-- What is taken stands at the front of the text, and the postcondition holds of it, of the value
and of the rest. -/
def Takes (p : Reader α) (post : Text → α → Text → Prop) : Prop :=
  ∀ ⦃t a rest⦄, p.result t = some (a, rest) → ∃ x, t = x ++ rest ∧ post x a rest

variable {post post' : Text → α → Text → Prop}

theorem Takes.imp (takes : Takes p post)
    (weaker : ∀ {x a rest}, post x a rest → post' x a rest) : Takes p post' := by
  intro t a rest read
  obtain ⟨x, parts, holds⟩ := takes read
  exact ⟨x, parts, weaker holds⟩

theorem Takes.length_le (takes : Takes p post) (read : p.result t = some (a, rest)) :
    rest.length ≤ t.length := by
  obtain ⟨x, rfl, _⟩ := takes read
  rw [List.length_append]
  exact Nat.le_add_left _ _

theorem takes_pure (holds : ∀ rest, post [] a rest) : Takes (pure a : Reader α) post := by
  intro t _ rest read
  cases read
  exact ⟨[], rfl, holds _⟩

theorem takes_bind {then_ : α → Text → β → Text → Prop} {both : Text → β → Text → Prop}
    (first : Takes p post) (second : ∀ a, Takes (f a) (then_ a))
    (join : ∀ {x y : Text} {a b rest}, post x a (y ++ rest) → then_ a y b rest →
      both (x ++ y) b rest) : Takes (p >>= f) both := by
  intro t b rest read
  obtain ⟨a, middle, read, further⟩ := bind_eq_some.1 read
  obtain ⟨x, rfl, before⟩ := first read
  obtain ⟨y, rfl, after⟩ := second a further
  exact ⟨x ++ y, (List.append_assoc _ _ _).symm, join before after⟩

theorem takes_value {g : α → β} {both : Text → β → Text → Prop} (takes : Takes p post)
    (holds : ∀ {x a rest}, post x a rest → both x (g a) rest) :
    Takes (do let a ← p; pure (g a)) both := by
  intro t b rest read
  obtain ⟨a, _, read, rfl, rfl⟩ := bind_eq_some.1 read
  obtain ⟨x, parts, before⟩ := takes read
  exact ⟨x, parts, holds before⟩

theorem takes_orElse (first : Takes p post) (second : Takes q post) : Takes (p <|> q) post := by
  intro t a rest read
  obtain read | ⟨_, read⟩ := orElse_eq_some.1 read
  · exact first read
  · exact second read

theorem takes_literal (text : Text) : Takes (literal text) fun x _ _ => x = text := by
  intro t a rest read
  exact ⟨text, literal_eq_some.1 read, rfl⟩

theorem takes_oneOf (members : UnitClass) :
    Takes (oneOf members) fun x u _ => x = [u] ∧ members.holds u = true := by
  intro t u rest read
  obtain ⟨rfl, member⟩ := oneOf_eq_some.1 read
  exact ⟨[u], rfl, rfl, member⟩

theorem takes_anyUnit : Takes anyUnit fun x u _ => x = [u] := by
  intro t u rest read
  exact ⟨[u], anyUnit_eq_some.1 read, rfl⟩

/-- Where nothing is read, the reader failed on the rest. -/
theorem takes_optional {both : Text → Option α → Text → Prop} (takes : Takes p post)
    (some_ : ∀ {x a rest}, post x a rest → both x (some a) rest)
    (none_ : ∀ {rest}, p.result rest = none → both [] none rest) : Takes (optional p) both := by
  intro t found rest read
  obtain read | ⟨failed, read⟩ := orElse_eq_some.1 read
  · obtain ⟨a, _, read, rfl, rfl⟩ := bind_eq_some.1 read
    obtain ⟨x, parts, holds⟩ := takes read
    exact ⟨x, parts, some_ holds⟩
  · cases read
    refine ⟨[], rfl, none_ ?_⟩
    cases read : p.result t with
    | none => rfl
    | some found => exact absurd (bind_eq_none.1 failed _ _ read) nofun

/-- What is taken has the shape, whatever is read in it. -/
abbrev Shaped (p : Reader α) (shape : Text → Prop) : Prop := Takes p fun x _ _ => shape x

section Shaped

variable {left right both : Text → Prop}

theorem shaped_bind (first : Shaped p left) (second : ∀ a, Shaped (f a) right)
    (join : ∀ {x y}, left x → right y → both (x ++ y)) : Shaped (p >>= f) both :=
  takes_bind first second join

theorem shaped_value {g : α → β} (shaped : Shaped p both) : Shaped (do let a ← p; pure (g a)) both :=
  takes_value shaped id

theorem shaped_literal {text : Text} (holds : both text) : Shaped (literal text) both :=
  (takes_literal text).imp fun same => by rwa [same]

theorem shaped_oneOf {members : UnitClass} (holds : ∀ u, members.holds u = true → both [u]) :
    Shaped (oneOf members) both :=
  (takes_oneOf members).imp fun ⟨same, member⟩ => by
    rw [same]
    exact holds _ member

end Shaped

/-- What is read has the property, whatever is taken. -/
def Yields (p : Reader α) (property : α → Prop) : Prop :=
  ∀ ⦃t a rest⦄, p.result t = some (a, rest) → property a

section Yields

variable {property : α → Prop} {property' : β → Prop}

theorem yields_pure (holds : property a) : Yields (pure a) property := by
  intro t _ rest read
  cases read
  exact holds

theorem yields_bind (second : ∀ a, Yields (f a) property') : Yields (p >>= f) property' := by
  intro t b rest read
  obtain ⟨a, middle, _, further⟩ := bind_eq_some.1 read
  exact second a further

/-- What the first reader reads is known to the second one. -/
theorem yields_next (first : Yields p property)
    (second : ∀ a, property a → Yields (f a) property') : Yields (p >>= f) property' := by
  intro t b rest read
  obtain ⟨a, middle, read, further⟩ := bind_eq_some.1 read
  exact second a (first read) further

theorem yields_value {g : α → β} (yields : Yields p property)
    (holds : ∀ a, property a → property' (g a)) : Yields (do let a ← p; pure (g a)) property' :=
  yields_next yields fun a has => yields_pure (holds a has)

theorem yields_oneOf (members : UnitClass) :
    Yields (oneOf members) fun u => members.holds u = true := by
  intro t u rest read
  exact (oneOf_eq_some.1 read).2

theorem yields_many (advances : Advances p) (yields : Yields p property) :
    Yields (many p) fun as => ∀ a ∈ as, property a := by
  intro t as rest read
  induction (many_eq_some advances).1 read with
  | stop => exact nofun
  | more taken later ih =>
    exact List.forall_mem_cons.2 ⟨yields taken, ih ((many_eq_some advances).2 later)⟩

theorem yields_orElse (first : Yields p property) (second : Yields q property) :
    Yields (p <|> q) property := by
  intro t a rest read
  obtain read | ⟨_, read⟩ := orElse_eq_some.1 read
  · exact first read
  · exact second read

theorem yields_optional (yields : Yields p property) :
    Yields (optional p) fun found => ∀ a ∈ found, property a := by
  refine yields_orElse (yields_value yields fun a has b same => ?_) (yields_pure nofun)
  rwa [← Option.some.inj same]

theorem Takes.and_yields (takes : Takes p post) (yields : Yields p property) :
    Takes p fun x a rest => post x a rest ∧ property a := by
  intro t a rest read
  obtain ⟨x, parts, holds⟩ := takes read
  exact ⟨x, parts, holds, yields read⟩

end Yields

theorem Takes.advances (takes : Takes p post)
    (nonempty : ∀ {x a rest}, post x a rest → x ≠ []) : Advances p := by
  intro t a rest read
  obtain ⟨x, rfl, holds⟩ := takes read
  have := List.length_pos_iff.2 (nonempty holds)
  rw [List.length_append]
  omega

theorem takes_many {all : Text → List α → Text → Prop} (advances : Advances p)
    (takes : Takes p post) (nil : ∀ {rest}, all [] [] rest)
    (cons : ∀ {x y a as rest}, post x a (y ++ rest) → all y as rest → all (x ++ y) (a :: as) rest) :
    Takes (many p) all := by
  intro t as rest read
  induction (many_eq_some advances).1 read with
  | stop => exact ⟨[], rfl, nil⟩
  | more read later ih =>
    obtain ⟨y, rfl, further⟩ := ih ((many_eq_some advances).2 later)
    obtain ⟨x, rfl, holds⟩ := takes read
    exact ⟨x ++ y, (List.append_assoc _ _ _).symm, cons holds further⟩

end Highlight.Reader
