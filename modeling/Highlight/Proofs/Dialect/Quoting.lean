import Highlight.Proofs.Pattern.Sets
import Highlight.Proofs.Text.Replacing

/-!
# Patterns between single quotes

In a quote-safe text each single quote is spelled by its number. Such a text is a pattern wherever
the text itself is one, and it holds no quote. It is the same pattern if no backslash stands in front
of a quote to escape it (`quoteSafe_reads`). An escaped quote becomes an escaped backslash with three
units behind it.
-/

namespace Highlight

open Reader Grammar

namespace Dialect

/-- The single quote. -/
def quote : CodeUnit := 39

/-- What a quote-safe text has for a unit. -/
def safeUnit (u : CodeUnit) : Text := if u = quote then "\\x27" else [u]

section Texts

variable {u : CodeUnit} {t : Text}

theorem quoteSafe_eq_flatMap (t : Text) : quoteSafe t = t.flatMap safeUnit :=
  Text.replace_unit quote "\\x27" t

theorem quoteSafe_append (x y : Text) : quoteSafe (x ++ y) = quoteSafe x ++ quoteSafe y := by
  simp only [quoteSafe_eq_flatMap, List.flatMap_append]

theorem quoteSafe_quote (t : Text) : quoteSafe (quote :: t) = "\\x27" ++ quoteSafe t := by
  simp only [quoteSafe_eq_flatMap, List.flatMap_cons, safeUnit, if_true]

theorem quoteSafe_cons (other : u ≠ quote) (t : Text) : quoteSafe (u :: t) = u :: quoteSafe t := by
  simp only [quoteSafe_eq_flatMap, List.flatMap_cons, safeUnit, other, if_false, List.singleton_append]

theorem quoteSafe_of_free (free : quote ∉ t) : quoteSafe t = t := by
  induction t with
  | nil => rfl
  | cons u t ih =>
    obtain ⟨here, later⟩ := not_or.1 (mt List.mem_cons.2 free)
    rw [quoteSafe_cons (Ne.symm here), ih later]

theorem quote_not_mem_quoteSafe (t : Text) : quote ∉ quoteSafe t := by
  rw [quoteSafe_eq_flatMap]
  intro inside
  obtain ⟨u, -, spelled⟩ := List.mem_flatMap.1 inside
  unfold safeUnit at spelled
  split at spelled
  · exact absurd spelled (by decide)
  · next other => exact other (List.mem_singleton.1 spelled).symm

end Texts

/-- Where the text begins on this ground, no backslash in it escapes a quote. -/
def QuotesBare (ground : Ground) (t : Text) : Prop :=
  ∀ before after, t = before ++ quote :: after →
    ground.run before ≠ .escaped ∧ ground.run before ≠ .insideEscaped

instance (ground : Ground) (t : Text) : Decidable (QuotesBare ground t) :=
  decidable_of_iff (∀ k < t.length, t[k]? = some quote →
    ground.run (t.take k) ≠ .escaped ∧ ground.run (t.take k) ≠ .insideEscaped) <| by
  constructor
  · rintro bare before after rfl
    have here := bare before.length (by simp) (by simp)
    rwa [List.take_left] at here
  · intro bare k short here
    obtain ⟨_, same⟩ := List.getElem?_eq_some_iff.1 here
    refine bare (t.take k) (t.drop (k + 1)) ?_
    rw [← same, List.getElem_cons_drop, List.take_append_drop]

theorem QuotesBare.behind {ground : Ground} {x t : Text} (bare : QuotesBare ground (x ++ t)) :
    QuotesBare (ground.run x) t := by
  rintro before after rfl
  have whole := bare (x ++ before) after (List.append_assoc _ _ _).symm
  rwa [Ground.run_append] at whole

/-- The second text is the first one with its quotes spelled. -/
def Quoted (t t' : Text) : Prop := t' = quoteSafe t

theorem inStep_quoted : InStep Quoted where
  step := by
    rintro t _ rfl
    cases t with
    | nil => exact .inr ⟨headIn_nil, headIn_nil⟩
    | cons u s =>
      by_cases same : u = quote
      · subst same
        rw [quoteSafe_quote]
        exact .inr ⟨headIn_cons (by decide), headIn_cons (by decide)⟩
      · exact .inl ⟨u, s, quoteSafe s, rfl, quoteSafe_cons same s, rfl⟩

/-! ## Sets -/

section Sets

variable {t rest : Text}

theorem BracketText.quoteSafe {x : Text} (inside : BracketText x) :
    BracketText (Dialect.quoteSafe x) := by
  have digits {x : Text} (inside : BracketText x) : BracketText ("27" ++ x) :=
    .plain (by decide) (by decide) (.plain (by decide) (by decide) inside)
  induction inside with
  | nil => exact .nil
  | @plain u x escape closes _ ih =>
    by_cases same : u = quote
    · subst same
      rw [quoteSafe_quote]
      exact .escape _ (digits ih)
    · rw [quoteSafe_cons same]
      exact .plain escape closes ih
  | @escape v x _ ih =>
    rw [quoteSafe_cons (by decide)]
    by_cases same : v = quote
    · subst same
      rw [quoteSafe_quote]
      exact .escape _ (.plain (by decide) (by decide) (digits ih))
    · rw [quoteSafe_cons same]
      exact .escape v ih

theorem quoteSafe_setText (negated leads : Bool) (b rest : Text) :
    quoteSafe (setText negated leads b rest) =
      setText negated leads (quoteSafe b) (quoteSafe rest) := by
  have mark : quoteSafe (setMark negated) = setMark negated := by cases negated <;> rfl
  have lead : quoteSafe (setLead leads) = setLead leads := by cases leads <;> rfl
  have opens : quoteSafe "[" = "[" := rfl
  have closes : quoteSafe (unit ']' :: rest) = unit ']' :: quoteSafe rest :=
    quoteSafe_cons (by decide) rest
  simp only [setText, quoteSafe_append, mark, lead, opens, closes]

theorem SetBody.quoteSafe {negated leads : Bool} {b : Text} (body : SetBody negated leads b) :
    SetBody negated leads (Dialect.quoteSafe b) := by
  refine ⟨BracketText.quoteSafe body.inside, fun plain unled marked => ?_, fun unled none => ?_⟩
  · obtain ⟨u, b, rfl⟩ := List.exists_cons_of_ne_nil (body.filled unled)
    by_cases same : u = quote
    · subst same
      rw [quoteSafe_quote] at marked
      exact absurd (Option.some.inj marked) (by decide)
    · rw [quoteSafe_cons same] at marked
      exact body.unmarked plain unled marked
  · obtain ⟨u, b, rfl⟩ := List.exists_cons_of_ne_nil (body.filled unled)
    by_cases same : u = quote
    · subst same
      rw [quoteSafe_quote] at none
      cases none
    · rw [quoteSafe_cons same] at none
      cases none

/-- The same value, and a rest with its quotes spelled in which none is escaped. -/
def Kept {α : Type} (a : α) (y : Text) (a' : α) (y' : Text) : Prop :=
  a' = a ∧ Quoted y y' ∧ QuotesBare .inside y

theorem escape_result (t : Text) : escape.result (unit '\\' :: t) = escapedUnit.result t :=
  bind_of_read (literal_append "\\" t) rfl

theorem together_value {α β : Type} {p : Reader α} {f : α → β} {t t' : Text}
    (kept : Together Kept (p.result t) (p.result t')) :
    Together Kept ((do let a ← p; pure (f a)).result t) ((do let a ← p; pure (f a)).result t') := by
  refine together_bind kept ?_
  rintro a y _ y' ⟨rfl, rests⟩
  exact together_pure ⟨rfl, rests⟩

section Bare

variable (bare : QuotesBare .inside t)

include bare

theorem QuotesBare.kept {α : Type} {p : Reader α} (shaped : Shaped p BracketText)
    (same : Together (fun a y a' y' => a' = a ∧ Quoted y y') (p.result t)
      (p.result (quoteSafe t))) : Together Kept (p.result t) (p.result (quoteSafe t)) := by
  obtain failed | ⟨a, y, a', y', read, read', value, rests⟩ := same
  · exact .inl failed
  · obtain ⟨x, rfl, taken⟩ := shaped read
    have behind := bare.behind
    rw [taken.run] at behind
    exact .inr ⟨a, y, a', y', read, read', value, rests, behind⟩

theorem QuotesBare.bracketUnit : Together Kept (bracketUnit.result t)
    (Grammar.bracketUnit.result (quoteSafe t)) := by
  refine bare.kept (shaped_bracketUnit.imp And.left) ?_
  match t with
  | [] => exact .inl ⟨rfl, rfl⟩
  | u :: s =>
    by_cases same : u = quote
    · subst same
      rw [quoteSafe_quote]
      exact .inr ⟨quote, s, quote, quoteSafe s, rfl, rfl, rfl, rfl⟩
    · rw [quoteSafe_cons same]
      by_cases escaped : u = unit '\\'
      · subst escaped
        refine together_orElse ?_ (.inl ⟨oneOf_fail (by decide) s, oneOf_fail (by decide) _⟩)
        rw [escape_result, escape_result, escapedUnit_result, escapedUnit_result]
        refine together_orElse (keeps_codedUnit inStep_quoted rfl) ?_
        match s with
        | [] => exact .inl ⟨rfl, rfl⟩
        | v :: s =>
          have other : v ≠ quote := fun same => (bare [unit '\\'] s (by rw [same]; rfl)).2 rfl
          rw [quoteSafe_cons other]
          exact .inr ⟨v, s, v, quoteSafe s, rfl, rfl, rfl, rfl⟩
      · have fails (s : Text) : escape.result (u :: s) = none :=
          bind_of_fail (literal_other escaped [] s)
        refine together_orElse (.inl ⟨fails s, fails _⟩) ?_
        by_cases member : UnitClass.bracketed.holds u = true
        · exact .inr ⟨u, s, u, quoteSafe s, oneOf_cons member s, oneOf_cons member _, rfl, rfl⟩
        · have out := Bool.eq_false_iff.2 member
          exact .inl ⟨oneOf_fail out s, oneOf_fail out _⟩

theorem QuotesBare.namedClass : Together Kept (namedClass.result t)
    (Grammar.namedClass.result (quoteSafe t)) := by
  have shape : Shaped Grammar.namedClass BracketText := shaped_namedClass.imp fun single => by
    obtain ⟨v, rfl⟩ := single
    exact .escape v .nil
  refine bare.kept shape ?_
  match t with
  | [] => exact .inl ⟨rfl, rfl⟩
  | u :: s =>
    have fails {v : CodeUnit} (other : v ≠ unit '\\') (s : Text) :
        Grammar.namedClass.result (v :: s) = none := bind_of_fail (literal_other other [] s)
    by_cases same : u = quote
    · subst same
      rw [quoteSafe_quote]
      exact .inl ⟨fails (by decide) s, rfl⟩
    · rw [quoteSafe_cons same]
      by_cases escaped : u = unit '\\'
      · subst escaped
        have letter : KeepsStep (do let letter ← oneOf .classLetter; pure (classOf letter)) :=
          keeps_value (keeps_oneOf (by decide))
        exact letter inStep_quoted rfl
      · exact .inl ⟨fails escaped s, fails escaped _⟩

theorem QuotesBare.rangeFrom (lo : CodeUnit) : Together Kept ((rangeFrom lo).result t)
    ((Grammar.rangeFrom lo).result (quoteSafe t)) := by
  have hyphen : Shaped (literal "-") BracketText :=
    shaped_literal (.plain (by decide) (by decide) .nil)
  have dash : KeepsStep (literal "-") := keeps_literal (by decide)
  refine together_orElse (together_bind (bare.kept hyphen (dash inStep_quoted rfl)) ?_)
    (together_pure ⟨rfl, rfl, bare⟩)
  rintro _ y _ _ ⟨rfl, rfl, behind⟩
  exact together_value behind.bracketUnit

theorem QuotesBare.bracketItem : Together Kept (bracketItem.result t)
    (Grammar.bracketItem.result (quoteSafe t)) := by
  simp only [bracketItem_result]
  refine together_orElse (together_value bare.namedClass) (together_bind bare.bracketUnit ?_)
  rintro _ y lo _ ⟨rfl, rfl, behind⟩
  exact behind.rangeFrom lo

end Bare

/-- The items are the same as in the set itself, if no quote in it is escaped. -/
theorem rounds_quoteSafe {items : List ClassItem} (rounds : Rounds bracketItem t items rest)
    (bare : QuotesBare .inside t) : Rounds bracketItem (quoteSafe t) items (quoteSafe rest) := by
  induction rounds with
  | @stop t failed =>
    obtain ⟨_, failed'⟩ | ⟨_, _, _, _, read, _⟩ := bare.bracketItem
    · exact .stop failed'
    · cases failed.symm.trans read
  | @more t middle rest item items read later ih =>
    obtain ⟨failed, _⟩ | ⟨_, _, _, _, read₁, read', rfl, rfl, behind⟩ := bare.bracketItem
    · cases read.symm.trans failed
    · cases read.symm.trans read₁
      exact .more read' (ih behind)

/-- Behind the front of a set no quote is escaped that is not in the set as a whole. -/
theorem QuotesBare.inside {negated leads : Bool} {b : Text} (body : SetBody negated leads b)
    (bare : QuotesBare .code (setText negated leads b rest)) :
    QuotesBare .inside (b ++ unit ']' :: rest) := by
  have behind : QuotesBare (((Ground.run .code "[").run (setMark negated)).run (setLead leads))
    (b ++ unit ']' :: rest) := bare.behind.behind.behind
  cases leads with
  | true => cases negated <;> exact behind
  | false =>
    obtain ⟨u, b, rfl⟩ := List.exists_cons_of_ne_nil (body.filled rfl)
    have unclosed : u ≠ unit ']' := by
      cases body.inside with
      | plain _ closes _ => exact closes
      | escape _ _ => decide
    intro before after parts
    cases before with
    | nil => exact ⟨nofun, nofun⟩
    | cons v before =>
      obtain ⟨rfl, -⟩ := List.cons.inj parts
      have whole := behind (u :: before) after parts
      have next : (((Ground.run .code "[").run (setMark negated)).run (setLead false)).next u =
          Ground.afterMember u := by
        cases negated with
        | true => rfl
        | false => exact if_neg fun same => body.unmarked rfl rfl (congrArg some same)
      have inside : Ground.inside.next u = Ground.afterMember u := if_neg unclosed
      rw [Ground.run_cons, next] at whole
      rwa [Ground.run_cons, inside]

/-- A set is one between quotes as well, and the same one if no quote in it is escaped. -/
theorem bracketed_quoteSafe {a : Pattern} (read : bracketed.result t = some (a, rest)) :
    ∃ a', bracketed.result (quoteSafe t) = some (a', quoteSafe rest) ∧
      (QuotesBare .code t → a' = a) := by
  obtain ⟨negated, leads, b, items, body, rfl, reads, rfl⟩ := bracketed_eq_some.1 read
  have closes : quoteSafe (unit ']' :: rest) = unit ']' :: quoteSafe rest :=
    quoteSafe_cons (by decide) rest
  obtain ⟨items', reads'⟩ := bracketItems_closed (BracketText.quoteSafe body.inside) (quoteSafe rest)
  refine ⟨_, bracketed_eq_some.2 ⟨negated, leads, _, items', SetBody.quoteSafe body,
    quoteSafe_setText .., reads', rfl⟩, fun bare => ?_⟩
  have rounds := (many_eq_some advances_bracketItem).1 reads
  have same := rounds_quoteSafe rounds (QuotesBare.inside body bare)
  rw [quoteSafe_append, closes] at same
  obtain ⟨rfl, -⟩ := ((many_eq_some advances_bracketItem).1 reads').unique same
  rfl

end Sets

/-! ## Other parts of a pattern -/

section Parts

variable {t rest : Text}

theorem headIn_quoteSafe {us : Text} (out : quote ∉ us) (front : HeadIn us t) :
    HeadIn us (quoteSafe t) := by
  obtain rfl | ⟨u, inside, rest, rfl⟩ := front.eq_nil_or
  · exact headIn_nil
  · have other : u ≠ quote := fun same => out (same ▸ inside)
    rw [quoteSafe_cons other]
    exact headIn_cons inside

/-- An atom without a pattern is one between quotes as well, unless it is an escaped quote. -/
theorem leaf_quoteSafe {a : Pattern} (read : (bracketed <|> short).result t = some (a, rest)) :
    (∃ a', (bracketed <|> short).result (quoteSafe t) = some (a', quoteSafe rest) ∧
      (QuotesBare .code t → a' = a)) ∨ t = unit '\\' :: quote :: rest := by
  obtain set | ⟨-, single⟩ := orElse_eq_some.1 read
  · obtain ⟨a', set', same⟩ := bracketed_quoteSafe set
    exact .inl ⟨a', orElse_of_read set', same⟩
  · match t with
    | [] => cases single
    | u :: s =>
      by_cases escaped : u = unit '\\'
      · subst escaped
        have spelled (a : Pattern) (r : Text)
            (read' : (codedAtom <|> selfAtom).result (quoteSafe s) = some (a, r)) :
            (bracketed <|> short).result (quoteSafe (unit '\\' :: s)) = some (a, r) := by
          rw [quoteSafe_cons (by decide)]
          refine orElse_of_fail (bracketed_fails (by decide) _) ?_
          rwa [short_escape]
        rw [short_escape] at single
        obtain coded | ⟨failed, self⟩ := orElse_eq_some.1 single
        · obtain ⟨_, coded', rfl⟩ := keeps_codedAtom.carry inStep_quoted rfl coded
          exact .inl ⟨a, spelled a _ (orElse_of_read coded'), fun _ => rfl⟩
        · obtain ⟨v, _, any, rfl, rfl⟩ := bind_eq_some.1 self
          obtain rfl := anyUnit_eq_some.1 any
          by_cases same : v = quote
          · exact .inr (by rw [same])
          · have failed' := keeps_codedAtom.fails inStep_quoted rfl failed
            refine .inl ⟨_, spelled _ _ (orElse_of_fail failed' ?_), fun _ => rfl⟩
            rw [quoteSafe_cons same]
            rfl
      · obtain ⟨rfl, other, anywhere⟩ := short_unit escaped single
        refine .inl ⟨a, ?_, fun _ => rfl⟩
        by_cases same : u = quote
        · subst same
          have value : Pattern.char quote = a :=
            congrArg Prod.fst (Option.some.inj (anywhere []))
          rw [quoteSafe_quote, ← value]
          rfl
        · rw [quoteSafe_cons same]
          exact orElse_of_fail (bracketed_fails other _) (anywhere _)

theorem quote_not_mem_units {members : UnitClass} {x : Text} (out : members.holds quote = false)
    (known : ∀ u ∈ x, members.holds u = true) : quote ∉ x :=
  fun inside => Bool.false_ne_true (out.symm.trans (known quote inside))

theorem quote_not_mem_name {n : Text} (isName : IsName n) : quote ∉ n := by
  obtain ⟨first, others, rfl, starts, all⟩ := isName
  have begins : quote ≠ first := (UnitClass.ne_of_holds starts (by decide)).symm
  have goes : quote ∉ others := quote_not_mem_units (by decide) all
  exact fun inside => (List.mem_cons.1 inside).elim begins goes

theorem quote_not_mem_mark {w : Text} {node : Pattern → Pattern} (mark : Mark w node) :
    quote ∉ w := by
  have joined {x y : Text} (first : quote ∉ x) (second : quote ∉ y) : quote ∉ x ++ y :=
    fun inside => (List.mem_append.1 inside).elim first second
  cases mark with
  | plain => exact List.not_mem_nil
  | named spelling isName =>
    refine joined ?_ (joined (quote_not_mem_name isName) (by decide))
    obtain rfl | rfl := spelling <;> decide
  | uncaptured => decide
  | look listed =>
    have all : ∀ front ∈ lookMarks, quote ∉ front := by decide
    exact all w listed
  | flagged nonempty known =>
    exact joined (by decide) (joined (quote_not_mem_units (by decide) known) (by decide))

theorem bare_quoteSafe {x : Text} {a : Pattern} (bare : Bare x a) : Bare (quoteSafe x) a := by
  cases bare with
  | reference isName =>
    rw [quoteSafe_append, quoteSafe_of_free (quote_not_mem_name isName)]
    exact .reference isName
  | @comment y known =>
    rw [quoteSafe_append]
    refine .comment fun u inside => ?_
    rw [quoteSafe_eq_flatMap] at inside
    obtain ⟨v, listed, spelled⟩ := List.mem_flatMap.1 inside
    unfold safeUnit at spelled
    split at spelled
    · have all : ("\\x27" : Text).all UnitClass.commented.holds = true := by decide
      exact List.all_eq_true.1 all u spelled
    · rw [List.mem_singleton.1 spelled]
      exact known v listed
  | flags nonempty known =>
    rw [quoteSafe_append, quoteSafe_of_free (quote_not_mem_units (by decide) known)]
    exact .flags nonempty known

/-- Behind a part of a pattern no quote is escaped that is not in the whole. -/
theorem QuotesBare.derived {category : Category} {as : List Pattern} (bare : QuotesBare .code t)
    (derives : Derives category t as rest) : QuotesBare .code rest := by
  obtain ⟨x, rfl, code⟩ := derives.taken
  have behind := bare.behind
  rwa [code] at behind

theorem QuotesBare.marked {w : Text} {node : Pattern → Pattern} (mark : Mark w node)
    (unmarked : t.head? ≠ some (unit '?')) (bare : QuotesBare .code (unit '(' :: (w ++ t))) :
    QuotesBare .code t := by
  have whole : QuotesBare .code ((unit '(' :: w) ++ t) := bare
  have behind : QuotesBare (Ground.run .paren w) t := whole.behind
  obtain rfl | code := mark.ground
  · rintro before after rfl
    cases before with
    | nil => exact ⟨nofun, nofun⟩
    | cons u before =>
      have plain : u ≠ unit '?' := fun same => unmarked (congrArg some same)
      have whole := behind (u :: before) after rfl
      rwa [Ground.run_nil, Ground.run_cons, Ground.next_paren plain] at whole
  · rwa [code] at behind

/-- What becomes of a part of a pattern whose quotes are spelled. An escaped quote is no atom any
more, and an item with it becomes several ones. -/
def InQuotes : Category → Text → List Pattern → Text → Prop
  | .atom, t, as, rest => (∃ a', Derives .atom (quoteSafe t) [a'] (quoteSafe rest) ∧
      (QuotesBare .code t → [a'] = as)) ∨ t = unit '\\' :: quote :: rest
  | .item, t, as, rest => ∃ bs, (∀ cs end_, Derives .sequence (quoteSafe rest) cs end_ →
      Derives .sequence (quoteSafe t) (bs ++ cs) end_) ∧ (QuotesBare .code t → bs = as)
  | category, t, as, rest => ∃ bs, Derives category (quoteSafe t) bs (quoteSafe rest) ∧
      (QuotesBare .code t → bs = as)

theorem inQuotes_item {middle : Text} {a : Pattern} {bounds : Option Bounds}
    (first : InQuotes .atom t [a] middle)
    (times : (Reader.optional quantifier).result middle = some (bounds, rest)) :
    InQuotes .item t [quantify bounds a] rest := by
  obtain ⟨_, times', rfl⟩ := (keeps_optional keeps_quantifier).carry inStep_quoted rfl times
  obtain ⟨a', derives, same⟩ | rfl := first
  · refine ⟨[quantify bounds a'], fun cs end_ later => .cons (.item derives times') later,
      fun bare => ?_⟩
    obtain rfl := List.singleton_inj.1 (same bare)
    rfl
  · have single {t rest : Text} {a : Pattern}
        (leaf : (bracketed <|> short).result t = some (a, rest))
        (bare : (Reader.optional quantifier).result rest = some (none, rest)) :
        Derives .item t [a] rest := Derives.item (.leaf leaf) bare
    have spelled : quoteSafe (unit '\\' :: quote :: middle) = "\\\\x27" ++ quoteSafe middle := by
      rw [quoteSafe_cons (by decide), quoteSafe_quote]
      rfl
    refine ⟨[.char (unit '\\'), .char (unit 'x'), .char (unit '2'), quantify bounds
      (.char (unit '7'))], fun cs end_ later => ?_, fun bare => ?_⟩
    swap
    · exact absurd rfl (bare [unit '\\'] middle rfl).1
    rw [spelled]
    exact .cons (single rfl rfl) <| .cons (single rfl rfl) <| .cons (single rfl rfl) <|
      .cons (.item (.leaf rfl) times') later

theorem inQuotes {category : Category} {as : List Pattern} (derives : Derives category t as rest) :
    InQuotes category t as rest := by
  induction derives with
  | leaf read =>
    obtain ⟨a', read', same⟩ | escaped := leaf_quoteSafe read
    · exact .inl ⟨a', .leaf read', fun bare => by rw [same bare]⟩
    · exact .inr escaped
  | @bare x rest a bare =>
    refine .inl ⟨a, ?_, fun _ => rfl⟩
    rw [quoteSafe_cons (by decide), quoteSafe_append, quoteSafe_cons (by decide)]
    exact .bare (bare_quoteSafe bare)
  | @group w t rest node options mark inside ih =>
    obtain ⟨bs, inside', same⟩ := ih
    refine .inl ⟨node (alternativesOf bs), ?_, fun bare => ?_⟩
    · rw [quoteSafe_cons (by decide), quoteSafe_append, quoteSafe_of_free (quote_not_mem_mark mark)]
      rw [quoteSafe_cons (by decide)] at inside'
      exact .group mark inside'
    · rw [same (bare.marked mark inside.unmarked)]
  | item first times ih => exact inQuotes_item ih times
  | nil ends => exact ⟨[], .nil (headIn_quoteSafe (by decide) ends), fun _ => rfl⟩
  | cons first later ih ih' =>
    obtain ⟨bs, front, same⟩ := ih
    obtain ⟨cs, later', same'⟩ := ih'
    refine ⟨bs ++ cs, front cs _ later', fun bare => ?_⟩
    rw [same bare, same' (bare.derived first)]
    rfl
  | last only ends ih =>
    obtain ⟨bs, only', same⟩ := ih
    exact ⟨_, .last only' (headIn_quoteSafe (by decide) ends), fun bare => by rw [same bare]⟩
  | @more t middle rest as options first later ih ih' =>
    obtain ⟨bs, first', same⟩ := ih
    obtain ⟨cs, later', same'⟩ := ih'
    rw [quoteSafe_cons (by decide)] at first'
    refine ⟨_, .more first' later', fun bare => ?_⟩
    have bar : QuotesBare .code ([unit '|'] ++ middle) := bare.derived first
    have behind : QuotesBare .code middle := bar.behind
    rw [same bare, same' behind]

end Parts

/-- Between single quotes every pattern is spelled without a quote, and it still is a pattern. Where
no backslash escapes a quote, it is the same one. -/
theorem quoteSafe_reads {pattern : Text} {tree : NumberedPattern}
    (accepted : Pattern.read pattern = .ok tree) :
    quote ∉ quoteSafe pattern ∧ ∃ tree', Pattern.read (quoteSafe pattern) = .ok tree' ∧
      (QuotesBare .code pattern → tree' = tree) := by
  refine ⟨quote_not_mem_quoteSafe pattern, ?_⟩
  obtain ⟨root, read, rfl⟩ := Pattern.read_eq_ok.1 accepted
  obtain ⟨options, rfl, derives⟩ := Pattern.readTree_iff_derives.1 read
  obtain ⟨options', derives', same⟩ := inQuotes derives
  refine ⟨_, Pattern.read_eq_ok.2 ⟨_, Pattern.readTree_iff_derives.2 ⟨_, rfl, derives'⟩, rfl⟩,
    fun bare => ?_⟩
  rw [same bare]

/-- Quotes as an atom, with a quantifier, in sets, behind the beginning of a code and in a comment. -/
def quotedPattern : Text := "it's'+['-z]|[^]']\\x2'(?#\\')"

theorem quoteSafe_reads_quotedPattern : ∃ tree, Pattern.read quotedPattern = .ok tree ∧
    QuotesBare .code quotedPattern ∧ quote ∉ quoteSafe quotedPattern ∧
    Pattern.read (quoteSafe quotedPattern) = .ok tree := by
  have reads : ∃ tree, Pattern.read quotedPattern = .ok tree := ⟨_, rfl⟩
  have bare : QuotesBare .code quotedPattern := by decide
  obtain ⟨tree, accepted⟩ := reads
  obtain ⟨free, tree', spelled, same⟩ := quoteSafe_reads accepted
  rw [same bare] at spelled
  exact ⟨tree, accepted, bare, free, spelled⟩

/-- An escaped quote is a quote, but its spelling is a backslash and three units. -/
theorem quoteSafe_escapes_backslash : ∃ tree tree', Pattern.read "\\'" = .ok tree ∧
    Pattern.read (quoteSafe "\\'") = .ok tree' ∧ tree.root = .char quote ∧
    tree'.root = .seq [.char (unit '\\'), .char (unit 'x'), .char (unit '2'), .char (unit '7')] ∧
    tree' ≠ tree :=
  ⟨_, _, rfl, rfl, rfl, rfl, nofun⟩

end Dialect

end Highlight
