import Highlight.Proofs.Pattern.Meaning
import Highlight.Proofs.Pattern.Reprinted
import Highlight.Proofs.Pattern.Swapping

/-!
# Reading a text with groups swapped

If a swap gives interchangeable patterns where it writes a group (`Swap.Sound`), the text in which
groups are swapped is a pattern if the old text is, and one that is interchangeable with it
(`Swap.Sound.readTree`). The grammar is followed on both texts at once. A rule is carried from one
to the other where the rest begins with what may follow the rule, since otherwise a quantifier may
stand behind what was written. In a pattern that is read to its end it does at each place.
-/

namespace Highlight

open Reader Grammar Dialect Pattern

/-- No quantifier stands in front, braces apart. -/
def Unquantified (t : Text) : Prop := ∀ u ∈ t.head?, u ∉ ("*+?" : Text)

theorem unquantified_of_reads {inner : Reader Pattern} {t : Text}
    (reads : ((quantified inner).result t).isSome = true) : Unquantified t := by
  intro u first quantifier
  obtain ⟨t, rfl⟩ := List.head?_eq_some_iff.1 first
  have quantifier : u ∈ [unit '*', unit '+', unit '?'] := quantifier
  simp only [List.mem_cons, List.not_mem_nil, or_false] at quantifier
  have stops : (quantified inner).result (u :: t) = none := by
    obtain rfl | rfl | rfl := quantifier <;> rfl
  rw [stops] at reads
  cases reads

theorem unquantified_of_headIn {t : Text} (ends : HeadIn sequenceEnds t) : Unquantified t := by
  intro u first
  have inside : u ∈ [unit '|', unit ')'] := ends u first
  simp only [List.mem_cons, List.not_mem_nil, or_false] at inside
  obtain rfl | rfl := inside <;> decide

namespace Swap

variable {swap : Swap} {depth depth' : Nat}

/-- What the first rule reads in a text, the second one reads in the swapped text, up to patterns
that are interchangeable, where the rest is as it should be. -/
def Carries (swap : Swap) (depth depth' : Nat) (live : Text → Prop) (p p' : Reader Pattern) :
    Prop :=
  ∀ ⦃x x' rest : Text⦄ ⦃a : Pattern⦄, swap.Along depth depth' .code x x' →
    p.result x = some (a, rest) → live rest → ∃ b rest', p'.result x' = some (b, rest') ∧
      Interchangeable a b ∧ swap.Along depth depth' .code rest rest'

/-- Patterns and rests that belong together where a parenthesis closes the group. -/
def Closes (swap : Swap) (depth depth' : Nat) (a : Pattern) (y : Text) (b : Pattern)
    (y' : Text) : Prop :=
  y.head? = some (unit ')') → Interchangeable a b ∧ swap.Along depth depth' .code y y'

section GroupBody

variable (carries : swap.Carries depth depth' (HeadIn patternEnds) (pattern (depth + 1))
  (pattern (depth' + 1)))

include carries

theorem together_pattern {x x' : Text} (along : swap.Along depth depth' .code x x') :
    Together (swap.Closes depth depth') ((pattern (depth + 1)).result x)
      ((pattern (depth' + 1)).result x') := by
  obtain ⟨⟨a, rest⟩, read⟩ : ∃ found, (pattern (depth + 1)).result x = some found := ⟨_, rfl⟩
  obtain ⟨⟨b, rest'⟩, read'⟩ : ∃ found, (pattern (depth' + 1)).result x' = some found := ⟨_, rfl⟩
  refine .inr ⟨a, rest, b, rest', read, read', fun closes => ?_⟩
  have ends : HeadIn patternEnds rest := by
    obtain ⟨rest, rfl⟩ := List.head?_eq_some_iff.1 closes
    exact headIn_cons (by decide)
  obtain ⟨_, _, same, further⟩ := carries along read ends
  cases read'.symm.trans same
  exact further

variable {x x' : Text} (along : swap.Along depth depth' .paren x x')

include along

/-- A group that its mark tells, with a pattern in it. -/
theorem together_marked {text : Text} {node : Pattern → Pattern}
    (begins : Ground.run .paren text = .code) (bare : unit '(' ∉ text)
    (congr : ∀ {a b}, Interchangeable a b → Interchangeable (node a) (node b)) :
    Together (swap.Closes depth depth')
      ((do literal text; let body ← pattern (depth + 1); pure (node body)).result x)
      ((do literal text; let body ← pattern (depth' + 1); pure (node body)).result x') := by
  refine together_bind (along.literal text bare begins) ?_
  rintro _ y _ y' ⟨_, along⟩
  refine together_bind (together_pattern carries along) fun a z b z' goes => ?_
  exact together_pure fun closes => ⟨congr (goes closes).1, (goes closes).2⟩

/-- A group that is named, with a pattern in it. -/
theorem together_named {text : Text} (begins : Ground.run .paren text = .code)
    (bare : unit '(' ∉ text) : Together (swap.Closes depth depth')
      ((do
        literal text
        let name ← name
        literal ">"
        let body ← pattern (depth + 1)
        pure (captured (some name) body)).result x)
      ((do
        literal text
        let name ← name
        literal ">"
        let body ← pattern (depth' + 1)
        pure (captured (some name) body)).result x') := by
  refine together_bind (along.literal text bare begins) ?_
  rintro _ y _ y' ⟨_, along⟩
  refine together_bind (along.inert (stays_name (.inr (.inl rfl))) inert_name) ?_
  rintro name y _ y' ⟨rfl, along⟩
  refine together_bind (along.literal ">" (by decide) rfl) ?_
  rintro _ y _ y' ⟨_, along⟩
  refine together_bind (together_pattern carries along) fun a z b z' goes => ?_
  exact together_pure fun closes => ⟨.group _ (goes closes).1, (goes closes).2⟩

omit carries in
/-- A comment goes up to the next closing parenthesis, whatever it holds. -/
theorem together_comment : Together (swap.Closes depth depth')
    ((do literal "?#"; let _ ← many (oneOf .commented); pure (Pattern.seq [])).result x)
    ((do literal "?#"; let _ ← many (oneOf .commented); pure (Pattern.seq [])).result x') := by
  have mark : Together (swap.Alike depth depth' .comment) _ _ := along.literal "?#" (by decide) rfl
  refine together_bind mark ?_
  rintro _ y _ y' ⟨_, stands⟩
  obtain ⟨comment, rest, read⟩ : ∃ as rest, (many (oneOf .commented)).result y = some (as, rest) :=
    ⟨_, _, rfl⟩
  obtain ⟨w, rfl, known⟩ := shaped_many_oneOf _ read
  have open_ : unit ')' ∉ w := fun closes => absurd (known _ closes) (by decide)
  have flat : ∀ v z, w = v ++ unit '(' :: z →
      (Ground.run .comment v).opensGroup = false := by
    rintro v z rfl
    rw [Ground.run_comment fun inside => open_ (List.mem_append_left _ inside)]
    rfl
  obtain ⟨rest', rfl, behind⟩ := stands.split flat
  rw [Ground.run_comment open_] at behind
  obtain ⟨_, last, read'⟩ : ∃ as last,
      (many (oneOf .commented)).result (w ++ rest') = some (as, last) := ⟨_, _, rfl⟩
  refine .inr ⟨_, rest, _, last, bind_of_read read rfl, bind_of_read read' rfl, fun closes => ?_⟩
  obtain ⟨v, rfl⟩ := List.head?_eq_some_iff.1 closes
  obtain ⟨v', rfl, further⟩ := behind.split_bare (w := [unit ')']) (by decide)
  have stops : (oneOf .commented).result ([unit ')'] ++ v') = none := oneOf_fail (by decide) v'
  cases read'.symm.trans (many_oneOf_append known stops)
  exact ⟨.refl _, behind.part (.keep _ further.turns) (List.suffix_refl _) (List.suffix_refl _)⟩

/-- A group without a mark: a pattern takes no question mark, so that none closes behind it. -/
theorem together_plain : Together (swap.Closes depth depth')
    ((do let body ← pattern (depth + 1); pure (captured none body)).result x)
    ((do let body ← pattern (depth' + 1); pure (captured none body)).result x') := by
  have inside : Together (swap.Closes depth depth') ((pattern (depth + 1)).result x)
      ((pattern (depth' + 1)).result x') := by
    by_cases marked : x.head? = some (unit '?')
    · obtain ⟨t', rfl⟩ := List.head?_eq_some_iff.1 (along.turns.head?_eq.trans marked)
      obtain ⟨t, rfl⟩ := List.head?_eq_some_iff.1 marked
      exact .inr ⟨.seq [], unit '?' :: t, .seq [], unit '?' :: t', rfl, rfl, fun closes =>
        absurd (Option.some.inj closes) (by decide)⟩
    · exact together_pattern carries ⟨along.turns.of_paren marked, along.room, along.room'⟩
  refine together_bind inside fun a z b z' goes => ?_
  exact together_pure fun closes => ⟨.group _ (goes closes).1, (goes closes).2⟩

/-- The inside of a group is read on both texts. -/
theorem together_groupBody : Together (swap.Closes depth depth')
    ((groupBody (pattern (depth + 1))).result x)
    ((groupBody (pattern (depth' + 1))).result x') := by
  refine together_orElse (together_marked carries along rfl (by decide) (.group none))
    (together_orElse (together_named carries along rfl (by decide)) (together_orElse ?_
    (together_orElse (together_marked carries along rfl (by decide) .look) (together_orElse
    (together_marked carries along rfl (by decide) .look) (together_orElse
    (together_marked carries along rfl (by decide) .look) (together_orElse
    (together_marked carries along rfl (by decide) .look) (together_orElse
    (together_named carries along rfl (by decide)) (together_orElse (together_comment along)
    (together_orElse ?_ (together_orElse ?_ ?_))))))))))
  · refine together_bind (along.literal "?P=" (by decide) rfl) ?_
    rintro _ y _ y' ⟨_, along⟩
    refine together_bind (along.inert (stays_name (.inr (.inl rfl))) inert_name) ?_
    rintro name y _ y' ⟨rfl, along⟩
    exact together_pure fun _ => ⟨.refl _, along⟩
  · refine together_bind (along.literal "?" (by decide) rfl) ?_
    rintro _ y _ y' ⟨_, along⟩
    refine together_bind (along.flags (by decide) (by decide)) ?_
    rintro _ y _ y' ⟨_, along⟩
    refine together_bind (along.literal ":" (by decide) rfl) ?_
    rintro _ y _ y' ⟨_, along⟩
    refine together_bind (together_pattern carries along) fun a z b z' goes => ?_
    exact together_pure fun closes => ⟨.group none (goes closes).1, (goes closes).2⟩
  · refine together_bind (along.literal "?" (by decide) rfl) ?_
    rintro _ y _ y' ⟨_, along⟩
    refine together_bind (along.flags (by decide) (by decide)) ?_
    rintro _ y _ y' ⟨_, along⟩
    exact together_pure fun _ => ⟨.refl _, along⟩
  · exact together_plain carries along

/-- A group is read on both texts, where it is not one that is swapped. -/
theorem group_carried {rest : Text} {a : Pattern}
    (read : (group (pattern (depth + 1))).result (unit '(' :: x) = some (a, rest)) :
    ∃ b rest', (group (pattern (depth' + 1))).result (unit '(' :: x') = some (b, rest') ∧
      Interchangeable a b ∧ swap.Along depth depth' .code rest rest' := by
  obtain ⟨_, _, opens, further⟩ := bind_eq_some.1 read
  obtain ⟨_, _, inside, further⟩ := bind_eq_some.1 further
  obtain ⟨_, _, closes, rfl, rfl⟩ := bind_eq_some.1 further
  obtain rfl := (List.cons.inj (literal_eq_some.1 opens)).2
  obtain rfl := literal_eq_some.1 closes
  obtain ⟨failed, _⟩ | ⟨_, _, b, _, read, read', goes⟩ := together_groupBody carries along
  · cases inside.symm.trans failed
  · cases inside.symm.trans read
    obtain ⟨same, behind⟩ := goes rfl
    obtain ⟨rest', rfl, further⟩ := behind.split_bare (by decide)
    exact ⟨b, rest', bind_of_read (literal_append "(" x') <| bind_of_read read' <|
      bind_of_read (literal_append ")" rest') rfl, same, further⟩

end GroupBody

/-- Where the swap writes a group, it writes one that is interchangeable with the old one, each with
the quantifier that may follow. -/
def Sound (swap : Swap) : Prop :=
  ∀ ⦃depth depth' : Nat⦄ ⦃y y' rest : Text⦄ ⦃a : Pattern⦄, swap.fits y →
    swap.Along depth depth' .code y y' → (unit '(' :: swap.old).count (unit '(') ≤ depth →
    (unit '(' :: swap.new).count (unit '(') ≤ depth' →
    (quantified (pattern depth)).result (unit '(' :: (swap.old ++ y)) = some (a, rest) →
    Unquantified rest → ∃ b rest',
      (quantified (pattern depth')).result (unit '(' :: (swap.new ++ y')) = some (b, rest') ∧
        Interchangeable a b ∧ swap.Along depth depth' .code rest rest'

section Rules

variable (nested : ∀ d d', depth = d + 1 → depth' = d' + 1 →
  swap.Carries d d' (HeadIn patternEnds) (pattern (d + 1)) (pattern (d' + 1)))

include nested

/-- An atom that the swap leaves where it is. -/
theorem atom_carried {u : CodeUnit} {x x' rest : Text} {a : Pattern}
    (along : swap.Along depth depth' .code (u :: x) (u :: x'))
    (turns : swap.Turns (Ground.code.next u) x x')
    (read : (atom (pattern depth)).result (u :: x) = some (a, rest)) :
    ∃ b rest', (atom (pattern depth')).result (u :: x') = some (b, rest') ∧
      Interchangeable a b ∧ swap.Along depth depth' .code rest rest' := by
  by_cases opens : u = unit '('
  · subst opens
    rw [atom_group _ rfl] at read ⊢
    have room := along.room
    have room' := along.room'
    rw [List.count_cons_self] at room room'
    obtain ⟨d, rfl⟩ : ∃ d, depth = d + 1 := ⟨depth - 1, by omega⟩
    obtain ⟨d', rfl⟩ : ∃ d', depth' = d' + 1 := ⟨depth' - 1, by omega⟩
    obtain ⟨b, rest', read', same, further⟩ := group_carried (nested d d' rfl rfl)
      ⟨turns, by omega, by omega⟩ read
    exact ⟨b, rest', read', same, further.mono (Nat.le_succ d) (Nat.le_succ d')⟩
  · have other (t : Text) : (u :: t).head? ≠ some (unit '(') := fun same =>
      opens (Option.some.inj same)
    rw [atom_leaf _ (other _)] at read ⊢
    obtain ⟨rest', read', further⟩ := along.leaf read
    exact ⟨a, rest', read', .refl a, further⟩

omit nested in
/-- The quantifier behind an atom is read on both texts. -/
theorem quantified_of_atoms {p p' : Reader Pattern} {x x' middle middle' rest : Text}
    {body body' a : Pattern} (read : (quantified p).result x = some (a, rest))
    (first : (atom p).result x = some (body, middle))
    (first' : (atom p').result x' = some (body', middle')) (same : Interchangeable body body')
    (behind : swap.Along depth depth' .code middle middle') :
    ∃ b rest', (quantified p').result x' = some (b, rest') ∧ Interchangeable a b ∧
      swap.Along depth depth' .code rest rest' := by
  obtain ⟨_, _, read₁, further⟩ := bind_eq_some.1 read
  cases first.symm.trans read₁
  obtain ⟨bounds, _, second, rfl, rfl⟩ := bind_eq_some.1 further
  obtain ⟨failed, _⟩ | ⟨_, _, _, rest', second₁, second', rfl, further⟩ :=
    behind.inert (stays_optional (stays_quantifier (.inr (.inl rfl))))
      (inert_optional inert_quantifier)
  · cases second.symm.trans failed
  · cases second.symm.trans second₁
    refine ⟨_, rest', bind_of_read first' (bind_of_read second' rfl), ?_, further⟩
    cases bounds with
    | none => exact same
    | some bounds => exact same.repeated _ _

theorem quantified_carried (sound : swap.Sound) : swap.Carries depth depth' Unquantified
    (quantified (pattern depth)) (quantified (pattern depth')) := by
  intro x x' rest a along read live
  have room := along.room
  have room' := along.room'
  cases along.turns with
  | nil => cases (quantified_nil _).symm.trans read
  | @write _ y y' _ fits turns =>
    rw [← List.cons_append, List.count_append] at room room'
    exact sound fits (along.part turns (List.suffix_append (unit '(' :: swap.old) y)
      (List.suffix_append (unit '(' :: swap.new) y')) (by omega) (by omega) read live
  | keep u turns =>
    obtain ⟨body, middle, first, _⟩ := bind_eq_some.1 read
    obtain ⟨body', middle', first', same, behind⟩ := atom_carried nested along turns first
    exact quantified_of_atoms read first first' same behind

end Rules

/-- Repeated reading is carried with what is read in each round. -/
theorem Carries.rounds {p p' : Reader Pattern} {live : Text → Prop} {x x' rest : Text}
    {as : List Pattern} (carries : swap.Carries depth depth' live p p')
    (reads : ∀ {t}, (p.result t).isSome = true → live t) (ends : live rest)
    (stops : ∀ {rest'}, swap.Along depth depth' .code rest rest' → p'.result rest' = none)
    (rounds : Rounds p x as rest) (along : swap.Along depth depth' .code x x') :
    ∃ bs rest', Rounds p' x' bs rest' ∧ List.Forall₂ Interchangeable as bs ∧
      swap.Along depth depth' .code rest rest' := by
  induction rounds generalizing x' with
  | stop => exact ⟨[], x', .stop (stops along), .nil, along⟩
  | @more _ middle _ _ _ read later ih =>
    have continues : live middle := by
      cases later with
      | stop => exact ends
      | more next _ => exact reads (by rw [next]; rfl)
    obtain ⟨b, middle', read', same, behind⟩ := carries along read continues
    obtain ⟨bs, rest', rounds', all, further⟩ := ih ends stops behind
    exact ⟨b :: bs, rest', .more read' rounds', .cons same all, further⟩

theorem sequence_carried (carries : swap.Carries depth depth' Unquantified
    (quantified (pattern depth)) (quantified (pattern depth'))) :
    swap.Carries depth depth' (HeadIn sequenceEnds) (sequence (pattern depth))
      (sequence (pattern depth')) := by
  intro x x' rest a along read ends
  obtain ⟨items, _, reads, rfl, rfl⟩ := bind_eq_some.1 read
  have advances (depth : Nat) := advances_quantified (shaped_pattern depth)
  have stops {rest' : Text} (along : swap.Along depth depth' .code rest rest') :
      (quantified (pattern depth')).result rest' = none := by
    have ends : HeadIn sequenceEnds rest' := fun u first => ends u (along.turns.head?_eq ▸ first)
    obtain rfl | ⟨u, inside, t, rfl⟩ := ends.eq_nil_or
    · exact quantified_nil _
    · have inside : u ∈ [unit '|', unit ')'] := inside
      exact quantified_stops _ (by simpa using inside) t
  obtain ⟨items', rest', rounds', same, further⟩ := carries.rounds unquantified_of_reads
    (unquantified_of_headIn ends) stops ((many_eq_some (advances depth)).1 reads) along
  refine ⟨_, rest', bind_of_read ((many_eq_some (advances depth')).2 rounds') rfl, ?_, further⟩
  match same with
  | .nil => exact .refl _
  | .cons first .nil => exact first
  | .cons first (.cons second others) => exact .seq (.cons first (.cons second others))

theorem barred_carried (carries : swap.Carries depth depth' (HeadIn sequenceEnds)
    (sequence (pattern depth)) (sequence (pattern depth'))) :
    swap.Carries depth depth' (HeadIn sequenceEnds) (barred (pattern depth))
      (barred (pattern depth')) := by
  intro x x' rest a along read ends
  obtain ⟨behind, rfl, further⟩ := barred_eq_some.1 read
  obtain ⟨behind', rfl, stands⟩ := along.split_bare (by decide)
  obtain ⟨b, rest', read', same, further⟩ := carries stands further ends
  exact ⟨b, rest', barred_eq_some.2 ⟨behind', rfl, read'⟩, same, further⟩

theorem alternatives_carried (carries : swap.Carries depth depth' Unquantified
    (quantified (pattern depth)) (quantified (pattern depth'))) :
    swap.Carries depth depth' (HeadIn patternEnds) (alternatives (pattern depth))
      (alternatives (pattern depth')) := by
  intro x x' rest a along read ends
  have sequences := sequence_carried carries
  have advances (depth : Nat) := advances_barred (shaped_pattern depth)
  have last : HeadIn sequenceEnds rest := ends.mono (by decide)
  obtain ⟨head, middle, options, first, second, rfl⟩ := alternatives_eq_some.1 read
  have rounds := (many_eq_some (advances depth)).1 second
  have bar {t : Text} (reads : ((barred (pattern depth)).result t).isSome = true) :
      HeadIn sequenceEnds t := by
    obtain ⟨_, further⟩ := Option.isSome_iff_exists.1 reads
    obtain ⟨behind, rfl, _⟩ := barred_eq_some.1 further
    exact headIn_cons (by decide)
  have next : HeadIn sequenceEnds middle := by
    cases rounds with
    | stop => exact last
    | more option _ => exact bar (by rw [option]; rfl)
  have stops {rest' : Text} (along : swap.Along depth depth' .code rest rest') :
      (barred (pattern depth')).result rest' = none := by
    have ends : HeadIn patternEnds rest' := fun u first => ends u (along.turns.head?_eq ▸ first)
    exact bind_of_fail (ends.literal_eq_none (by decide))
  obtain ⟨head', middle', first', same, behind⟩ := sequences along first next
  obtain ⟨options', rest', rounds', all, further⟩ :=
    (barred_carried sequences).rounds bar last stops rounds behind
  refine ⟨_, rest', alternatives_eq_some.2 ⟨head', middle', options', first',
    (many_eq_some (advances depth')).2 rounds', rfl⟩, ?_, further⟩
  cases all with
  | nil => exact same
  | cons option others => exact .alt (.cons same (.cons option others))

/-- Patterns are carried, whatever room there is on either side, if it is enough: a group uses up
one step of both depths and one parenthesis of both rooms. -/
theorem Sound.pattern (sound : swap.Sound) (depth depth' : Nat) : swap.Carries depth depth'
    (HeadIn patternEnds) (pattern (depth + 1)) (pattern (depth' + 1)) := by
  induction depth generalizing depth' with
  | zero => exact alternatives_carried (quantified_carried (fun d d' none _ => nomatch none) sound)
  | succ depth ih =>
    refine alternatives_carried (quantified_carried (fun d d' same _ => ?_) sound)
    obtain rfl := Nat.succ.inj same
    exact ih d'

/-- The text with groups swapped is a pattern, and one that is interchangeable with the old one. -/
theorem Sound.readTree (sound : swap.Sound) {t t' : Text} {root : Pattern}
    (turns : swap.Turns .code t t') (accepted : Pattern.readTree t = .ok root) :
    ∃ root', Pattern.readTree t' = .ok root' ∧ Interchangeable root root' := by
  have read := Pattern.readTree_eq_ok.1 accepted
  obtain ⟨root', rest', read', same, further⟩ := sound.pattern (t.count (unit '('))
    (t'.count (unit '(')) ⟨turns, Nat.le_refl _, Nat.le_refl _⟩ read headIn_nil
  obtain rfl : rest' = [] := by
    cases further.turns
    rfl
  exact ⟨root', Pattern.readTree_eq_ok.2 read', same⟩

end Swap

end Highlight
