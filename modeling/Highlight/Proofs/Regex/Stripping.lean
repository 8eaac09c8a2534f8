import Highlight.Proofs.Regex.Bounds
import Highlight.Proofs.Regex.Uncaptured

/-!
# Reading a text and the same text without captures

`withoutCaptures` works on the source of an expression: it rewrites the openings of groups and knows
of escapes and bracketed sets, but not of the rest of the notation. `bare` is what it makes of the
text from a place of the reader on. Where there is no group, the reader takes the same from both
texts, and what it leaves of the second one is the rewritten rest of the first one. For quantifiers
this is an equation (`readQuantifier_bare`), because a quantifier that is not there must not come
in; for the other parts it is enough that what can be read is read alike (`Carries`).
-/

namespace Highlight.Regex

/-- A text without captures, from a place inside or outside of a bracketed set on. -/
abbrev bare (inSet : Bool) (t : Text) : Text := withoutCapturesFrom inSet 0 t

/-- The unit neither escapes nor opens or closes a bracketed set, nor opens a group. -/
structure Ordinary (u : CodeUnit) : Prop extends Plain u where
  group : u ≠ unit '('

instance (u : CodeUnit) : Decidable (Ordinary u) :=
  decidable_of_iff (Plain u ∧ u ≠ unit '(')
    ⟨fun ⟨plain, group⟩ => ⟨plain, group⟩, fun ordinary => ⟨ordinary.toPlain, ordinary.group⟩⟩

variable {inSet : Bool} {t r rest : Text} {u v : CodeUnit}

/-- A class of units that holds none of the four holds ordinary units only. -/
theorem Ordinary.of_class {p : CodeUnit → Bool} (holds : p u = true)
    (none : p (unit '\\') = false ∧ p (unit '[') = false ∧ p (unit ']') = false)
    (closed : p (unit '(') = false) : Ordinary u := by
  refine ⟨.of_class holds none, ?_⟩
  rintro rfl
  rw [closed] at holds
  cases holds

theorem Ordinary.of_all {front : Text} (all : front.all (fun u => decide (Ordinary u)) = true) :
    ∀ u ∈ front, Ordinary u := fun u inside => of_decide_eq_true (List.all_eq_true.1 all u inside)

theorem Ordinary.of_digit (digit : u.isDigit = true) : Ordinary u :=
  .of_class digit (by decide) (by decide)

theorem Ordinary.of_hexDigit (digit : u.isHexDigit = true) : Ordinary u :=
  .of_class digit (by decide) (by decide)

theorem Ordinary.of_octal (digit : isOctal u = true) : Ordinary u :=
  .of_class digit (by decide) (by decide)

theorem Ordinary.of_word (word : u.isWord = true) : Ordinary u :=
  .of_class word (by decide) (by decide)

/-! ## One unit -/

theorem bare_escape : bare inSet (unit '\\' :: v :: r) = unit '\\' :: v :: bare inSet r := by
  rw [bare, withoutCapturesFrom.eq_def]
  exact if_pos rfl

theorem bare_inside (escape : u ≠ unit '\\') (closing : u ≠ unit ']') :
    bare true (u :: r) = u :: bare true r := by
  rw [bare, withoutCapturesFrom.eq_def]
  dsimp only
  rw [if_neg escape, if_pos rfl, decide_eq_true closing]

theorem bare_closing : bare true (unit ']' :: r) = unit ']' :: bare false r := by
  rw [bare, withoutCapturesFrom.eq_def]
  exact if_neg (by decide)

theorem bare_opening : bare false (unit '[' :: r) = unit '[' :: bare true r := by
  rw [bare, withoutCapturesFrom.eq_def]
  exact if_neg (by decide)

theorem bare_outside (escape : u ≠ unit '\\') (opening : u ≠ unit '[') (group : u ≠ unit '(') :
    bare false (u :: r) = u :: bare false r := by
  rw [bare, withoutCapturesFrom.eq_def]
  dsimp only
  rw [if_neg escape, if_neg Bool.false_ne_true, if_neg opening, if_neg group]

theorem bare_ordinary (ordinary : Ordinary u) : bare inSet (u :: r) = u :: bare inSet r := by
  cases inSet
  · exact bare_outside ordinary.escape ordinary.opening ordinary.group
  · exact bare_inside ordinary.escape ordinary.closing

/-- A group is rewritten by what stands behind its parenthesis. -/
theorem bare_group : bare false (unit '(' :: r) = match namedMark? r with
    | some length => "(?:" ++ bare false (r.drop length)
    | none => if r.head? = some (unit '?') then unit '(' :: bare false r
      else "(?:" ++ bare false r := by
  have skipped (count : Nat) (t : Text) :
      withoutCapturesFrom false count t = bare false (t.drop count) := by
    induction count generalizing t with
    | zero => rfl
    | succ count ih =>
      cases t with
      | nil => rfl
      | cons u r =>
        rw [withoutCapturesFrom]
        exact ih r
  rw [bare, withoutCapturesFrom.eq_def]
  dsimp only
  rw [if_neg (by decide), if_neg Bool.false_ne_true, if_neg (by decide), if_pos rfl]
  cases namedMark? r with
  | some length => exact congrArg (Text.ofString "(?:" ++ ·) (skipped length r)
  | none => rfl

/-- The first unit stays, and so does what stands behind an ordinary one. -/
theorem bare_cons (inSet : Bool) (u : CodeUnit) (r : Text) : ∃ r', bare inSet (u :: r) = u :: r' ∧
    (Ordinary u → r' = bare inSet r) := by
  by_cases ordinary : Ordinary u
  · exact ⟨_, bare_ordinary ordinary, fun _ => rfl⟩
  suffices kept : ∃ r', bare inSet (u :: r) = u :: r' by
    obtain ⟨r', same⟩ := kept
    exact ⟨r', same, fun absurd => (ordinary absurd).elim⟩
  by_cases escape : u = unit '\\'
  · subst escape
    cases r with
    | nil => exact ⟨[], rfl⟩
    | cons v r => exact ⟨_, bare_escape⟩
  cases inSet with
  | true =>
    by_cases closing : u = unit ']'
    · subst closing
      exact ⟨_, bare_closing⟩
    · exact ⟨_, bare_inside escape closing⟩
  | false =>
    by_cases opening : u = unit '['
    · subst opening
      exact ⟨_, bare_opening⟩
    by_cases group : u = unit '('
    · subst group
      rw [bare_group]
      split
      · exact ⟨_, rfl⟩
      · split
        · exact ⟨_, rfl⟩
        · exact ⟨_, rfl⟩
    · exact ⟨_, bare_outside escape opening group⟩

/-! ## Ordinary units -/

theorem bare_append {front : Text} (ordinary : ∀ u ∈ front, Ordinary u) :
    bare inSet (front ++ rest) = front ++ bare inSet rest := by
  induction front with
  | nil => rfl
  | cons u front ih =>
    rw [List.cons_append, bare_ordinary (ordinary u List.mem_cons_self),
      ih fun v inside => ordinary v (List.mem_cons_of_mem _ inside), List.cons_append]

theorem isPrefixOf_bare {front : Text} (ordinary : ∀ u ∈ front, Ordinary u) :
    front.isPrefixOf (bare inSet t) = front.isPrefixOf t := by
  induction front generalizing t with
  | nil => rfl
  | cons u front ih =>
    cases t with
    | nil => rfl
    | cons v r =>
      obtain ⟨r', same, goesOn⟩ := bare_cons inSet v r
      rw [same, List.isPrefixOf, List.isPrefixOf]
      by_cases here : u = v
      · subst here
        rw [goesOn (ordinary u List.mem_cons_self),
          ih fun v inside => ordinary v (List.mem_cons_of_mem _ inside)]
      · rw [beq_eq_false_iff_ne.2 here, Bool.false_and, Bool.false_and]

/-- A number of units of a class stands at the front just if the class goes on for so long. -/
theorem all_take_iff {p : CodeUnit → Bool} {count : Nat} :
    (count ≤ t.length ∧ (t.take count).all p = true) ↔ count ≤ (t.takeWhile p).length := by
  induction count generalizing t with
  | zero => simp
  | succ count ih =>
    cases t with
    | nil => simp
    | cons u r =>
      by_cases holds : p u = true
      · rw [List.takeWhile_cons_of_pos holds, List.length_cons, List.length_cons,
          List.take_succ_cons, List.all_cons, holds, Bool.true_and, Nat.succ_le_succ_iff,
          Nat.succ_le_succ_iff, ih]
      · rw [List.takeWhile_cons_of_neg holds]
        simp [holds]

theorem take_eq_of_takeWhile {p : CodeUnit → Bool} {count : Nat}
    (within : count ≤ (t.takeWhile p).length) : t.take count = (t.takeWhile p).take count := by
  have whole : t.takeWhile p ++ t.dropWhile p = t := List.takeWhile_append_dropWhile
  calc t.take count = (t.takeWhile p ++ t.dropWhile p).take count := by rw [whole]
    _ = (t.takeWhile p).take count := List.take_append_of_le_length within

theorem takeWhile_take {p : CodeUnit → Bool} (count : Nat) (t : Text) :
    (t.take count).takeWhile p = (t.takeWhile p).take count := by
  induction count generalizing t with
  | zero => rfl
  | succ count ih =>
    cases t with
    | nil => rfl
    | cons u r =>
      by_cases holds : p u = true
      · rw [List.take_succ_cons, List.takeWhile_cons_of_pos holds,
          List.takeWhile_cons_of_pos holds, List.take_succ_cons, ih]
      · rw [List.take_succ_cons, List.takeWhile_cons_of_neg holds,
          List.takeWhile_cons_of_neg holds, List.take_nil]

section Class

variable {p : CodeUnit → Bool} (ordinary : ∀ u, p u = true → Ordinary u)
include ordinary

theorem takeWhile_bare (t : Text) : (bare inSet t).takeWhile p = t.takeWhile p := by
  induction t with
  | nil => rfl
  | cons u r ih =>
    by_cases holds : p u = true
    · rw [bare_ordinary (ordinary u holds), List.takeWhile_cons_of_pos holds,
        List.takeWhile_cons_of_pos holds, ih]
    · obtain ⟨r', same, -⟩ := bare_cons inSet u r
      rw [same, List.takeWhile_cons_of_neg holds, List.takeWhile_cons_of_neg holds]

theorem dropWhile_bare (t : Text) : (bare inSet t).dropWhile p = bare inSet (t.dropWhile p) := by
  induction t with
  | nil => rfl
  | cons u r ih =>
    by_cases holds : p u = true
    · rw [bare_ordinary (ordinary u holds), List.dropWhile_cons_of_pos holds,
        List.dropWhile_cons_of_pos holds, ih]
    · obtain ⟨r', same, -⟩ := bare_cons inSet u r
      rw [List.dropWhile_cons_of_neg holds, same, List.dropWhile_cons_of_neg holds]

/-- Units of the class are taken off both texts. -/
theorem drop_bare {count : Nat} (within : count ≤ (t.takeWhile p).length) :
    (bare inSet t).drop count = bare inSet (t.drop count) := by
  have front : t.take count = (t.takeWhile p).take count := take_eq_of_takeWhile within
  have size : (t.take count).length = count := by
    rw [front, List.length_take_of_le within]
  have passes : ∀ u ∈ t.take count, Ordinary u := by
    intro u inside
    rw [front] at inside
    exact ordinary u (List.mem_takeWhile_imp (List.mem_of_mem_take inside))
  calc (bare inSet t).drop count = (bare inSet (t.take count ++ t.drop count)).drop count := by
        rw [List.take_append_drop]
    _ = (t.take count ++ bare inSet (t.drop count)).drop count := by rw [bare_append passes]
    _ = bare inSet (t.drop count) := List.drop_left' size

end Class

/-! ## Two readings at once -/

/-- The second reading gives what the first one gives, and leaves the rewritten rest of it. -/
def Carries {β : Type} (inSet : Bool) (x y : Option (β × Text)) : Prop :=
  ∀ b rest, x = some (b, rest) → y = some (b, bare inSet rest)

namespace Carries

variable {β γ : Type} {inSet inSet' : Bool} {x y x' y' : Option (β × Text)}

theorem none : Carries inSet (none : Option (β × Text)) y := fun _ _ absurd => nomatch absurd

theorem some {b : β} {rest left : Text} (same : left = bare inSet rest) :
    Carries inSet (some (b, rest)) (some (b, left)) := by
  intro b' rest' read
  cases read
  rw [same]

theorem ite {p : Prop} [Decidable p] (yes : p → Carries inSet x y)
    (no : ¬p → Carries inSet x' y') : Carries inSet (if p then x else x') (if p then y else y') :=
  rel_ite yes no

theorem bind (first : Carries inSet x y) {f g : β × Text → Option (γ × Text)}
    (then' : ∀ b rest, Carries inSet' (f (b, rest)) (g (b, bare inSet rest))) :
    Carries inSet' (x >>= f) (y >>= g) := by
  intro c rest read
  obtain ⟨⟨b, middle⟩, here, read⟩ := Option.bind_eq_some_iff.1 read
  rw [first b middle here]
  exact then' b middle c rest read

theorem map (first : Carries inSet x y) (f : β → γ) :
    Carries inSet (x.map fun read => (f read.1, read.2)) (y.map fun read => (f read.1, read.2)) := by
  intro c rest read
  obtain ⟨⟨b, left⟩, here, same⟩ := Option.map_eq_some_iff.1 read
  cases same
  rw [first b left here]
  rfl

end Carries

/-! ## Quantifiers -/

/-- What a reading gives, with the rest rewritten. -/
def rewritten {β : Type} (inSet : Bool) (x : Option (β × Text)) : Option (β × Text) :=
  x.map fun read => (read.1, bare inSet read.2)

theorem readCount_bare (t : Text) : readCount (bare inSet t) = rewritten inSet (readCount t) := by
  unfold readCount
  rw [takeWhile_bare (p := CodeUnit.isDigit) fun _ => .of_digit,
    dropWhile_bare (p := CodeUnit.isDigit) fun _ => .of_digit]
  cases t.takeWhile CodeUnit.isDigit <;> rfl

/-- The bounds between braces hold ordinary units only, so they are there in both texts or in
neither. -/
theorem readBounds_bare (t : Text) : readBounds (bare inSet t) = rewritten inSet (readBounds t) := by
  unfold readBounds
  rw [readCount_bare]
  cases readCount t with
  | none => rfl
  | some counted =>
    obtain ⟨least, t⟩ := counted
    cases t with
    | nil => rfl
    | cons u r =>
      obtain ⟨r', same, goesOn⟩ := bare_cons inSet u r
      simp only [rewritten, Option.map_some, Option.bind_eq_bind, Option.bind_some, same]
      by_cases closing : u = unit '\x7d'
      · rw [if_pos closing, if_pos closing, goesOn (by rw [closing]; decide)]
        rfl
      rw [if_neg closing, if_neg closing]
      by_cases comma : u = unit ','
      · rw [if_pos comma, if_pos comma, goesOn (by rw [comma]; decide)]
        cases r with
        | nil => rfl
        | cons v r =>
          obtain ⟨behind, same, goesOn⟩ := bare_cons inSet v r
          have counts : readCount (bare inSet (v :: r)) = rewritten inSet (readCount (v :: r)) :=
            readCount_bare (v :: r)
          rw [same] at counts ⊢
          dsimp only
          by_cases closing : v = unit '\x7d'
          · rw [if_pos closing, if_pos closing, goesOn (by rw [closing]; decide)]
            rfl
          rw [if_neg closing, if_neg closing, counts]
          cases readCount (v :: r) with
          | none => rfl
          | some counted =>
            obtain ⟨most, t⟩ := counted
            cases t with
            | nil => rfl
            | cons w rest =>
              obtain ⟨last, same, goesOn⟩ := bare_cons inSet w rest
              simp only [rewritten, Option.map_some, Option.bind_some, same]
              by_cases closing : w = unit '\x7d'
              · rw [if_pos closing, if_pos closing, goesOn (by rw [closing]; decide)]
                rfl
              · rw [if_neg closing, if_neg closing]
                rfl
      · rw [if_neg comma, if_neg comma]
        rfl

theorem quantifierBounds_bare (t : Text) :
    quantifierBounds (bare inSet t) = rewritten inSet (quantifierBounds t) := by
  cases t with
  | nil => rfl
  | cons u r =>
    obtain ⟨r', same, goesOn⟩ := bare_cons inSet u r
    rw [same]
    unfold quantifierBounds
    dsimp only
    by_cases star : u = unit '*'
    · rw [if_pos star, if_pos star, goesOn (by rw [star]; decide)]
      rfl
    rw [if_neg star, if_neg star]
    by_cases plus : u = unit '+'
    · rw [if_pos plus, if_pos plus, goesOn (by rw [plus]; decide)]
      rfl
    rw [if_neg plus, if_neg plus]
    by_cases mark : u = unit '?'
    · rw [if_pos mark, if_pos mark, goesOn (by rw [mark]; decide)]
      rfl
    rw [if_neg mark, if_neg mark]
    by_cases brace : u = unit '\x7b'
    · rw [if_pos brace, if_pos brace, goesOn (by rw [brace]; decide)]
      exact readBounds_bare r
    · rw [if_neg brace, if_neg brace]
      rfl

theorem readQuantifier_bare (t : Text) :
    readQuantifier (bare inSet t) = rewritten inSet (readQuantifier t) := by
  unfold readQuantifier
  rw [quantifierBounds_bare]
  cases quantifierBounds t with
  | none => rfl
  | some bounds =>
    obtain ⟨⟨least, most⟩, rest⟩ := bounds
    simp only [rewritten, Option.map_some]
    by_cases disordered : most.any (· < least) = true
    · rw [if_pos disordered, if_pos disordered]
      rfl
    rw [if_neg disordered, if_neg disordered]
    cases rest with
    | nil => rfl
    | cons u r =>
      obtain ⟨r', same, goesOn⟩ := bare_cons inSet u r
      rw [same]
      dsimp only
      by_cases mark : u = unit '?'
      · rw [if_pos mark, if_pos mark, goesOn (by rw [mark]; decide)]
        rfl
      · rw [if_neg mark, if_neg mark, ← same]
        rfl

/-! ## Escaped units -/

theorem readHex_bare (count : Nat) (t : Text) :
    readHex count (bare inSet t) = rewritten inSet (readHex count t) := by
  have ordinary (u : CodeUnit) (digit : u.isHexDigit = true) : Ordinary u := .of_hexDigit digit
  have same : (bare inSet t).takeWhile CodeUnit.isHexDigit = t.takeWhile CodeUnit.isHexDigit :=
    takeWhile_bare ordinary t
  unfold readHex
  by_cases within : count ≤ (t.takeWhile CodeUnit.isHexDigit).length
  · have within' : count ≤ ((bare inSet t).takeWhile CodeUnit.isHexDigit).length := same ▸ within
    rw [if_pos (all_take_iff.2 within'), if_pos (all_take_iff.2 within),
      take_eq_of_takeWhile within', same, drop_bare ordinary within, take_eq_of_takeWhile within]
    rfl
  · rw [if_neg fun all => within (same ▸ all_take_iff.1 all),
      if_neg fun all => within (all_take_iff.1 all)]
    rfl

theorem readOctal_bare (t : Text) :
    readOctal (bare inSet t) = ((readOctal t).1, bare inSet (readOctal t).2) := by
  have ordinary (u : CodeUnit) (digit : isOctal u = true) : Ordinary u := .of_octal digit
  have digits : ((bare inSet t).take 3).takeWhile isOctal = (t.take 3).takeWhile isOctal := by
    rw [takeWhile_take, takeWhile_take, takeWhile_bare ordinary]
  have within (n : Nat) : (((t.take 3).takeWhile isOctal).take n).length ≤
      (t.takeWhile isOctal).length := by
    rw [takeWhile_take, List.length_take, List.length_take]
    omega
  unfold readOctal
  dsimp only
  rw [digits]
  split
  · have all := within ((t.take 3).takeWhile isOctal).length
    rw [List.take_length] at all
    rw [drop_bare ordinary all]
  · rw [drop_bare ordinary (within 2)]

/-- The second groups are some of the first ones, as far as an escape can tell. -/
structure Fewer (groups groups' : Groups) : Prop where
  named : groups'.named = true → groups.named = true
  length : groups'.length ≤ groups.length

variable {groups groups' : Groups}

theorem readUnitEscape_carries (fewer : Fewer groups groups') (inSet outer : Bool) (u : CodeUnit)
    (r : Text) : Carries inSet (readUnitEscape groups outer (u :: r))
      (readUnitEscape groups' outer (u :: bare inSet r)) := by
  unfold readUnitEscape
  dsimp only
  refine .ite (fun _ => .some rfl) fun _ => ?_
  refine .ite (fun _ => .some rfl) fun _ => ?_
  refine .ite (fun _ => .some rfl) fun _ => ?_
  refine .ite (fun _ => .some rfl) fun _ => ?_
  refine .ite (fun _ => .some rfl) fun _ => ?_
  refine .ite (fun octal => ?_) fun _ => ?_
  · rw [← bare_ordinary (.of_octal octal), readOctal_bare]
    exact .some rfl
  refine .ite (fun control => ?_) fun _ => ?_
  · have stays : u :: bare inSet r = bare inSet (u :: r) :=
      (bare_ordinary (by rw [control]; decide)).symm
    cases r with
    | nil => exact .some stays
    | cons v rest =>
      obtain ⟨r', same, goesOn⟩ := bare_cons inSet v rest
      rw [same] at stays ⊢
      refine .ite (fun controlled => .some (goesOn ?_)) fun _ => .some stays
      have word : v.isWord = true := by
        simp only [CodeUnit.isWord, Bool.or_eq_true, Bool.and_eq_true, decide_eq_true_eq,
          beq_iff_eq] at controlled ⊢
        obtain letter | ⟨-, digit | underscore⟩ := controlled
        · exact .inl (.inl letter)
        · exact .inl (.inr digit)
        · exact .inr underscore
      exact .of_word word
  · have hex (count : Nat) : Carries inSet (some ((readHex count r).getD (u, r)))
        (some ((readHex count (bare inSet r)).getD (u, bare inSet r))) := by
      rw [readHex_bare]
      cases readHex count r with
      | none => exact .some rfl
      | some found => exact .some rfl
    refine .ite (fun _ => hex 2) fun _ => ?_
    refine .ite (fun _ => hex 4) fun _ => ?_
    by_cases named : (u = unit 'k' && groups.named) = true
    · rw [if_pos named]
      exact .none
    · rw [if_neg named, if_neg]
      · exact .some rfl
      · intro named'
        rw [Bool.and_eq_true] at named named'
        exact named ⟨named'.1, fewer.named named'.2⟩

/-! ## Bracketed sets -/

theorem head?_bare (inSet : Bool) (t : Text) : (bare inSet t).head? = t.head? := by
  cases t with
  | nil => rfl
  | cons u r =>
    obtain ⟨r', same, -⟩ := bare_cons inSet u r
    rw [same]
    rfl

/-- An item of a set that does not start with the closing bracket. -/
theorem readSetAtom_carries (fewer : Fewer groups groups') (open_ : t.head? ≠ some (unit ']')) :
    Carries true (readSetAtom groups t) (readSetAtom groups' (bare true t)) := by
  cases t with
  | nil => exact .none
  | cons u r =>
    by_cases escape : u = unit '\\'
    · subst escape
      cases r with
      | nil => exact .none
      | cons letter rest =>
        rw [bare_escape]
        unfold readSetAtom
        refine .ite (fun other => (other rfl).elim) fun _ => ?_
        dsimp only
        cases classRanges? letter with
        | some ranges => exact .some rfl
        | none =>
          refine .ite (fun _ => .some rfl) fun _ => ?_
          exact (readUnitEscape_carries fewer true true letter rest).map Sum.inl
    · rw [bare_inside escape fun closing => open_ (congrArg some closing)]
      unfold readSetAtom
      exact .ite (fun _ => .some rfl) fun absurd => (absurd escape).elim

/-- The ranges of a set end behind its closing bracket. -/
theorem readRanges_carries (fewer : Fewer groups groups') (fuel : Nat) (t : Text) :
    Carries false (readRanges groups fuel t) (readRanges groups' fuel (bare true t)) := by
  induction fuel generalizing t with
  | zero => exact .none
  | succ fuel ih =>
    cases t with
    | nil => exact .none
    | cons u r =>
      by_cases closing : u = unit ']'
      · subst closing
        rw [bare_closing]
        unfold readRanges
        dsimp only
        rw [if_pos rfl, if_pos rfl]
        exact .some rfl
      obtain ⟨r', same, -⟩ := bare_cons true u r
      have atom := readSetAtom_carries (t := u :: r) fewer fun head =>
        closing (Option.some.inj head)
      rw [same] at atom ⊢
      unfold readRanges
      dsimp only
      rw [if_neg closing, if_neg closing]
      refine .bind atom fun first t => ?_
      cases t with
      | nil => exact .none
      | cons dash r =>
        obtain ⟨r', same, goesOn⟩ := bare_cons true dash r
        rw [same]
        dsimp only
        by_cases single : dash ≠ unit '-'
        · rw [if_pos single, if_pos single, ← same]
          exact .bind (ih _) fun ranges t => .some rfl
        obtain rfl : dash = unit '-' := Decidable.not_not.1 single
        obtain rfl := goesOn (by decide)
        rw [if_neg single, if_neg single, head?_bare]
        by_cases last : r.head? = some (unit ']')
        · rw [if_pos last, if_pos last]
          obtain ⟨r, rfl⟩ := List.head?_eq_some_iff.1 last
          rw [bare_closing]
          exact .some rfl
        rw [if_neg last, if_neg last]
        refine .bind (readSetAtom_carries fewer last) fun second t => ?_
        refine .bind (ih t) fun ranges t => ?_
        dsimp only
        split
        · exact .ite (fun _ => .none) fun _ => .some rfl
        · exact .some rfl

theorem readSet_carries (fewer : Fewer groups groups') (t : Text) :
    Carries false (readSet groups t) (readSet groups' (bare true t)) := by
  intro e rest read
  obtain ⟨⟨ranges, left⟩, inside, read⟩ := Option.bind_eq_some_iff.1 read
  cases read
  have members := readRanges_carries fewer _ _ ranges rest inside
  have size : (bare true (if t.head? = some (unit '^') then t.drop 1 else t)).length <
      (bare true t).length + 1 ∧
      bare true (if t.head? = some (unit '^') then t.drop 1 else t) =
        if (bare true t).head? = some (unit '^') then (bare true t).drop 1 else bare true t := by
    rw [head?_bare]
    split
    · rename_i negated
      obtain ⟨r, rfl⟩ := List.head?_eq_some_iff.1 negated
      rw [bare_ordinary (by decide)]
      exact ⟨Nat.lt_succ_of_lt (Nat.lt_succ_self _), rfl⟩
    · exact ⟨Nat.lt_succ_self _, rfl⟩
  obtain ⟨above, same⟩ := size
  have enough := readRanges_enough members above
  rw [same] at enough
  refine Option.bind_eq_some_iff.2 ⟨(ranges, bare false rest), enough, ?_⟩
  dsimp only
  rw [head?_bare]

/-! ## Names -/

/-- An escape stands at the front of both texts or of neither. -/
theorem take_two_bare {letter : CodeUnit} :
    (bare inSet t).take 2 = [unit '\\', letter] ↔ t.take 2 = [unit '\\', letter] := by
  cases t with
  | nil => rfl
  | cons u r =>
    by_cases escape : u = unit '\\'
    · subst escape
      cases r with
      | nil => rfl
      | cons v r =>
        rw [bare_escape]
        rfl
    · obtain ⟨r', same, -⟩ := bare_cons inSet u r
      have first {r : Text} : (u :: r).take 2 ≠ [unit '\\', letter] := by
        intro both
        rw [List.take_succ_cons] at both
        exact escape (List.cons.inj both).1
      rw [same]
      exact ⟨fun both => (first both).elim, fun both => (first both).elim⟩

/-- Another escape of four digits stands at the front. -/
def FourDigits (t : Text) : Prop :=
  t.take 2 = Text.ofString "\\u" ∧ 6 ≤ t.length ∧ ((t.drop 2).take 4).all CodeUnit.isHexDigit = true

instance (t : Text) : Decidable (FourDigits t) := inferInstanceAs (Decidable (_ ∧ _ ∧ _))

theorem fourDigits_iff {r : Text} : FourDigits (unit '\\' :: unit 'u' :: r) ↔
    4 ≤ (r.takeWhile CodeUnit.isHexDigit).length := by
  rw [← all_take_iff]
  unfold FourDigits
  rw [List.length_cons, List.length_cons]
  exact ⟨fun ⟨_, size, digits⟩ => ⟨by omega, digits⟩, fun ⟨size, digits⟩ => ⟨rfl, by omega, digits⟩⟩

/-- An escape of four digits stands in front of both texts or of neither. -/
theorem fourDigits_bare : FourDigits (bare false t) ↔ FourDigits t := by
  by_cases escape : t.take 2 = Text.ofString "\\u"
  · obtain ⟨r, rfl⟩ : ∃ r, t = unit '\\' :: unit 'u' :: r := by
      refine ⟨t.drop 2, ?_⟩
      calc t = t.take 2 ++ t.drop 2 := (List.take_append_drop 2 t).symm
        _ = _ := by rw [escape]; rfl
    rw [bare_escape, fourDigits_iff, fourDigits_iff,
      takeWhile_bare (p := CodeUnit.isHexDigit) fun _ => .of_hexDigit]
  · exact ⟨fun four => (escape (take_two_bare.1 four.1)).elim, fun four => (escape four.1).elim⟩

theorem FourDigits.behind (four : FourDigits t) :
    ((bare false t).drop 2).take 4 = (t.drop 2).take 4 ∧
      (bare false t).drop 6 = bare false (t.drop 6) := by
  obtain ⟨r, rfl⟩ : ∃ r, t = unit '\\' :: unit 'u' :: r := by
    refine ⟨t.drop 2, ?_⟩
    calc t = t.take 2 ++ t.drop 2 := (List.take_append_drop 2 t).symm
      _ = _ := by rw [four.1]; rfl
  have ordinary (u : CodeUnit) (digit : u.isHexDigit = true) : Ordinary u := .of_hexDigit digit
  have within := fourDigits_iff.1 four
  have same : (bare false r).takeWhile CodeUnit.isHexDigit = r.takeWhile CodeUnit.isHexDigit :=
    takeWhile_bare ordinary r
  rw [bare_escape]
  refine ⟨?_, drop_bare ordinary within⟩
  change (bare false r).take 4 = r.take 4
  rw [take_eq_of_takeWhile (same ▸ within), same, take_eq_of_takeWhile within]

/-- A code point spelled by four digits, or by four and four more behind another escape. -/
def readUnits (t : Text) : Option (Nat × Text) :=
  if 4 ≤ t.length ∧ (t.take 4).all CodeUnit.isHexDigit then
    let lead : CodeUnit := (Text.hexadecimal (t.take 4)).toUInt16
    let trail : CodeUnit := (Text.hexadecimal (((t.drop 4).drop 2).take 4)).toUInt16
    if lead.isLeading ∧ FourDigits (t.drop 4) ∧ trail.isTrailing then
      some (CodeUnit.pair lead trail, (t.drop 4).drop 6)
    else some (lead.toNat, t.drop 4)
  else none

theorem readCodePoint_eq (brace : u ≠ unit '\x7b') : readCodePoint (u :: r) = readUnits (u :: r) := by
  unfold readCodePoint readUnits
  refine (if_neg brace).trans ?_
  refine if_ctx_congr Iff.rfl (fun digits => ?_) fun _ => rfl
  rw [List.drop_drop, List.drop_drop]
  refine if_ctx_congr ?_ (fun _ => rfl) fun _ => rfl
  unfold FourDigits
  rw [List.length_drop, List.drop_drop]
  have size := digits.1
  constructor
  · rintro ⟨leading, escape, long, four, trailing⟩
    exact ⟨leading, ⟨escape, by omega, four⟩, trailing⟩
  · rintro ⟨leading, ⟨escape, long, four⟩, trailing⟩
    exact ⟨leading, escape, by omega, four, trailing⟩

theorem readUnits_carries (t : Text) : Carries false (readUnits t) (readUnits (bare false t)) := by
  have ordinary (u : CodeUnit) (digit : u.isHexDigit = true) : Ordinary u := .of_hexDigit digit
  have same : (bare false t).takeWhile CodeUnit.isHexDigit = t.takeWhile CodeUnit.isHexDigit :=
    takeWhile_bare ordinary t
  unfold readUnits
  by_cases within : 4 ≤ (t.takeWhile CodeUnit.isHexDigit).length
  · have within' : 4 ≤ ((bare false t).takeWhile CodeUnit.isHexDigit).length := same ▸ within
    rw [if_pos (all_take_iff.2 within), if_pos (all_take_iff.2 within'),
      take_eq_of_takeWhile within', same, ← take_eq_of_takeWhile within, drop_bare ordinary within]
    by_cases four : FourDigits (t.drop 4)
    · obtain ⟨trail, behind⟩ := four.behind
      rw [trail, behind]
      simp only [four, fourDigits_bare.2 four]
      exact .ite (fun _ => .some rfl) fun _ => .some rfl
    · rw [if_neg fun paired => four paired.2.1,
        if_neg fun paired => four (fourDigits_bare.1 paired.2.1)]
      exact .some rfl
  · rw [if_neg fun all => within (all_take_iff.1 all)]
    exact .none

theorem readCodePoint_carries (t : Text) :
    Carries false (readCodePoint t) (readCodePoint (bare false t)) := by
  have ordinary (u : CodeUnit) (digit : u.isHexDigit = true) : Ordinary u := .of_hexDigit digit
  cases t with
  | nil => exact .none
  | cons u r =>
    by_cases brace : u = unit '\x7b'
    · subst brace
      rw [bare_ordinary (by decide)]
      unfold readCodePoint
      refine .ite (fun _ => ?_) fun absurd => (absurd rfl).elim
      dsimp only
      rw [takeWhile_bare ordinary, dropWhile_bare ordinary]
      cases r.dropWhile CodeUnit.isHexDigit with
      | nil => exact .none
      | cons v rest =>
        obtain ⟨r', same, goesOn⟩ := bare_cons false v rest
        rw [same]
        exact .ite (fun closing => .some (goesOn (by rw [closing.1]; decide))) fun _ => .none
    have carries := readUnits_carries (u :: r)
    obtain ⟨r', same, -⟩ := bare_cons false u r
    rw [same] at carries ⊢
    rwa [readCodePoint_eq brace, readCodePoint_eq brace]

/-- A code point that a name can hold is spelled with units that stay. -/
theorem readScalar_bare {n : Nat} (read : readScalar t = some (n, rest))
    (opening : n ≠ (unit '[').toNat) (group : n ≠ (unit '(').toNat) :
    readScalar (bare false t) = some (n, bare false rest) := by
  cases t with
  | nil => cases read
  | cons u r =>
    unfold readScalar at read
    by_cases escape : u = unit '\\'
    · subst escape
      dsimp only at read
      rw [if_pos rfl] at read
      cases r with
      | nil => cases read
      | cons v r =>
        dsimp only at read
        split at read
        · rename_i letter
          rw [bare_escape, readScalar, if_pos rfl]
          exact (if_pos letter).trans (readCodePoint_carries r n rest read)
        · cases read
    dsimp only at read
    rw [if_neg escape] at read
    cases r with
    | nil =>
      cases read
      rw [bare_outside escape (fun same => opening (congrArg _ same))
        (fun same => group (congrArg _ same))]
      unfold readScalar
      exact if_neg escape
    | cons v r =>
      dsimp only at read
      split at read
      · rename_i pair
        rw [Bool.and_eq_true] at pair
        obtain ⟨rfl, rfl⟩ := Prod.mk.inj (Option.some.inj read)
        have leading : Ordinary u := .of_class pair.1 (by decide) (by decide)
        have trailing : Ordinary v := .of_class pair.2 (by decide) (by decide)
        have both : (u.isLeading && v.isTrailing) = true := Bool.and_eq_true_iff.2 pair
        rw [bare_ordinary leading, bare_ordinary trailing]
        unfold readScalar
        exact (if_neg escape).trans (if_pos both)
      · rename_i single
        cases read
        rw [bare_outside escape (fun same => opening (congrArg _ same))
          (fun same => group (congrArg _ same))]
        obtain ⟨r', same, -⟩ := bare_cons false v r
        rw [same]
        unfold readScalar
        exact (if_neg escape).trans (if_neg single)

theorem readNameRest_carries (fuel : Nat) (t : Text) :
    Carries false (readNameRest fuel t) (readNameRest fuel (bare false t)) := by
  induction fuel generalizing t with
  | zero => exact .none
  | succ fuel ih =>
    intro name rest read
    obtain ⟨⟨n, t'⟩, scalar, read⟩ := Option.bind_eq_some_iff.1 read
    have known : n = 0x3E ∨ continuesName n = true := by
      dsimp only at read
      split at read
      · exact .inl (by assumption)
      · split at read
        · exact .inr (by assumption)
        · cases read
    refine Option.bind_eq_some_iff.2 ⟨(n, bare false t'), readScalar_bare scalar ?_ ?_, ?_⟩
    · rintro rfl
      revert known
      decide +kernel
    · rintro rfl
      revert known
      decide +kernel
    · dsimp only at read ⊢
      by_cases closing : n = 0x3E
      · rw [if_pos closing] at read ⊢
        cases read
        rfl
      rw [if_neg closing] at read ⊢
      by_cases goesOn : continuesName n = true
      · rw [if_pos goesOn] at read ⊢
        obtain ⟨⟨others, last⟩, further, read⟩ := Option.bind_eq_some_iff.1 read
        cases read
        exact Option.bind_eq_some_iff.2 ⟨(others, bare false last), ih t' others last further, rfl⟩
      · rw [if_neg goesOn] at read
        cases read

theorem readName_carries (t : Text) : Carries false (readName t) (readName (bare false t)) := by
  intro name rest read
  obtain ⟨⟨n, t'⟩, scalar, read⟩ := Option.bind_eq_some_iff.1 read
  dsimp only at read
  split at read
  · rename_i starts
    obtain ⟨⟨others, last⟩, further, read⟩ := Option.bind_eq_some_iff.1 read
    cases read
    have scalar' : readScalar (bare false t) = some (n, bare false t') := by
      refine readScalar_bare scalar ?_ ?_
      · rintro rfl
        revert starts
        decide +kernel
      · rintro rfl
        revert starts
        decide +kernel
    have above : (bare false t').length < (bare false t).length + 1 := by
      cases whole : bare false t with
      | nil =>
        rw [whole] at scalar'
        cases scalar'
      | cons u r =>
        rw [whole] at scalar'
        have shorter := (readScalar_leavesEnd u r n _ scalar').length_le
        rw [List.length_cons]
        omega
    have enough := readNameRest_enough (readNameRest_carries _ t' others last further) above
    refine Option.bind_eq_some_iff.2 ⟨(n, bare false t'), scalar', ?_⟩
    dsimp only
    rw [if_pos starts]
    exact Option.bind_eq_some_iff.2 ⟨(others, bare false last), enough, rfl⟩
  · cases read

/-! ## Marks of named groups -/

/-- A mark is a name of ASCII letters, digits and underscores between its signs. -/
theorem namedMark?_eq_some {length : Nat} (found : namedMark? t = some length) :
    ∃ sign name rest, (sign = Text.ofString "?P<" ∨ sign = Text.ofString "?<") ∧
      t = sign ++ (name ++ unit '>' :: rest) ∧ t.drop length = rest ∧
      ∀ u ∈ name, u.isWord = true := by
  have measured {sign : Text} {count : Nat} (starts : sign.isPrefixOf t = true)
      (named : nameLength? (unit '>') (t.drop sign.length) = some count) :
      ∃ name rest, t = sign ++ (name ++ unit '>' :: rest) ∧ t.drop (count + sign.length) = rest ∧
        ∀ u ∈ name, u.isWord = true := by
    obtain ⟨behind, rfl⟩ := List.isPrefixOf_iff_prefix.1 starts
    rw [List.drop_left] at named
    obtain ⟨name, rest, rfl, rfl, word⟩ := nameLength?_eq_some named
    refine ⟨name, rest, rfl, ?_, word⟩
    rw [Nat.add_comm, ← List.drop_drop, List.drop_left, ← List.drop_drop, List.drop_left]
    rfl
  unfold namedMark? at found
  split at found
  · rename_i starts
    obtain ⟨count, named, rfl⟩ := Option.map_eq_some_iff.1 found
    obtain ⟨name, rest, parts, behind, word⟩ := measured starts named
    exact ⟨_, name, rest, .inl rfl, parts, behind, word⟩
  · split at found
    · rename_i starts
      obtain ⟨count, named, rfl⟩ := Option.map_eq_some_iff.1 found
      obtain ⟨name, rest, parts, behind, word⟩ := measured starts named
      exact ⟨_, name, rest, .inr rfl, parts, behind, word⟩
    · cases found

theorem isLeading_of_isWord (word : u.isWord = true) : u.isLeading = false := by
  have small : u.toNat ≤ 122 := by
    have upper (c : Char) (bound : (unit c).toNat ≤ 122) (below : u ≤ unit c) : u.toNat ≤ 122 :=
      Nat.le_trans (UInt16.le_iff_toNat_le.1 below) bound
    simp only [CodeUnit.isWord, CodeUnit.isLetter, CodeUnit.isDigit, CodeUnit.isBetween,
      Bool.or_eq_true, Bool.and_eq_true, decide_eq_true_eq, beq_iff_eq] at word
    obtain ((⟨-, below⟩ | ⟨-, below⟩) | ⟨-, below⟩) | same := word
    · exact upper 'z' (by decide) below
    · exact upper 'Z' (by decide) below
    · exact upper '9' (by decide) below
    · exact upper '_' (by decide) (UInt16.le_of_eq same)
  have above : ¬ 0xD800 ≤ u := by
    rw [UInt16.le_iff_toNat_le]
    exact Nat.not_le_of_lt (Nat.lt_of_le_of_lt small (by decide))
  rw [CodeUnit.isLeading, decide_eq_false above, Bool.false_and]

/-- An ASCII unit is read as it stands. -/
theorem readScalar_ascii (plain : u ≠ unit '\\') (single : u.isLeading = false) :
    readScalar (u :: r) = some (u.toNat, r) := by
  unfold readScalar
  refine (if_neg plain).trans ?_
  cases r with
  | nil => rfl
  | cons v rest => exact if_neg (by rw [single, Bool.false_and]; exact Bool.false_ne_true)

theorem readScalar_word (word : u.isWord = true) : readScalar (u :: r) = some (u.toNat, r) :=
  readScalar_ascii (Ordinary.of_word word).escape (isLeading_of_isWord word)

/-- What is left behind a name of ASCII units is what stands behind its closing sign. -/
theorem readNameRest_word {fuel : Nat} {name found last : Text} (word : ∀ u ∈ name, u.isWord = true)
    (read : readNameRest fuel (name ++ unit '>' :: rest) = some (found, last)) : last = rest := by
  induction name generalizing fuel found with
  | nil =>
    cases fuel with
    | zero => cases read
    | succ fuel =>
      obtain ⟨⟨n, left⟩, scalar, read⟩ := Option.bind_eq_some_iff.1 read
      rw [List.nil_append, readScalar_ascii (by decide) (by decide)] at scalar
      cases scalar
      cases (if_pos rfl).symm.trans read
      rfl
  | cons u name ih =>
    cases fuel with
    | zero => cases read
    | succ fuel =>
      obtain ⟨⟨n, left⟩, scalar, read⟩ := Option.bind_eq_some_iff.1 read
      have here := word u List.mem_cons_self
      rw [List.cons_append, readScalar_word here] at scalar
      obtain ⟨rfl, rfl⟩ := Prod.mk.inj (Option.some.inj scalar)
      dsimp only at read
      split at read
      · rename_i closing
        obtain rfl : u = unit '>' := UInt16.toNat_inj.1 closing
        cases here
      · split at read
        · obtain ⟨⟨others, behind⟩, further, read⟩ := Option.bind_eq_some_iff.1 read
          cases read
          exact ih (fun v inside => word v (List.mem_cons_of_mem _ inside)) further
        · cases read

theorem readName_word {name found last : Text} (word : ∀ u ∈ name, u.isWord = true)
    (read : readName (name ++ unit '>' :: rest) = some (found, last)) : last = rest := by
  obtain ⟨⟨n, left⟩, scalar, read⟩ := Option.bind_eq_some_iff.1 read
  dsimp only at read
  split at read
  · rename_i starts
    obtain ⟨⟨others, behind⟩, further, read⟩ := Option.bind_eq_some_iff.1 read
    cases read
    cases name with
    | nil =>
      rw [List.nil_append, readScalar_ascii (by decide) (by decide)] at scalar
      obtain ⟨rfl, rfl⟩ := Prod.mk.inj (Option.some.inj scalar)
      have never : startsName (unit '>').toNat = false := by decide +kernel
      rw [never] at starts
      cases starts
    | cons u name =>
      rw [List.cons_append, readScalar_word (word u List.mem_cons_self)] at scalar
      obtain ⟨rfl, rfl⟩ := Prod.mk.inj (Option.some.inj scalar)
      exact readNameRest_word (fun v inside => word v (List.mem_cons_of_mem _ inside)) further
  · cases read

end Highlight.Regex
