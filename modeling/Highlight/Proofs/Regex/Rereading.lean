import Highlight.Proofs.Outcome
import Highlight.Proofs.Regex.Reference

/-!
# Reading with other groups

The reader is told which groups a reference can point at. A source without a reference by number
reads the same whatever number of nameless groups there are (`readWith?_unnumbered`): each part of
the reader gives the same for both lists of groups and leaves a text that is again without such a
reference, and the loops follow by induction on what bounds them.
-/

namespace Highlight.Regex

variable {inSet : Bool} {t rest : Text} {u v : CodeUnit} {r : Text}

/-! ## Two readings at once -/

/-- Two readings give the same, and leave a text of a kind. -/
structure Concur {β : Type} (kind : Text → Prop) (x y : Option (β × Text)) : Prop where
  same : x = y
  leaves : ∀ b rest, x = some (b, rest) → kind rest

namespace Concur

variable {β γ : Type} {kind kind' : Text → Prop} {x y : Option (β × Text)}

theorem none : Concur kind (none : Option (β × Text)) .none :=
  ⟨rfl, fun _ _ absurd => nomatch absurd⟩

theorem some {b : β} (h : kind rest) : Concur kind (some (b, rest)) (.some (b, rest)) := by
  refine ⟨rfl, fun b' rest' same => ?_⟩
  cases same
  exact h

/-- Two readings that branch alike. -/
theorem ite {p : Prop} [Decidable p] {x' y' : Option (β × Text)} (yes : p → Concur kind x y)
    (no : ¬p → Concur kind x' y') : Concur kind (if p then x else x') (if p then y else y') :=
  rel_ite yes no

theorem bind (first : Concur kind x y) {f g : β × Text → Option (γ × Text)}
    (then' : ∀ b rest, kind rest → Concur kind' (f (b, rest)) (g (b, rest))) :
    Concur kind' (x >>= f) (y >>= g) := by
  obtain ⟨rfl, leaves⟩ := first
  cases x with
  | none => exact none
  | some read =>
    obtain ⟨b, rest⟩ := read
    exact then' b rest (leaves b rest rfl)

theorem map (first : Concur kind x y) (f : β → γ) :
    Concur kind (x.map fun read => (f read.1, read.2)) (y.map fun read => (f read.1, read.2)) := by
  obtain ⟨rfl, leaves⟩ := first
  cases x with
  | none => exact none
  | some read => exact some (leaves read.1 read.2 rfl)

end Concur

/-! ## Quantifiers -/

theorem readCount_skips {n : Nat} (read : readCount t = some (n, rest)) : Skips t rest := by
  unfold readCount at read
  split at read
  · cases read
  · cases read
    exact .dropWhile (fun _ => .of_digit) t

theorem readBounds_skips {bounds : Nat × Option Nat} (read : readBounds t = some (bounds, rest)) :
    Skips t rest := by
  obtain ⟨⟨least, t'⟩, counted, read⟩ := Option.bind_eq_some_iff.1 read
  apply (readCount_skips counted).trans
  dsimp only at read
  split at read
  · cases read
  · rename_i u r
    split at read
    · rename_i closing
      cases read
      exact .cons (by rw [closing]; decide) rest
    · split at read
      · rename_i comma
        apply (Skips.cons (by rw [comma]; decide) r).trans
        split at read
        · cases read
        · rename_i v r'
          split at read
          · rename_i closing
            cases read
            exact .cons (by rw [closing]; decide) rest
          · obtain ⟨⟨most, t''⟩, counted, read⟩ := Option.bind_eq_some_iff.1 read
            apply (readCount_skips counted).trans
            dsimp only at read
            split at read
            · rename_i w last
              split at read
              · rename_i closing
                cases read
                exact .cons (by rw [closing]; decide) rest
              · cases read
            · cases read
      · cases read

theorem quantifierBounds_skips {bounds : Nat × Option Nat}
    (read : quantifierBounds t = some (bounds, rest)) : Skips t rest := by
  unfold quantifierBounds at read
  split at read
  · cases read
  · rename_i u r
    split at read
    · rename_i star
      cases read
      exact .cons (by rw [star]; decide) rest
    · split at read
      · rename_i plus
        cases read
        exact .cons (by rw [plus]; decide) rest
      · split at read
        · rename_i mark
          cases read
          exact .cons (by rw [mark]; decide) rest
        · split at read
          · rename_i brace
            exact (Skips.cons (by rw [brace]; decide) r).trans (readBounds_skips read)
          · cases read

theorem readQuantifier_skips {q : Option Quantifier} (read : readQuantifier t = some (q, rest)) :
    Skips t rest := by
  unfold readQuantifier at read
  split at read
  · cases read
    exact .refl t
  · rename_i least most after bounds
    apply (quantifierBounds_skips bounds).trans
    split at read
    · cases read
    · split at read
      · rename_i u r
        split at read
        · rename_i mark
          cases read
          exact .cons (by rw [mark]; decide) rest
        · cases read
          exact .refl _
      · cases read
        exact .refl _

theorem quantify_skips {e e' : Regex} (read : quantify e t = some (e', rest)) : Skips t rest := by
  obtain ⟨⟨q, t'⟩, quantified, read⟩ := Option.bind_eq_some_iff.1 read
  have skips := readQuantifier_skips quantified
  dsimp only at read
  split at read
  · cases read
    exact skips
  · cases read
    exact skips

theorem quantify_concur (h : Unnumbered false t) (e : Regex) :
    Concur (Unnumbered false) (quantify e t) (quantify e t) :=
  ⟨rfl, fun _ _ read => (quantify_skips read).unnumbered.1 h⟩

/-! ## Escaped units -/

/-- An octal escape takes its first digit and maybe more of them. -/
theorem readOctal_skips (octal : isOctal u = true) : Skips r (readOctal (u :: r)).2 := by
  have found : ((u :: r).take 3).takeWhile isOctal = u :: (r.take 2).takeWhile isOctal := by
    rw [List.take_succ_cons, List.takeWhile_cons_of_pos octal]
  have starts : (r.take 2).takeWhile isOctal <+: r :=
    (List.takeWhile_prefix _).trans (List.take_prefix 2 r)
  have plain : ∀ v ∈ (r.take 2).takeWhile isOctal, Plain v :=
    fun v inside => .of_octal (List.mem_takeWhile_imp inside)
  unfold readOctal
  simp only [found]
  split
  · exact .drop_within starts plain (Nat.le_refl _)
  · rw [List.take_succ_cons, List.length_cons, List.drop_succ_cons]
    exact .drop_within starts plain (List.length_take_le' 1 _)

theorem readHex_skips {count : Nat} {value : CodeUnit}
    (read : readHex count t = some (value, rest)) : Skips t rest := by
  unfold readHex at read
  split at read
  · rename_i digits
    cases read
    exact .drop fun u inside => .of_hexDigit (List.all_eq_true.1 digits.2 u inside)
  · cases read

/-- Two lists of groups in which no group has a name. -/
structure Nameless (groups groups' : Groups) : Prop where
  first : groups.named = false
  second : groups'.named = false

variable {groups groups' : Groups}

theorem readUnitEscape_concur (nameless : Nameless groups groups')
    (h : Unnumbered inSet (unit '\\' :: t)) :
    Concur (Unnumbered inSet) (readUnitEscape groups inSet t) (readUnitEscape groups' inSet t) := by
  unfold readUnitEscape
  rw [nameless.first, nameless.second]
  cases t with
  | nil => exact .none
  | cons u r =>
    have behind := h.behind_escape
    refine .ite (fun _ => .some behind) fun _ => ?_
    refine .ite (fun _ => .some behind) fun _ => ?_
    refine .ite (fun _ => .some behind) fun _ => ?_
    refine .ite (fun _ => .some behind) fun _ => ?_
    refine .ite (fun _ => .some behind) fun _ => ?_
    refine .ite (fun octal => .some ((readOctal_skips octal).unnumbered.1 behind)) fun _ => ?_
    refine .ite (fun control => ?_) fun _ => ?_
    · have stays : Unnumbered inSet (u :: r) :=
        (Unnumbered.behind_plain (by rw [control]; decide)).2 behind
      cases r with
      | nil => exact .some stays
      | cons v rest =>
        refine .ite (fun controlled => ?_) fun _ => .some stays
        have word : v.isWord = true := by
          simp only [CodeUnit.isWord, Bool.or_eq_true, Bool.and_eq_true, decide_eq_true_eq,
            beq_iff_eq] at controlled ⊢
          obtain letter | ⟨-, digit | underscore⟩ := controlled
          · exact .inl (.inl letter)
          · exact .inl (.inr digit)
          · exact .inr underscore
        exact .some ((Unnumbered.behind_plain (.of_word word)).1 behind)
    · have hex (count : Nat) :
          Concur (Unnumbered inSet) (some ((readHex count r).getD (u, r)))
            (some ((readHex count r).getD (u, r))) := by
        refine .some ?_
        cases read : readHex count r with
        | none => exact behind
        | some found => exact (readHex_skips read).unnumbered.1 behind
      refine .ite (fun _ => hex 2) fun _ => ?_
      refine .ite (fun _ => hex 4) fun _ => ?_
      exact .ite (fun _ => .none) fun _ => .some behind

/-! ## Bracketed sets -/

/-- An item of a set that does not start with the closing bracket. -/
theorem readSetAtom_concur (nameless : Nameless groups groups') (h : Unnumbered true t)
    (inside : t.head? ≠ some (unit ']')) :
    Concur (Unnumbered true) (readSetAtom groups t) (readSetAtom groups' t) := by
  unfold readSetAtom
  cases t with
  | nil => exact .none
  | cons u r =>
    refine .ite (fun ordinary => ?_) fun escape => ?_
    · exact .some (h.behind_inside ordinary fun closing => inside (congrArg some closing))
    · obtain rfl : u = unit '\\' := Decidable.not_not.1 escape
      cases r with
      | nil => exact .none
      | cons letter rest =>
        have behind := h.behind_escape
        dsimp only
        cases classRanges? letter with
        | some ranges => exact .some behind
        | none =>
          refine .ite (fun _ => .some behind) fun _ => ?_
          exact (readUnitEscape_concur nameless h).map Sum.inl

theorem readRanges_concur (nameless : Nameless groups groups') (fuel : Nat)
    (h : Unnumbered true t) :
    Concur (Unnumbered false) (readRanges groups fuel t) (readRanges groups' fuel t) := by
  induction fuel generalizing t with
  | zero => exact .none
  | succ fuel ih =>
    unfold readRanges
    cases t with
    | nil => exact .none
    | cons u r =>
      refine .ite (fun closing => ?_) fun inside => ?_
      · subst closing
        exact .some h.behind_closing
      · refine (readSetAtom_concur nameless h (fun head => inside (Option.some.inj head))).bind
          fun first t h => ?_
        dsimp only
        cases t with
        | nil => exact .none
        | cons dash r =>
          refine .ite (fun _ => ?_) fun other => ?_
          · exact (ih h).bind fun ranges rest h => .some h
          · obtain rfl : dash = unit '-' := Decidable.not_not.1 other
            have behind : Unnumbered true r := (Unnumbered.behind_plain (by decide)).1 h
            refine .ite (fun closing => ?_) fun inside => ?_
            · cases r with
              | nil => cases closing
              | cons v r =>
                obtain rfl := Option.some.inj closing
                exact .some behind.behind_closing
            · refine (readSetAtom_concur nameless behind inside).bind fun second t h => ?_
              refine (ih h).bind fun ranges rest h => ?_
              dsimp only
              split
              · exact .ite (fun _ => .none) fun _ => .some h
              · exact .some h

theorem readSet_concur (nameless : Nameless groups groups') (h : Unnumbered true t) :
    Concur (Unnumbered false) (readSet groups t) (readSet groups' t) := by
  have members : Unnumbered true (if t.head? = some (unit '^') then t.drop 1 else t) := by
    split
    · rename_i negated
      cases t with
      | nil => exact h
      | cons u r =>
        obtain rfl := Option.some.inj negated
        exact (Unnumbered.behind_plain (by decide)).1 h
    · exact h
  exact (readRanges_concur nameless _ members).bind fun ranges rest h => .some h

/-! ## Names -/

theorem readCodePoint_leaves {n : Nat} (h : Unnumbered inSet t)
    (read : readCodePoint t = some (n, rest)) : Unnumbered inSet rest := by
  unfold readCodePoint at read
  split at read
  · rename_i u r
    split at read
    · rename_i brace
      dsimp only at read
      split at read
      · rename_i v rest' digits
        split at read
        · rename_i closing
          cases read
          have skips : Skips (u :: r) (v :: rest) := by
            rw [← digits]
            exact (Skips.cons (by rw [brace]; decide) r).trans
              (.dropWhile (fun _ => .of_hexDigit) r)
          exact (skips.trans (.cons (by rw [closing.1]; decide) rest)).unnumbered.1 h
        · cases read
      · cases read
    · split at read
      · rename_i digits
        have skips : Skips (u :: r) ((u :: r).drop 4) :=
          .drop fun v inside => .of_hexDigit (List.all_eq_true.1 digits.2 v inside)
        have first : Unnumbered inSet ((u :: r).drop 4) := skips.unnumbered.1 h
        dsimp only at read
        split at read
        · rename_i pair
          obtain rfl := congrArg Prod.snd (Option.some.inj read)
          -- The second half of the pair is an escape of its own.
          obtain ⟨-, escape, -, digits, -⟩ := pair
          have letters : Text.ofString "\\u" = [unit '\\', unit 'u'] := by decide
          have parts : (u :: r).drop 4 = unit '\\' :: unit 'u' :: (u :: r).drop 6 := by
            rw [← List.take_append_drop 2 ((u :: r).drop 4), escape, letters, List.drop_drop]
            rfl
          rw [parts] at first
          have second := first.behind_escape
          have skips : Skips ((u :: r).drop 6) (((u :: r).drop 6).drop 4) :=
            .drop fun v inside => .of_hexDigit (List.all_eq_true.1 digits v inside)
          rw [List.drop_drop] at skips
          exact skips.unnumbered.1 second
        · cases read
          exact first
      · cases read
  · cases read

theorem readScalar_leaves {n : Nat} (h : Unnumbered false t) (read : readScalar t = some (n, rest))
    (other : n ≠ (unit '[').toNat) : Unnumbered false rest := by
  unfold readScalar at read
  split at read
  · cases read
  · rename_i u r
    split at read
    · rename_i escape
      subst escape
      split at read
      · rename_i v r
        split at read
        · exact readCodePoint_leaves h.behind_escape read
        · cases read
      · cases read
    · rename_i escape
      have ordinary (same : u.toNat = n) : Unnumbered false r :=
        h.behind_outside escape fun opening => other (by rw [← same, opening])
      split at read
      · rename_i v rest'
        split at read
        · rename_i pair
          obtain rfl := congrArg Prod.snd (Option.some.inj read)
          obtain ⟨leading, trailing⟩ := Bool.and_eq_true_iff.1 pair
          have skips : Skips (u :: v :: rest') rest' :=
            (Skips.cons (.of_class leading (by decide)) _).trans
              (.cons (.of_class trailing (by decide)) rest')
          exact skips.unnumbered.1 h
        · cases read
          exact ordinary rfl
      · cases read
        exact ordinary rfl

theorem readNameRest_leaves {name : Text} {fuel : Nat} (h : Unnumbered false t)
    (read : readNameRest fuel t = some (name, rest)) : Unnumbered false rest := by
  induction fuel generalizing t name with
  | zero => cases read
  | succ fuel ih =>
    obtain ⟨⟨n, t'⟩, scalar, read⟩ := Option.bind_eq_some_iff.1 read
    dsimp only at read
    split at read
    · rename_i closing
      cases read
      exact readScalar_leaves h scalar (by rw [closing]; decide)
    · split at read
      · rename_i continues
        obtain ⟨⟨name', t''⟩, others, same⟩ := Option.bind_eq_some_iff.1 read
        cases same
        refine ih (readScalar_leaves h scalar ?_) others
        rintro rfl
        revert continues
        decide +kernel
      · cases read

theorem readName_leaves {name : Text} (h : Unnumbered false t)
    (read : readName t = some (name, rest)) : Unnumbered false rest := by
  obtain ⟨⟨n, t'⟩, scalar, read⟩ := Option.bind_eq_some_iff.1 read
  dsimp only at read
  split at read
  · rename_i starts
    obtain ⟨⟨name', t''⟩, others, same⟩ := Option.bind_eq_some_iff.1 read
    cases same
    refine readNameRest_leaves (readScalar_leaves h scalar ?_) others
    rintro rfl
    revert starts
    decide +kernel
  · cases read

/-! ## Escapes and groups -/

theorem eq_zero (digit : u.isDigit = true) (small : u.isBetween '1' '9' = false) :
    u = unit '0' := by
  simp only [CodeUnit.isDigit, CodeUnit.isBetween, Bool.and_eq_true, Bool.and_eq_false_iff,
    decide_eq_true_eq, decide_eq_false_iff_not, UInt16.le_iff_toNat_le] at digit small
  have zero : (unit '0').toNat = 48 := rfl
  have one : (unit '1').toNat = 49 := rfl
  apply UInt16.toNat_inj.1
  omega

theorem readDigits_concur (nameless : Nameless groups groups')
    (h : Unnumbered false (unit '\\' :: u :: r)) (digit : u.isDigit = true) :
    Concur (Unnumbered false) (readDigits groups (u :: r)) (readDigits groups' (u :: r)) := by
  have zero : (u :: r).head? = some (unit '0') := congrArg some (eq_zero digit h.not_number)
  unfold readDigits
  rw [if_neg fun reference => reference.2.1 zero, if_neg fun reference => reference.2.1 zero]
  exact (readUnitEscape_concur nameless h).bind fun v rest h => quantify_concur h _

theorem readEscape_concur (nameless : Nameless groups groups')
    (h : Unnumbered false (unit '\\' :: t)) :
    Concur (Unnumbered false) (readEscape groups t) (readEscape groups' t) := by
  unfold readEscape
  rw [nameless.first, nameless.second]
  cases t with
  | nil => exact .none
  | cons u r =>
    have behind := h.behind_escape
    refine .ite (fun _ => .some behind) fun _ => ?_
    refine .ite (fun _ => .some behind) fun _ => ?_
    dsimp only
    cases classRanges? u with
    | some ranges => exact quantify_concur behind _
    | none =>
      refine .ite (fun digit => readDigits_concur nameless h digit) fun _ => ?_
      rw [Bool.and_false, if_neg Bool.false_ne_true, if_neg Bool.false_ne_true]
      exact (readUnitEscape_concur nameless h).bind fun v rest h => quantify_concur h _

/-- Two readers of expressions that read the same behind every text. -/
def Alike (inner inner' : Text → Option (Regex × Text)) : Prop :=
  ∀ t, Unnumbered false t → Concur (Unnumbered false) (inner t) (inner' t)

variable {inner inner' : Text → Option (Regex × Text)}

theorem readInside_concur (alike : Alike inner inner') (h : Unnumbered false t) :
    Concur (Unnumbered false) (readInside inner t) (readInside inner' t) := by
  refine (alike t h).bind fun e t h => ?_
  cases t with
  | nil => exact .none
  | cons u r =>
    refine .ite (fun closing => ?_) fun _ => .none
    subst closing
    exact .some ((Unnumbered.behind_plain (by decide)).1 h)

theorem readLook_concur (alike : Alike inner inner') (h : Unnumbered false t)
    (behind negated : Bool) :
    Concur (Unnumbered false) (readLook inner behind negated t)
      (readLook inner' behind negated t) := by
  refine (readInside_concur alike h).bind fun e rest h => ?_
  exact .ite (fun _ => .some h) fun _ => quantify_concur h _

theorem readGroup_concur (alike : Alike inner inner') (h : Unnumbered false t) :
    Concur (Unnumbered false) (readGroup inner t) (readGroup inner' t) := by
  have behind {opening r : Text} (plain : ∀ u ∈ opening, Plain u)
      (found : (if opening.isPrefixOf t then some (t.drop opening.length) else none) = some r) :
      Unnumbered false r := by
    split at found
    · rename_i starts
      cases found
      exact (Skips.drop_prefix starts plain).unnumbered.1 h
    · cases found
  unfold readGroup
  dsimp only
  split
  · rename_i found
    exact (readInside_concur alike (behind (Plain.of_all (by decide)) found)).bind
      fun e rest h => quantify_concur h e
  · rename_i found _
    exact readLook_concur alike (behind (Plain.of_all (by decide)) found) false false
  · rename_i found _ _
    exact readLook_concur alike (behind (Plain.of_all (by decide)) found) false true
  · rename_i found _ _ _
    exact readLook_concur alike (behind (Plain.of_all (by decide)) found) true false
  · rename_i found _ _ _ _
    exact readLook_concur alike (behind (Plain.of_all (by decide)) found) true true
  · rename_i found _ _ _ _ _
    have name : Concur (Unnumbered false) (readName _) (readName _) :=
      ⟨rfl, fun _ _ read => readName_leaves (behind (Plain.of_all (by decide)) found) read⟩
    refine name.bind fun _ r h => ?_
    exact (readInside_concur alike h).bind fun e rest h => quantify_concur h _
  · exact .none
  · exact (readInside_concur alike h).bind fun e rest h => quantify_concur h _

/-! ## Terms and alternatives -/

theorem readTerm_concur (nameless : Nameless groups groups') (alike : Alike inner inner')
    (h : Unnumbered false t) :
    Concur (Unnumbered false) (readTerm groups inner t) (readTerm groups' inner' t) := by
  unfold readTerm
  cases t with
  | nil => exact .none
  | cons u r =>
    have plain (c : Char) (same : u = unit c) (plain : Plain (unit c)) : Unnumbered false r :=
      (Unnumbered.behind_plain (same ▸ plain)).1 h
    refine .ite (fun same => .some (plain '^' same (by decide))) fun _ => ?_
    refine .ite (fun same => .some (plain '$' same (by decide))) fun _ => ?_
    refine .ite (fun same => readGroup_concur alike (plain '(' same (by decide))) fun _ => ?_
    refine .ite (fun same => quantify_concur (plain '.' same (by decide)) _) fun _ => ?_
    refine .ite (fun opening => ?_) fun ordinary => ?_
    · subst opening
      exact (readSet_concur nameless h.behind_opening).bind fun e rest h => quantify_concur h e
    refine .ite (fun escape => ?_) fun unescaped => ?_
    · subst escape
      exact readEscape_concur nameless h
    refine .ite (fun _ => .none) fun _ => quantify_concur (h.behind_outside unescaped ordinary) _

theorem readTerms_concur (nameless : Nameless groups groups') (alike : Alike inner inner')
    (fuel : Nat) (h : Unnumbered false t) :
    Concur (Unnumbered false) (readTerms groups inner fuel t)
      (readTerms groups' inner' fuel t) := by
  induction fuel generalizing t with
  | zero => exact .none
  | succ fuel ih =>
    unfold readTerms
    cases t with
    | nil => exact .some h
    | cons u r =>
      refine .ite (fun _ => .some h) fun _ => ?_
      refine (readTerm_concur nameless alike h).bind fun a t h => ?_
      exact (ih h).bind fun b t h => .some h

theorem readAlternatives_concur (nameless : Nameless groups groups') (alike : Alike inner inner')
    (fuel : Nat) (h : Unnumbered false t) :
    Concur (Unnumbered false) (readAlternatives groups inner fuel t)
      (readAlternatives groups' inner' fuel t) := by
  induction fuel generalizing t with
  | zero => exact .none
  | succ fuel ih =>
    refine (readTerms_concur nameless alike _ h).bind fun a t h => ?_
    cases t with
    | nil => exact .some h
    | cons u r =>
      refine .ite (fun bar => ?_) fun _ => .some h
      subst bar
      exact (ih ((Unnumbered.behind_plain (by decide)).1 h)).bind fun b t h => .some h

theorem readNested_alike (nameless : Nameless groups groups') (depth : Nat) :
    Alike (readNested groups depth) (readNested groups' depth) := by
  induction depth with
  | zero => exact fun t h => .none
  | succ depth ih => exact fun t h => readAlternatives_concur nameless ih _ h

/-- A source without a reference by number reads the same for any two lists of groups without
names. -/
theorem readWith?_unnumbered (nameless : Nameless groups groups') {source : Text}
    (h : Unnumbered false source) : readWith? groups source = readWith? groups' source := by
  unfold readWith?
  rw [(readNested_alike nameless _ source h).same]

end Highlight.Regex
