import Highlight.Proofs.Regex.Rereading

/-!
# The bounds on the loops of the reader

What a part of the reader leaves is the end of the text it was given (`readTerm_leavesEnd`), and each
turn of a loop takes at least one unit. So the bounds that the loops run on never show: a loop that
succeeds under some bound does so under every one that is above the length of its text
(`readTerms_enough`, `readAlternatives_enough`).
-/

namespace Highlight.Regex

/-- What is left of a text, if the reading succeeds, is the end of it. -/
def LeavesEnd {β : Type} (t : Text) (x : Option (β × Text)) : Prop :=
  ∀ b rest, x = some (b, rest) → rest <:+ t

namespace LeavesEnd

variable {β γ : Type} {t rest s : Text} {x y : Option (β × Text)}

theorem none : LeavesEnd t (none : Option (β × Text)) := fun _ _ absurd => nomatch absurd

theorem some {b : β} (ends : rest <:+ t) : LeavesEnd t (some (b, rest)) := by
  intro b' rest' same
  cases same
  exact ends

theorem ite {p : Prop} [Decidable p] (yes : p → LeavesEnd t x) (no : ¬p → LeavesEnd t y) :
    LeavesEnd t (if p then x else y) := by
  by_cases holds : p
  · rw [if_pos holds]
    exact yes holds
  · rw [if_neg holds]
    exact no holds

theorem bind (first : LeavesEnd t x) {f : β × Text → Option (γ × Text)}
    (then' : ∀ b rest, LeavesEnd rest (f (b, rest))) : LeavesEnd t (x >>= f) := by
  intro c rest read
  obtain ⟨⟨b, middle⟩, here, read⟩ := Option.bind_eq_some_iff.1 read
  exact (then' b middle c rest read).trans (first b middle here)

theorem map (first : LeavesEnd t x) (f : β → γ) :
    LeavesEnd t (x.map fun read => (f read.1, read.2)) := by
  intro c rest read
  obtain ⟨⟨b, left⟩, here, same⟩ := Option.map_eq_some_iff.1 read
  cases same
  exact first b left here

theorem behind (first : LeavesEnd t x) (ends : t <:+ s) : LeavesEnd s x := by
  intro b rest read
  exact (first b rest read).trans ends

end LeavesEnd

theorem Skips.isSuffix {t rest : Text} (skips : Skips t rest) : rest <:+ t := by
  obtain ⟨front, rfl, -⟩ := skips
  exact List.suffix_append front rest

variable {groups : Groups} {inner : Text → Option (Regex × Text)} {t r : Text} {u : CodeUnit}

/-! ## What is left -/

theorem quantify_leavesEnd (e : Regex) (t : Text) : LeavesEnd t (quantify e t) :=
  fun _ _ read => (quantify_skips read).isSuffix

theorem readUnitEscape_leavesEnd (groups : Groups) (inSet : Bool) (t : Text) :
    LeavesEnd t (readUnitEscape groups inSet t) := by
  unfold readUnitEscape
  cases t with
  | nil => exact .none
  | cons u r =>
    have tail : r <:+ u :: r := List.suffix_cons u r
    refine .ite (fun _ => .some tail) fun _ => ?_
    refine .ite (fun _ => .some tail) fun _ => ?_
    refine .ite (fun _ => .some tail) fun _ => ?_
    refine .ite (fun _ => .some tail) fun _ => ?_
    refine .ite (fun _ => .some tail) fun _ => ?_
    refine .ite (fun octal => .some ((readOctal_skips octal).isSuffix.trans tail)) fun _ => ?_
    refine .ite (fun _ => ?_) fun _ => ?_
    · cases r with
      | nil => exact .some (List.suffix_refl _)
      | cons v rest =>
        refine .ite (fun _ => .some ?_) fun _ => .some (List.suffix_refl _)
        exact (List.suffix_cons v rest).trans tail
    · have hex (count : Nat) : LeavesEnd (u :: r) (some ((readHex count r).getD (u, r))) := by
        refine .some ?_
        cases read : readHex count r with
        | none => exact tail
        | some found => exact (readHex_skips read).isSuffix.trans tail
      refine .ite (fun _ => hex 2) fun _ => ?_
      refine .ite (fun _ => hex 4) fun _ => ?_
      exact .ite (fun _ => .none) fun _ => .some tail

/-- An item of a set takes its first unit. -/
theorem readSetAtom_leavesEnd (groups : Groups) (u : CodeUnit) (r : Text) :
    LeavesEnd r (readSetAtom groups (u :: r)) := by
  unfold readSetAtom
  refine .ite (fun _ => .some (List.suffix_refl r)) fun _ => ?_
  cases r with
  | nil => exact .none
  | cons letter rest =>
    have tail : rest <:+ letter :: rest := List.suffix_cons letter rest
    dsimp only
    cases classRanges? letter with
    | some ranges => exact .some tail
    | none =>
      refine .ite (fun _ => .some tail) fun _ => ?_
      exact (readUnitEscape_leavesEnd groups true _).map Sum.inl

theorem readRanges_leavesEnd (groups : Groups) (fuel : Nat) (t : Text) :
    LeavesEnd t (readRanges groups fuel t) := by
  induction fuel generalizing t with
  | zero => exact .none
  | succ fuel ih =>
    unfold readRanges
    cases t with
    | nil => exact .none
    | cons u r =>
      have tail : r <:+ u :: r := List.suffix_cons u r
      refine .ite (fun _ => .some tail) fun _ => ?_
      refine .behind (.bind (readSetAtom_leavesEnd groups u r) fun first t => ?_) tail
      cases t with
      | nil => exact .none
      | cons dash r =>
        have tail : r <:+ dash :: r := List.suffix_cons dash r
        refine .ite (fun _ => .bind (ih _) fun ranges t => .some (List.suffix_refl t)) fun _ => ?_
        refine .ite (fun _ => .some ((List.drop_suffix 1 r).trans tail)) fun _ => ?_
        refine .behind (.bind (t := r) ?_ fun second t => .bind (ih t) fun ranges t => ?_) tail
        · cases r with
          | nil => exact .none
          | cons u r => exact (readSetAtom_leavesEnd groups u r).behind (List.suffix_cons u r)
        · dsimp only
          split
          · exact .ite (fun _ => .none) fun _ => .some (List.suffix_refl t)
          · exact .some (List.suffix_refl t)

theorem readSet_leavesEnd (groups : Groups) (t : Text) : LeavesEnd t (readSet groups t) := by
  refine .bind (.behind (readRanges_leavesEnd groups _ _) ?_) fun ranges t =>
    .some (List.suffix_refl t)
  split
  · exact List.drop_suffix 1 t
  · exact List.suffix_refl t

theorem readCodePoint_leavesEnd (t : Text) : LeavesEnd t (readCodePoint t) := by
  unfold readCodePoint
  cases t with
  | nil => exact .none
  | cons u r =>
    have tail : r <:+ u :: r := List.suffix_cons u r
    refine .ite (fun _ => ?_) fun _ => ?_
    · dsimp only
      split
      · rename_i v rest found
        refine .ite (fun _ => .some ?_) fun _ => .none
        exact ((List.suffix_cons v rest).trans (found ▸ List.dropWhile_suffix _)).trans tail
      · exact .none
    · refine .ite (fun _ => ?_) fun _ => .none
      exact .ite (fun _ => .some (List.drop_suffix _ _)) fun _ => .some (List.drop_suffix _ _)

/-- A code point of a name takes its first unit. -/
theorem readScalar_leavesEnd (u : CodeUnit) (r : Text) : LeavesEnd r (readScalar (u :: r)) := by
  unfold readScalar
  refine .ite (fun _ => ?_) fun _ => ?_
  · cases r with
    | nil => exact .none
    | cons v r =>
      refine .ite (fun _ => ?_) fun _ => .none
      exact (readCodePoint_leavesEnd r).behind (List.suffix_cons v r)
  · cases r with
    | nil => exact .some (List.suffix_refl _)
    | cons v rest =>
      exact .ite (fun _ => .some (List.suffix_cons v rest)) fun _ => .some (List.suffix_refl _)

theorem readNameRest_leavesEnd (fuel : Nat) (t : Text) : LeavesEnd t (readNameRest fuel t) := by
  induction fuel generalizing t with
  | zero => exact .none
  | succ fuel ih =>
    refine .bind ?_ fun n rest => ?_
    · cases t with
      | nil => exact .none
      | cons u r => exact (readScalar_leavesEnd u r).behind (List.suffix_cons u r)
    · refine .ite (fun _ => .some (List.suffix_refl rest)) fun _ => ?_
      refine .ite (fun _ => ?_) fun _ => .none
      exact .bind (ih rest) fun name rest => .some (List.suffix_refl rest)

theorem readName_leavesEnd (t : Text) : LeavesEnd t (readName t) := by
  refine .bind ?_ fun n rest => ?_
  · cases t with
    | nil => exact .none
    | cons u r => exact (readScalar_leavesEnd u r).behind (List.suffix_cons u r)
  · refine .ite (fun _ => ?_) fun _ => .none
    exact .bind (readNameRest_leavesEnd _ rest) fun name rest => .some (List.suffix_refl rest)

theorem readDigits_leavesEnd (groups : Groups) (t : Text) : LeavesEnd t (readDigits groups t) := by
  refine .ite (fun _ => ?_) fun _ => ?_
  · exact (quantify_leavesEnd _ _).behind (List.drop_suffix _ _)
  · exact .bind (readUnitEscape_leavesEnd groups false t) fun u rest => quantify_leavesEnd _ rest

theorem readEscape_leavesEnd (groups : Groups) (t : Text) : LeavesEnd t (readEscape groups t) := by
  unfold readEscape
  cases t with
  | nil => exact .none
  | cons u r =>
    have tail : r <:+ u :: r := List.suffix_cons u r
    refine .ite (fun _ => .some tail) fun _ => ?_
    refine .ite (fun _ => .some tail) fun _ => ?_
    dsimp only
    cases classRanges? u with
    | some ranges => exact (quantify_leavesEnd _ r).behind tail
    | none =>
      refine .ite (fun _ => readDigits_leavesEnd groups _) fun _ => ?_
      refine .ite (fun _ => ?_) fun _ => ?_
      · cases r with
        | nil => exact .none
        | cons v r =>
          refine .ite (fun _ => .behind ?_ ((List.suffix_cons v r).trans tail)) fun _ => .none
          refine .bind (readName_leavesEnd r) fun name rest => ?_
          intro e last read
          obtain ⟨index, -, read⟩ := Option.bind_eq_some_iff.1 read
          exact quantify_leavesEnd _ rest e last read
      · exact .bind (readUnitEscape_leavesEnd groups false _) fun u rest => quantify_leavesEnd _ rest

section Inner

variable (leaves : ∀ t, LeavesEnd t (inner t))
include leaves

theorem readInside_leavesEnd (t : Text) : LeavesEnd t (readInside inner t) := by
  refine .bind (leaves t) fun e t => ?_
  cases t with
  | nil => exact .none
  | cons u r => exact .ite (fun _ => .some (List.suffix_cons u r)) fun _ => .none

theorem readLook_leavesEnd (behind negated : Bool) (t : Text) :
    LeavesEnd t (readLook inner behind negated t) := by
  refine .bind (readInside_leavesEnd leaves t) fun e rest => ?_
  exact .ite (fun _ => .some (List.suffix_refl rest)) fun _ => quantify_leavesEnd _ rest

/-- A group whose inside is read as it stands. -/
def readCapture (inner : Text → Option (Regex × Text)) (t : Text) : Option (Regex × Text) := do
  let (e, rest) ← readInside inner t
  quantify (capture 0 e) rest

theorem readCapture_leavesEnd (t : Text) : LeavesEnd t (readCapture inner t) :=
  .bind (readInside_leavesEnd leaves t) fun _ rest => quantify_leavesEnd _ rest

theorem readGroup_leavesEnd (t : Text) : LeavesEnd t (readGroup inner t) := by
  have after {opening r : Text}
      (found : (if opening.isPrefixOf t then some (t.drop opening.length) else none) = some r) :
      r <:+ t := by
    split at found
    · cases found
      exact List.drop_suffix _ t
    · cases found
  unfold readGroup
  dsimp only
  split
  · rename_i found
    refine .behind (.bind (readInside_leavesEnd leaves _) fun e rest => ?_) (after found)
    exact quantify_leavesEnd e rest
  · rename_i found _
    exact (readLook_leavesEnd leaves false false _).behind (after found)
  · rename_i found _ _
    exact (readLook_leavesEnd leaves false true _).behind (after found)
  · rename_i found _ _ _
    exact (readLook_leavesEnd leaves true false _).behind (after found)
  · rename_i found _ _ _ _
    exact (readLook_leavesEnd leaves true true _).behind (after found)
  · rename_i found _ _ _ _ _
    exact .behind (.bind (readName_leavesEnd _) fun name r => readCapture_leavesEnd leaves r)
      (after found)
  · exact .none
  · exact readCapture_leavesEnd leaves t

/-- A term takes its first unit. -/
theorem readTerm_leavesEnd (u : CodeUnit) (r : Text) : LeavesEnd r (readTerm groups inner (u :: r)) := by
  have rest : LeavesEnd r (some (lineStart, r)) := .some (List.suffix_refl r)
  unfold readTerm
  refine .ite (fun _ => rest) fun _ => ?_
  refine .ite (fun _ => .some (List.suffix_refl r)) fun _ => ?_
  refine .ite (fun _ => readGroup_leavesEnd leaves r) fun _ => ?_
  refine .ite (fun _ => quantify_leavesEnd _ r) fun _ => ?_
  refine .ite (fun _ => .bind (readSet_leavesEnd groups r) fun e rest => quantify_leavesEnd e rest)
    fun _ => ?_
  refine .ite (fun _ => readEscape_leavesEnd groups r) fun _ => ?_
  exact .ite (fun _ => .none) fun _ => quantify_leavesEnd _ r

theorem readTerms_leavesEnd (fuel : Nat) (t : Text) : LeavesEnd t (readTerms groups inner fuel t) := by
  induction fuel generalizing t with
  | zero => exact .none
  | succ fuel ih =>
    unfold readTerms
    cases t with
    | nil => exact .some (List.suffix_refl _)
    | cons u r =>
      refine .ite (fun _ => .some (List.suffix_refl _)) fun _ => ?_
      refine .behind (.bind (readTerm_leavesEnd leaves u r) fun a t => ?_) (List.suffix_cons u r)
      exact .bind (ih t) fun b t => .some (List.suffix_refl t)

theorem readAlternatives_leavesEnd (fuel : Nat) (t : Text) :
    LeavesEnd t (readAlternatives groups inner fuel t) := by
  induction fuel generalizing t with
  | zero => exact .none
  | succ fuel ih =>
    refine .bind (readTerms_leavesEnd leaves _ t) fun a t => ?_
    cases t with
    | nil => exact .some (List.suffix_refl _)
    | cons u r =>
      refine .ite (fun _ => ?_) fun _ => .some (List.suffix_refl _)
      refine .behind (.bind (ih r) fun b t => ?_) (List.suffix_cons u r)
      exact .some (List.suffix_refl t)

end Inner

theorem readNested_leavesEnd (groups : Groups) (depth : Nat) (t : Text) :
    LeavesEnd t (readNested groups depth t) := by
  induction depth generalizing t with
  | zero => exact .none
  | succ depth ih => exact readAlternatives_leavesEnd ih _ t

/-! ## Bounds that are high enough -/

theorem readRanges_enough {fuel bound : Nat} {ranges : List (CodeUnit × CodeUnit)} {rest : Text}
    (read : readRanges groups fuel t = some (ranges, rest)) (above : t.length < bound) :
    readRanges groups bound t = some (ranges, rest) := by
  induction fuel generalizing t bound ranges rest with
  | zero => cases read
  | succ fuel ih =>
    obtain ⟨bound, rfl⟩ := Nat.exists_eq_succ_of_ne_zero (Nat.ne_zero_of_lt above)
    unfold readRanges at read ⊢
    cases t with
    | nil => cases read
    | cons u r =>
      dsimp only at read ⊢
      by_cases closing : u = unit ']'
      · rwa [if_pos closing] at read ⊢
      rw [if_neg closing] at read ⊢
      obtain ⟨⟨first, t⟩, atom, read⟩ := Option.bind_eq_some_iff.1 read
      refine Option.bind_eq_some_iff.2 ⟨(first, t), atom, ?_⟩
      have shorter := (readSetAtom_leavesEnd groups u r first t atom).length_le
      rw [List.length_cons] at above
      cases t with
      | nil => cases read
      | cons dash r =>
        rw [List.length_cons] at shorter
        dsimp only at read ⊢
        by_cases single : dash ≠ unit '-'
        · rw [if_pos single] at read ⊢
          obtain ⟨⟨others, t⟩, further, read⟩ := Option.bind_eq_some_iff.1 read
          refine Option.bind_eq_some_iff.2 ⟨(others, t), ih further ?_, read⟩
          rw [List.length_cons]
          omega
        rw [if_neg single] at read ⊢
        by_cases last : r.head? = some (unit ']')
        · rwa [if_pos last] at read ⊢
        rw [if_neg last] at read ⊢
        obtain ⟨⟨second, t⟩, atom, read⟩ := Option.bind_eq_some_iff.1 read
        refine Option.bind_eq_some_iff.2 ⟨(second, t), atom, ?_⟩
        obtain ⟨⟨others, t'⟩, further, read⟩ := Option.bind_eq_some_iff.1 read
        refine Option.bind_eq_some_iff.2 ⟨(others, t'), ih further ?_, read⟩
        cases r with
        | nil => cases atom
        | cons v r =>
          have shortest := (readSetAtom_leavesEnd groups v r second t atom).length_le
          rw [List.length_cons] at shorter
          change t.length < bound
          omega

theorem readNameRest_enough {fuel bound : Nat} {name rest : Text}
    (read : readNameRest fuel t = some (name, rest)) (above : t.length < bound) :
    readNameRest bound t = some (name, rest) := by
  induction fuel generalizing t bound name rest with
  | zero => cases read
  | succ fuel ih =>
    obtain ⟨bound, rfl⟩ := Nat.exists_eq_succ_of_ne_zero (Nat.ne_zero_of_lt above)
    obtain ⟨⟨n, t'⟩, scalar, read⟩ := Option.bind_eq_some_iff.1 read
    refine Option.bind_eq_some_iff.2 ⟨(n, t'), scalar, ?_⟩
    dsimp only at read ⊢
    by_cases closing : n = 0x3E
    · rwa [if_pos closing] at read ⊢
    rw [if_neg closing] at read ⊢
    by_cases goesOn : continuesName n = true
    · rw [if_pos goesOn] at read ⊢
      obtain ⟨⟨others, last⟩, further, read⟩ := Option.bind_eq_some_iff.1 read
      refine Option.bind_eq_some_iff.2 ⟨(others, last), ih further ?_, read⟩
      cases t with
      | nil => cases scalar
      | cons u r =>
        have shorter := (readScalar_leavesEnd u r n t' scalar).length_le
        rw [List.length_cons] at above
        omega
    · rw [if_neg goesOn] at read
      cases read

section Inner

variable (leaves : ∀ t, LeavesEnd t (inner t))
include leaves

theorem readTerms_enough {fuel bound : Nat} {e : Regex} {rest : Text}
    (read : readTerms groups inner fuel t = some (e, rest)) (above : t.length < bound) :
    readTerms groups inner bound t = some (e, rest) := by
  induction fuel generalizing t bound e rest with
  | zero => cases read
  | succ fuel ih =>
    obtain ⟨bound, rfl⟩ := Nat.exists_eq_succ_of_ne_zero (Nat.ne_zero_of_lt above)
    unfold readTerms at read ⊢
    cases t with
    | nil => exact read
    | cons u r =>
      dsimp only at read ⊢
      by_cases ends : u = unit '|' ∨ u = unit ')'
      · rwa [if_pos ends] at read ⊢
      · rw [if_neg ends] at read ⊢
        obtain ⟨⟨a, t⟩, term, read⟩ := Option.bind_eq_some_iff.1 read
        refine Option.bind_eq_some_iff.2 ⟨(a, t), term, ?_⟩
        obtain ⟨⟨b, t'⟩, terms, read⟩ := Option.bind_eq_some_iff.1 read
        refine Option.bind_eq_some_iff.2 ⟨(b, t'), ih terms ?_, read⟩
        have shorter := (readTerm_leavesEnd leaves u r a t term).length_le
        rw [List.length_cons] at above
        change t.length < bound
        omega

theorem readAlternatives_enough {fuel bound : Nat} {e : Regex} {rest : Text}
    (read : readAlternatives groups inner fuel t = some (e, rest)) (above : t.length < bound) :
    readAlternatives groups inner bound t = some (e, rest) := by
  induction fuel generalizing t bound e rest with
  | zero => cases read
  | succ fuel ih =>
    obtain ⟨bound, rfl⟩ := Nat.exists_eq_succ_of_ne_zero (Nat.ne_zero_of_lt above)
    obtain ⟨⟨a, t'⟩, terms, read⟩ := Option.bind_eq_some_iff.1 read
    refine Option.bind_eq_some_iff.2 ⟨(a, t'), terms, ?_⟩
    have shorter := (readTerms_leavesEnd leaves _ t a t' terms).length_le
    cases t' with
    | nil => exact read
    | cons u r =>
      dsimp only at read ⊢
      by_cases bar : u = unit '|'
      · rw [if_pos bar] at read ⊢
        obtain ⟨⟨b, t''⟩, others, read⟩ := Option.bind_eq_some_iff.1 read
        refine Option.bind_eq_some_iff.2 ⟨(b, t''), ih others ?_, read⟩
        rw [List.length_cons] at shorter
        omega
      · rwa [if_neg bar] at read ⊢

end Inner

end Highlight.Regex
