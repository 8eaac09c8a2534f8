import Highlight.Proofs.Pattern.Derivation
import Highlight.Proofs.Pattern.Swapping

/-!
# Texts that part at a seam

Names, numbers, codes and quantifiers are read as far as they go, and a few units end all of them:
the `seams`. Two texts are in step if they have the same units up to where both are at a seam or at
their end (`InStep`). The rules for these parts do the same on both texts and leave texts in step
(`Reader.KeepsStep`), whatever the two texts become behind the seam. So a derivation does not depend
on what stands behind a seam (`Grammar.Derives.context`).
-/

namespace Highlight

open Reader Grammar

/-- No name, number, code or quantifier goes on with one of these units. -/
def seams : Text := "'\\.()[|"

/-- Texts that begin with the same unit and go on in step, or that are both at a seam. -/
structure InStep (R : Text → Text → Prop) : Prop where
  step : ∀ {t t' : Text}, R t t' →
    (∃ u s s', t = u :: s ∧ t' = u :: s' ∧ R s s') ∨ HeadIn seams t ∧ HeadIn seams t'

namespace Reader

variable {α β : Type} {p q : Reader α} {f : α → Reader β}

/-- The reader reads the same in texts that are in step, and leaves texts in step. -/
def KeepsStep (p : Reader α) : Prop :=
  ∀ ⦃R : Text → Text → Prop⦄, InStep R → ∀ ⦃t t' : Text⦄, R t t' →
    Together (fun a y a' y' => a' = a ∧ R y y') (p.result t) (p.result t')

theorem keeps_pure (a : α) : KeepsStep (pure a : Reader α) :=
  fun _ _ _ _ related => together_pure ⟨rfl, related⟩

theorem keeps_bind (first : KeepsStep p) (second : ∀ a, KeepsStep (f a)) : KeepsStep (p >>= f) := by
  intro R inStep t t' related
  refine together_bind (first inStep related) fun a y a' y' goes => ?_
  rw [goes.1]
  exact second a inStep goes.2

theorem keeps_orElse (first : KeepsStep p) (second : KeepsStep q) : KeepsStep (p <|> q) :=
  fun _ inStep _ _ related => together_orElse (first inStep related) (second inStep related)

theorem keeps_value {g : α → β} (keeps : KeepsStep p) : KeepsStep (do let a ← p; pure (g a)) :=
  keeps_bind keeps fun _ => keeps_pure _

theorem keeps_optional (keeps : KeepsStep p) : KeepsStep (optional p) :=
  keeps_orElse (keeps_value keeps) (keeps_pure _)

theorem keeps_oneOf {members : UnitClass} (out : seams.any members.holds = false) :
    KeepsStep (oneOf members) := by
  intro R inStep t t' related
  obtain ⟨u, s, s', rfl, rfl, behind⟩ | ⟨seam, seam'⟩ := inStep.step related
  · by_cases member : members.holds u = true
    · exact .inr ⟨u, s, u, s', oneOf_cons member s, oneOf_cons member s', rfl, behind⟩
    · have other := Bool.eq_false_iff.2 member
      exact .inl ⟨oneOf_fail other s, oneOf_fail other s'⟩
  · exact .inl ⟨seam.oneOf_eq_none out, seam'.oneOf_eq_none out⟩

theorem literal_cons (u : CodeUnit) (text t : Text) :
    (literal (u :: text)).result (u :: t) = (literal text).result t := by
  simp [literal, terminal]

theorem literal_other {u v : CodeUnit} (other : v ≠ u) (text t : Text) :
    (literal (u :: text)).result (v :: t) = none :=
  literal_eq_none.2 fun begins => other (List.cons_prefix_cons.1 begins).1.symm

theorem keeps_literal {text : Text} (out : text.any seams.contains = false) :
    KeepsStep (literal text) := by
  intro R inStep t t' related
  induction text generalizing t t' with
  | nil => exact .inr ⟨(), t, (), t', literal_append [] t, literal_append [] t', rfl, related⟩
  | cons u text ih =>
    obtain ⟨here, later⟩ := Bool.or_eq_false_iff.1 out
    have away : u ∉ seams := fun listed => by
      rw [List.contains_iff_mem.2 listed] at here
      cases here
    obtain ⟨v, s, s', rfl, rfl, behind⟩ | ⟨seam, seam'⟩ := inStep.step related
    · by_cases same : v = u
      · subst same
        rw [literal_cons, literal_cons]
        exact ih later behind
      · exact .inl ⟨literal_other same text s, literal_other same text s'⟩
    · have differs {t : Text} (seam : HeadIn seams t) : (literal (u :: text)).result t = none :=
        literal_differs (fun first => away (seam u first)) rfl
      exact .inl ⟨differs seam, differs seam'⟩

/-- The rounds of a reader are the same in texts that are in step. -/
theorem KeepsStep.rounds {R : Text → Text → Prop} (keeps : KeepsStep p) (inStep : InStep R)
    {t t' rest : Text} {as : List α} (rounds : Rounds p t as rest) (related : R t t') :
    ∃ rest', Rounds p t' as rest' ∧ R rest rest' := by
  induction rounds generalizing t' with
  | stop failed =>
    obtain ⟨_, failed'⟩ | ⟨_, _, _, _, read, _⟩ := keeps inStep related
    · exact ⟨t', .stop failed', related⟩
    · cases failed.symm.trans read
  | more read _ ih =>
    obtain ⟨failed, _⟩ | ⟨_, _, _, y', read₁, read', rfl, related⟩ := keeps inStep related
    · cases read.symm.trans failed
    · cases read.symm.trans read₁
      obtain ⟨rest', later, related⟩ := ih related
      exact ⟨rest', .more read' later, related⟩

theorem keeps_many (keeps : KeepsStep p) (advances : Advances p) : KeepsStep (many p) := by
  intro R inStep t t' related
  obtain ⟨as, rest, read⟩ : ∃ as rest, (many p).result t = some (as, rest) := ⟨_, _, rfl⟩
  obtain ⟨rest', rounds', related⟩ :=
    keeps.rounds inStep ((many_eq_some advances).1 read) related
  exact .inr ⟨as, rest, as, rest', read, (many_eq_some advances).2 rounds', rfl, related⟩

theorem keeps_atLeastOnce (keeps : KeepsStep p) (advances : Advances p) :
    KeepsStep (atLeastOnce p) :=
  keeps_bind keeps fun _ => keeps_value (keeps_many keeps advances)

/-- What is read in a text is read in one that is in step. -/
theorem KeepsStep.carry {R : Text → Text → Prop} (keeps : KeepsStep p) (inStep : InStep R)
    {t t' rest : Text} {a : α} (related : R t t') (read : p.result t = some (a, rest)) :
    ∃ rest', p.result t' = some (a, rest') ∧ R rest rest' := by
  obtain ⟨failed, _⟩ | ⟨_, _, _, rest', read₁, read', rfl, related⟩ := keeps inStep related
  · cases read.symm.trans failed
  · cases read.symm.trans read₁
    exact ⟨rest', read', related⟩

theorem KeepsStep.fails {R : Text → Text → Prop} (keeps : KeepsStep p) (inStep : InStep R)
    {t t' : Text} (related : R t t') (failed : p.result t = none) : p.result t' = none := by
  obtain ⟨_, failed'⟩ | ⟨_, _, _, _, read, _⟩ := keeps inStep related
  · exact failed'
  · cases failed.symm.trans read

end Reader

namespace Grammar

theorem keeps_integer : KeepsStep integer :=
  keeps_value (keeps_atLeastOnce (keeps_oneOf (by decide)) (advances_oneOf _))

theorem keeps_name : KeepsStep name :=
  keeps_bind (keeps_oneOf (by decide)) fun _ =>
    keeps_value (keeps_many (keeps_oneOf (by decide)) (advances_oneOf _))

theorem keeps_quantifier : KeepsStep quantifier := by
  have mark (text : Text) (out : text.any seams.contains = false) : KeepsStep (literal text) :=
    keeps_literal out
  refine keeps_bind ?_ fun _ => keeps_value (keeps_optional (mark _ (by decide)))
  refine keeps_orElse (keeps_value (mark _ (by decide))) (keeps_orElse (keeps_value
    (mark _ (by decide))) (keeps_orElse (keeps_value (mark _ (by decide))) (keeps_orElse ?_
    (keeps_orElse ?_ (keeps_orElse ?_ ?_)))))
  · exact keeps_bind (mark _ (by decide)) fun _ => keeps_bind keeps_integer fun _ =>
      keeps_bind (mark _ (by decide)) fun _ => keeps_bind keeps_integer fun _ =>
      keeps_value (mark _ (by decide))
  all_goals exact keeps_bind (mark _ (by decide)) fun _ => keeps_bind keeps_integer fun _ =>
    keeps_value (mark _ (by decide))

/-- What may follow a backslash to give one unit other than the one that follows. -/
def codedUnit : Reader CodeUnit :=
  controlLetter "n" 10
  <|> controlLetter "r" 13
  <|> controlLetter "t" 9
  <|> controlLetter "f" 12
  <|> controlLetter "v" 11
  <|> controlLetter "0" 0
  <|> (do
    literal "x"
    let a ← oneOf .hexDigit
    let b ← oneOf .hexDigit
    pure (Text.hexadecimal [a, b]).toUInt16)
  <|> (do
    literal "u"
    let a ← oneOf .hexDigit
    let b ← oneOf .hexDigit
    let c ← oneOf .hexDigit
    let d ← oneOf .hexDigit
    pure (Text.hexadecimal [a, b, c, d]).toUInt16)

/-- What may follow a backslash other than a unit that stands for itself. -/
def codedAtom : Reader Pattern :=
  (do let letter ← oneOf .classLetter; pure (.set false [.named (classOf letter)]))
  <|> (do let _ ← oneOf .anchorLetter; pure .anchor)
  <|> (do
    literal "k<"
    let name ← name
    literal ">"
    pure (.backref (.name name)))
  <|> (do
    let first ← oneOf .positiveDigit
    let second ← optional (oneOf .digit)
    pure (.backref (.index (Text.decimal (first :: second.toList)))))
  <|> (do let u ← codedUnit; pure (.char u))

/-- A unit that stands for itself. -/
def selfAtom : Reader Pattern := do
  let u ← anyUnit
  pure (.char u)

theorem escapedUnit_result (t : Text) :
    escapedUnit.result t = (codedUnit <|> anyUnit).result t := by
  simp only [escapedUnit, codedUnit, result_orElse, Option.or_assoc]

/-- Behind a backslash stands a code, or a unit that stands for itself. -/
theorem short_escape (t : Text) :
    short.result (unit '\\' :: t) = (codedAtom <|> selfAtom).result t := by
  have opens : (literal "\\").result (unit '\\' :: t) = some ((), t) := literal_append "\\" t
  have named : (literal "\\k<").result (unit '\\' :: t) = (literal "k<").result t :=
    literal_cons _ _ t
  have dot : (literal ".").result (unit '\\' :: t) = none := literal_other (by decide) _ t
  have caret : (literal "^").result (unit '\\' :: t) = none := literal_other (by decide) _ t
  have dollar : (literal "$").result (unit '\\' :: t) = none := literal_other (by decide) _ t
  have plain : (oneOf .plain).result (unit '\\' :: t) = none := oneOf_fail (by decide) t
  simp only [short, escapedAtom, namedClass, escape, codedAtom, selfAtom, result_orElse, result_bind,
    result_pure, opens, named, dot, caret, dollar, plain, escapedUnit_result, Option.bind_none,
    Option.none_or, Option.bind_some, Option.bind_assoc, Option.or_none, Option.or_assoc]
  cases codedUnit.result t <;> rfl

theorem keeps_codedUnit : KeepsStep codedUnit := by
  have control (v value : CodeUnit) (out : seams.contains v = false) :
      KeepsStep (controlLetter [v] value) :=
    keeps_value (keeps_literal (by rw [List.any_cons, out, List.any_nil, Bool.or_false]))
  have digit : KeepsStep (oneOf .hexDigit) := keeps_oneOf (by decide)
  refine keeps_orElse (control _ _ (by decide)) (keeps_orElse (control _ _ (by decide))
    (keeps_orElse (control _ _ (by decide)) (keeps_orElse (control _ _ (by decide))
    (keeps_orElse (control _ _ (by decide)) (keeps_orElse (control _ _ (by decide))
    (keeps_orElse (keeps_bind (keeps_literal (by decide)) fun _ => ?_)
    (keeps_bind (keeps_literal (by decide)) fun _ => ?_)))))))
  · exact keeps_bind digit fun _ => keeps_value digit
  · exact keeps_bind digit fun _ => keeps_bind digit fun _ => keeps_bind digit fun _ =>
      keeps_value digit

theorem keeps_codedAtom : KeepsStep codedAtom := by
  refine keeps_orElse (keeps_value (keeps_oneOf (by decide))) (keeps_orElse (keeps_value
    (keeps_oneOf (by decide))) (keeps_orElse ?_ (keeps_orElse ?_ (keeps_value keeps_codedUnit))))
  · exact keeps_bind (keeps_literal (by decide)) fun _ => keeps_bind keeps_name fun _ =>
      keeps_value (keeps_literal (by decide))
  · exact keeps_bind (keeps_oneOf (by decide)) fun _ =>
      keeps_value (keeps_optional (keeps_oneOf (by decide)))

/-! ## Another text behind the seam -/

/-- The same text in front of two ends. -/
def SameFront (e e' t t' : Text) : Prop := ∃ z, t = z ++ e ∧ t' = z ++ e'

section Ends

variable {e e' y z : Text}

theorem inStep_sameFront (seam : HeadIn seams e) (seam' : HeadIn seams e') :
    InStep (SameFront e e') where
  step := by
    rintro _ _ ⟨z, rfl, rfl⟩
    cases z with
    | nil => exact .inr ⟨seam, seam'⟩
    | cons u z => exact .inl ⟨u, z ++ e, z ++ e', rfl, rfl, z, rfl, rfl⟩

theorem bracketed_fails {u : CodeUnit} (other : u ≠ unit '[') (t : Text) :
    bracketed.result (u :: t) = none := bind_of_fail (literal_other other [] t)

theorem escapedAtom_fails {u : CodeUnit} (other : u ≠ unit '\\') (t : Text) :
    escapedAtom.result (u :: t) = none := by
  cases read : escapedAtom.result (u :: t) with
  | none => rfl
  | some found =>
    obtain ⟨_, parts, v, x, rfl, _⟩ := shaped_escapedAtom read
    exact absurd (List.cons.inj parts).1 other

/-- A short atom that is no escape is one unit, whatever stands behind it. -/
theorem short_unit {u : CodeUnit} {t rest : Text} {a : Pattern} (plain : u ≠ unit '\\')
    (read : short.result (u :: t) = some (a, rest)) :
    rest = t ∧ u ≠ unit '[' ∧ ∀ t', short.result (u :: t') = some (a, t') := by
  have marked {v : CodeUnit} {node : Pattern} {rest : Text}
      (read : (do literal [v]; pure node).result (u :: t) = some (a, rest)) :
      u = v ∧ rest = t ∧ a = node := by
    obtain ⟨_, _, front, rfl, rfl⟩ := bind_eq_some.1 read
    obtain ⟨rfl, rfl⟩ := List.cons.inj (literal_eq_some.1 front)
    exact ⟨rfl, rfl, rfl⟩
  obtain read | ⟨-, read⟩ := orElse_eq_some.1 read
  · obtain ⟨rfl, rfl, rfl⟩ := marked read
    exact ⟨rfl, by decide, fun _ => rfl⟩
  obtain read | ⟨-, read⟩ := orElse_eq_some.1 read
  · obtain ⟨rfl, rfl, rfl⟩ := marked read
    exact ⟨rfl, by decide, fun _ => rfl⟩
  obtain read | ⟨-, read⟩ := orElse_eq_some.1 read
  · obtain ⟨rfl, rfl, rfl⟩ := marked read
    exact ⟨rfl, by decide, fun _ => rfl⟩
  obtain read | ⟨-, read⟩ := orElse_eq_some.1 read
  · cases (escapedAtom_fails plain t).symm.trans read
  · obtain ⟨v, _, unit_, rfl, rfl⟩ := bind_eq_some.1 read
    obtain ⟨same, member⟩ := oneOf_eq_some.1 unit_
    obtain ⟨rfl, rfl⟩ := List.cons.inj same
    have other {w : CodeUnit} (out : UnitClass.plain.holds w = false) (t' : Text) :
        (literal [w]).result (u :: t') = none :=
      literal_other (UnitClass.ne_of_holds member out) [] t'
    refine ⟨rfl, UnitClass.ne_of_holds member (by decide), fun t' => ?_⟩
    exact orElse_of_fail (bind_of_fail (other (by decide) t')) <|
      orElse_of_fail (bind_of_fail (other (by decide) t')) <|
      orElse_of_fail (bind_of_fail (other (by decide) t')) <|
      orElse_of_fail (escapedAtom_fails plain t') <|
      bind_of_read (oneOf_cons member t') rfl

variable (seam : HeadIn seams e) (seam' : HeadIn seams e')

include seam seam'

/-- What a short atom is does not depend on what stands behind a seam. -/
theorem short_context {x : Text} {a : Pattern} (filled : x ≠ [])
    (read : short.result (x ++ (y ++ e)) = some (a, y ++ e)) :
    short.result (x ++ (y ++ e')) = some (a, y ++ e') ∧ x.head? ≠ some (unit '[') := by
  obtain ⟨u, x, rfl⟩ := List.exists_cons_of_ne_nil filled
  by_cases escape : u = unit '\\'
  · subst escape
    refine ⟨?_, fun opens => absurd (Option.some.inj opens) (by decide)⟩
    have related : SameFront e e' (x ++ (y ++ e)) (x ++ (y ++ e')) :=
      ⟨x ++ y, (List.append_assoc _ _ _).symm, (List.append_assoc _ _ _).symm⟩
    have inStep := inStep_sameFront seam seam'
    rw [List.cons_append, short_escape] at read ⊢
    obtain coded | ⟨failed, self⟩ := orElse_eq_some.1 read
    · obtain ⟨rest', read', w, same, rfl⟩ := keeps_codedAtom.carry inStep related coded
      obtain rfl := List.append_cancel_right same
      exact orElse_of_read read'
    · obtain ⟨v, _, any, rfl, rfl⟩ := bind_eq_some.1 self
      have single : x = [v] := by
        have parts : x ++ (y ++ e) = [v] ++ (y ++ e) := anyUnit_eq_some.1 any
        exact List.append_cancel_right parts
      subst single
      exact orElse_of_fail (keeps_codedAtom.fails inStep related failed) rfl
  · obtain ⟨same, other, anywhere⟩ := short_unit escape read
    have single : x = [] := by
      have parts : [] ++ (y ++ e) = x ++ (y ++ e) := same
      exact (List.append_cancel_right parts).symm
    subst single
    exact ⟨anywhere _, fun opens => other (Option.some.inj opens)⟩

/-- What an atom without a pattern is does not depend on what stands behind a seam. -/
theorem leaf_context {a : Pattern}
    (read : (bracketed <|> short).result (z ++ e) = some (a, y ++ e)) :
    (bracketed <|> short).result (z ++ e') = some (a, y ++ e') := by
  obtain ⟨x, parts, leafText⟩ := takes_leaf read
  rw [← List.append_assoc] at parts
  obtain rfl := List.append_cancel_right parts
  rw [List.append_assoc] at read ⊢
  obtain set | ⟨-, single⟩ := orElse_eq_some.1 read
  · exact orElse_of_read (bracketed_append set _)
  · obtain ⟨single', other⟩ := short_context seam seam' leafText.nonempty single
    refine orElse_of_fail ?_ single'
    obtain ⟨u, x, rfl⟩ := List.exists_cons_of_ne_nil leafText.nonempty
    exact bracketed_fails (fun same => other (congrArg some same)) _

end Ends

section Derivations

variable {e e' y z : Text}

theorem headIn_swap {us : Text} (front : HeadIn us (y ++ e)) (ends : HeadIn us e') :
    HeadIn us (y ++ e') := by
  cases y with
  | nil => exact ends
  | cons u y => exact front

theorem suffix_front {t rest : Text} (behind : rest <:+ t) (same : rest = y ++ e) :
    ∃ w, t = w ++ e := by
  obtain ⟨x, rfl⟩ := behind
  exact ⟨x ++ y, by rw [same, List.append_assoc]⟩

/-- A derivation up to a seam, or to a place in front of it, does not depend on what stands behind
the seam, if a pattern may end where the other text stands. -/
theorem Derives.context {category : Category} {t rest : Text} {as : List Pattern}
    (seam : HeadIn seams e) (ends : HeadIn patternEnds e') (derives : Derives category t as rest)
    (front : t = z ++ e) (back : rest = y ++ e) : Derives category (z ++ e') as (y ++ e') := by
  have seam' : HeadIn seams e' := ends.mono (by decide)
  induction derives generalizing z y with
  | leaf read =>
    subst front back
    exact .leaf (leaf_context seam seam' read)
  | @bare x rest a bare =>
    have parts : z = unit '(' :: (x ++ unit ')' :: y) := by
      refine List.append_cancel_right (front.symm.trans ?_)
      rw [back, List.cons_append, List.append_assoc, List.cons_append]
    rw [parts, List.cons_append, List.append_assoc, List.cons_append]
    exact .bare bare
  | @group w t rest node options mark inside ih =>
    have closes : unit ')' :: rest = (unit ')' :: y) ++ e := congrArg _ back
    obtain ⟨x, rfl⟩ := suffix_front inside.suffix closes
    have parts : z = unit '(' :: (w ++ x) := by
      refine List.append_cancel_right (front.symm.trans ?_)
      rw [List.cons_append, List.append_assoc]
    rw [parts, List.cons_append, List.append_assoc]
    exact .group mark (ih rfl closes)
  | @item t middle rest a bounds first times ih =>
    obtain ⟨q, parts, _⟩ := inert_optional inert_quantifier times
    rw [back, ← List.append_assoc] at parts
    obtain ⟨_, times', w, same, rfl⟩ := (keeps_optional keeps_quantifier).carry
      (inStep_sameFront seam seam') ⟨q ++ y, parts, rfl⟩ times
    obtain rfl := List.append_cancel_right (back.symm.trans same)
    exact .item (ih front parts) times'
  | nil stops =>
    obtain rfl := List.append_cancel_right (front.symm.trans back)
    rw [front] at stops
    exact .nil (headIn_swap stops (ends.mono (by decide)))
  | cons first later ih ih' =>
    obtain ⟨w, rfl⟩ := suffix_front later.suffix back
    exact .cons (ih front rfl) (ih' rfl back)
  | last only stops ih =>
    rw [back] at stops
    exact .last (ih front back) (headIn_swap stops ends)
  | @more t middle rest as options first later ih ih' =>
    obtain ⟨w, rfl⟩ := suffix_front later.suffix back
    have bar : unit '|' :: (w ++ e) = (unit '|' :: w) ++ e := rfl
    exact .more (ih front bar) (ih' rfl back)

/-- A pattern is one in every kind of group as well. -/
theorem Derives.enclosed {p w : Text} {root : Pattern} {node : Pattern → Pattern}
    (mark : Mark w node) (read : Pattern.readTree p = .ok root) (rest : Text) :
    Derives .atom (unit '(' :: (w ++ (p ++ unit ')' :: rest))) [node root] rest := by
  obtain ⟨options, rfl, derives⟩ := Pattern.readTree_iff_derives.1 read
  have closing : HeadIn patternEnds (unit ')' :: rest) := headIn_cons (by decide)
  exact .group mark (derives.context headIn_nil closing (List.append_nil p).symm
    (List.append_nil []).symm)

end Derivations

end Grammar

end Highlight
