import Highlight.Pattern.Grammar
import Highlight.Proofs.Dialect.Splitting
import Highlight.Proofs.Pattern.Parts
import Highlight.Proofs.Pattern.Reading

/-!
# What the plain rules of the pattern grammar take

The rules for quantifiers, escapes, sets and single units do not contain patterns. Whatever they
take, the scan for top-level groups passes through it: quantifiers and names are made of units that
mean nothing to the scan, an escape is one to the grammar just if it is one to the scan, and a set
ends for both at the same bracket.
-/

namespace Highlight

open Reader Dialect

theorem UnitClass.ne_of_holds {members : UnitClass} {u v : CodeUnit}
    (member : members.holds u = true) (out : members.holds v = false) : u ≠ v := by
  rintro rfl
  exact Bool.false_ne_true (out.symm.trans member)

theorem UnitClass.not_mem_of_holds {members : UnitClass} {u : CodeUnit} {x : Text}
    (member : members.holds u = true) (out : x.any members.holds = false) : u ∉ x :=
  fun inside => List.any_eq_false.1 out u inside member

/-- None of the units that mean something to the scan is in the class. -/
def UnitClass.IsInert (members : UnitClass) : Prop :=
  members.holds (unit '\\') = false ∧ members.holds (unit '[') = false ∧
    members.holds (unit '(') = false ∧ members.holds (unit ')') = false

instance (members : UnitClass) : Decidable members.IsInert := inferInstanceAs (Decidable (_ ∧ _))

theorem UnitClass.IsInert.unit {members : UnitClass} (inert : members.IsInert) {u : CodeUnit}
    (member : members.holds u = true) : Dialect.IsInert u :=
  ⟨ne_of_holds member inert.1, ne_of_holds member inert.2.1, ne_of_holds member inert.2.2.1,
    ne_of_holds member inert.2.2.2⟩

namespace Reader

variable {α β : Type} {p q : Reader α} {f : α → Reader β}

/-- All units that are taken are inert. -/
def TakesInert (p : Reader α) : Prop := Shaped p fun x => InertText x

theorem inert_value {g : α → β} (takes : TakesInert p) : TakesInert (do let a ← p; pure (g a)) :=
  shaped_value takes

theorem inert_bind (first : TakesInert p) (second : ∀ a, TakesInert (f a)) :
    TakesInert (p >>= f) :=
  shaped_bind first second fun left right _ => List.forall_mem_append.2 ⟨left, right⟩ _

theorem inert_literal {text : Text} (inert : InertText text) : TakesInert (literal text) :=
  shaped_literal inert

theorem inert_oneOf {members : UnitClass} (inert : members.IsInert) : TakesInert (oneOf members) :=
  shaped_oneOf fun _ member => List.forall_mem_singleton.2 (inert.unit member)

theorem inert_optional (takes : TakesInert p) : TakesInert (optional p) :=
  takes_optional takes id nofun

theorem advances_oneOf (members : UnitClass) : Advances (oneOf members) :=
  Takes.advances (shaped_oneOf fun u _ => List.cons_ne_nil u []) id

theorem shaped_many_oneOf (members : UnitClass) :
    Shaped (many (oneOf members)) fun x => ∀ u ∈ x, members.holds u = true := by
  have one : Shaped (oneOf members) fun x => ∀ u ∈ x, members.holds u = true :=
    shaped_oneOf fun _ member => List.forall_mem_singleton.2 member
  exact takes_many (advances_oneOf members) one nofun fun left right _ =>
    List.forall_mem_append.2 ⟨left, right⟩ _

theorem shaped_atLeastOnce (members : UnitClass) :
    Shaped (atLeastOnce (oneOf members)) fun x => x ≠ [] ∧ ∀ u ∈ x, members.holds u = true := by
  have one : Shaped (oneOf members) fun x => x ≠ [] ∧ ∀ u ∈ x, members.holds u = true :=
    shaped_oneOf fun u member => ⟨List.cons_ne_nil u [], List.forall_mem_singleton.2 member⟩
  exact shaped_bind one (fun _ => shaped_value (shaped_many_oneOf members)) fun first rest =>
    ⟨List.append_ne_nil_of_left_ne_nil first.1 _, List.forall_mem_append.2 ⟨first.2, rest⟩⟩

theorem inert_many_oneOf {members : UnitClass} (inert : members.IsInert) :
    TakesInert (many (oneOf members)) :=
  (shaped_many_oneOf members).imp fun all u inside => inert.unit (all u inside)

theorem inert_atLeastOnce {members : UnitClass} (inert : members.IsInert) :
    TakesInert (atLeastOnce (oneOf members)) :=
  (shaped_atLeastOnce members).imp fun all u inside => inert.unit (all.2 u inside)

end Reader

namespace Pattern

/-- A pattern that is not made of others. -/
def isLeaf : Pattern → Bool
  | char _ | set _ _ | anchor | backref _ => true
  | _ => false

theorem parts_of_isLeaf {pattern : Pattern} (leaf : pattern.isLeaf = true) :
    pattern.parts = [pattern] := by
  cases pattern <;> first | rfl | cases leaf

end Pattern

namespace Grammar

theorem inert_integer : TakesInert integer := inert_value (inert_atLeastOnce (by decide))

theorem inert_name : TakesInert name :=
  inert_bind (inert_oneOf (by decide)) fun _ => inert_value (inert_many_oneOf (by decide))

theorem inert_quantifier : TakesInert quantifier := by
  have mark (u : CodeUnit) (inert : IsInert u) : TakesInert (literal [u]) :=
    inert_literal (List.forall_mem_singleton.2 inert)
  have open_ := mark (unit '\x7b') (by decide)
  have close := mark (unit '\x7d') (by decide)
  refine inert_bind ?_ fun _ => inert_value (inert_optional (mark _ (by decide)))
  refine takes_orElse (inert_value (mark _ (by decide))) (takes_orElse (inert_value
    (mark _ (by decide))) (takes_orElse (inert_value (mark _ (by decide))) (takes_orElse ?_
    (takes_orElse ?_ (takes_orElse ?_ ?_)))))
  · exact inert_bind open_ fun _ => inert_bind inert_integer fun _ =>
      inert_bind (mark _ (by decide)) fun _ => inert_bind inert_integer fun _ => inert_value close
  · exact inert_bind open_ fun _ => inert_bind inert_integer fun _ =>
      inert_value (inert_literal (by decide))
  · exact inert_bind open_ fun _ => inert_bind inert_integer fun _ => inert_value close
  · exact inert_bind (inert_literal (by decide)) fun _ => inert_bind inert_integer fun _ =>
      inert_value close

/-- A backslash, any unit, and hexadecimal digits. -/
def EscapedText (x : Text) : Prop :=
  ∃ v y, x = unit '\\' :: v :: y ∧ ∀ u ∈ y, UnitClass.hexDigit.holds u = true

/-- A backslash, any unit, and units that mean nothing to the scan. -/
def EscapeText (x : Text) : Prop := ∃ v y, x = unit '\\' :: v :: y ∧ InertText y

theorem EscapedText.escapeText {x : Text} (escaped : EscapedText x) : EscapeText x := by
  obtain ⟨v, y, rfl, digits⟩ := escaped
  have inert : UnitClass.hexDigit.IsInert := by decide
  exact ⟨v, y, rfl, fun u inside => inert.unit (digits u inside)⟩

theorem EscapeText.pair (v : CodeUnit) : EscapeText [unit '\\', v] := ⟨v, [], rfl, nofun⟩

theorem EscapeText.append {x y : Text} (escape : EscapeText x) (inert : InertText y) :
    EscapeText (x ++ y) := by
  obtain ⟨v, z, rfl, before⟩ := escape
  exact ⟨v, z ++ y, rfl, List.forall_mem_append.2 ⟨before, inert⟩⟩

theorem EscapeText.passes {x : Text} (escape : EscapeText x) : Passes x .outside .outside := by
  obtain ⟨v, y, rfl, inert⟩ := escape
  exact (Passes.escape v).append (.inert inert)

theorem EscapedText.bracketText {x : Text} (escaped : EscapedText x) : BracketText x := by
  obtain ⟨v, y, rfl, digits⟩ := escaped
  refine .escape v ?_
  induction y with
  | nil => exact .nil
  | cons u y ih =>
    have digit := digits u List.mem_cons_self
    exact .plain (UnitClass.ne_of_holds digit (by decide)) (UnitClass.ne_of_holds digit (by decide))
      (ih fun w inside => digits w (List.mem_cons_of_mem u inside))

/-- Behind its backslash an escape goes on with one unit and hexadecimal digits. -/
theorem shaped_escapedUnit : Shaped escapedUnit fun x => EscapedText (unit '\\' :: x) := by
  have control (v value : CodeUnit) :
      Shaped (controlLetter [v] value) fun x => EscapedText (unit '\\' :: x) :=
    shaped_value (shaped_literal ⟨v, [], rfl, nofun⟩)
  have digit : Shaped (oneOf .hexDigit) fun x => ∀ u ∈ x, UnitClass.hexDigit.holds u = true :=
    shaped_oneOf fun _ member => List.forall_mem_singleton.2 member
  have join {x y : Text} (left : ∀ u ∈ x, UnitClass.hexDigit.holds u = true)
      (right : ∀ u ∈ y, UnitClass.hexDigit.holds u = true) :
      ∀ u ∈ x ++ y, UnitClass.hexDigit.holds u = true :=
    List.forall_mem_append.2 ⟨left, right⟩
  have coded (v : CodeUnit) {p : Reader CodeUnit}
      (digits : Shaped p fun x => ∀ u ∈ x, UnitClass.hexDigit.holds u = true) :
      Shaped (do literal [v]; p) fun x => EscapedText (unit '\\' :: x) :=
    takes_bind (takes_literal [v]) (fun _ => digits) fun same digits =>
      ⟨v, _, by rw [same]; rfl, digits⟩
  refine takes_orElse (control _ _) (takes_orElse (control _ _) (takes_orElse (control _ _)
    (takes_orElse (control _ _) (takes_orElse (control _ _) (takes_orElse (control _ _)
    (takes_orElse (coded _ ?_) (takes_orElse (coded _ ?_) ?_)))))))
  · exact shaped_bind digit (fun _ => shaped_value digit) join
  · exact shaped_bind digit (fun _ => shaped_bind digit (fun _ => shaped_bind digit
      (fun _ => shaped_value digit) join) join) join
  · exact takes_anyUnit.imp fun same => ⟨_, [], congrArg _ same, nofun⟩

theorem shaped_behind {α : Type} {p : Reader α} {shape : Text → Prop}
    (shaped : Shaped p fun x => shape (unit '\\' :: x)) : Shaped (do literal "\\"; p) shape :=
  takes_bind (takes_literal _) (fun _ => shaped) fun same holds => by
    rw [same]
    exact holds

theorem shaped_escape : Shaped escape EscapedText := shaped_behind shaped_escapedUnit

theorem shaped_backslash (members : UnitClass) {β : Type} (value : CodeUnit → β) :
    Shaped (do literal "\\"; let u ← oneOf members; pure (value u))
      fun x => ∃ v, x = [unit '\\', v] :=
  shaped_behind (shaped_value (shaped_oneOf fun u _ => ⟨u, rfl⟩))

theorem shaped_namedClass : Shaped namedClass fun x => ∃ v, x = [unit '\\', v] :=
  shaped_backslash .classLetter classOf

theorem shaped_bracketUnit : Shaped bracketUnit fun x => BracketText x ∧ x ≠ [] := by
  refine takes_orElse (shaped_escape.imp fun escaped => ⟨escaped.bracketText, ?_⟩)
    (shaped_oneOf fun u member => ⟨?_, List.cons_ne_nil u []⟩)
  · obtain ⟨v, y, rfl, _⟩ := escaped
    exact List.cons_ne_nil _ _
  · exact .plain (UnitClass.ne_of_holds member (by decide))
      (UnitClass.ne_of_holds member (by decide)) .nil

theorem shaped_bracketItem : Shaped bracketItem fun x => BracketText x ∧ x ≠ [] := by
  have hyphen : Shaped (literal "-") BracketText :=
    shaped_literal (.plain (by decide) (by decide) .nil)
  refine takes_orElse (shaped_value (shaped_namedClass.imp ?_)) (takes_orElse (shaped_bind
    shaped_bracketUnit (fun _ => shaped_bind hyphen (fun _ => shaped_value shaped_bracketUnit)
    fun left right => left.append right.1) ?_) (shaped_value shaped_bracketUnit))
  · rintro x a rest ⟨v, rfl⟩
    exact ⟨.escape v .nil, List.cons_ne_nil _ _⟩
  · exact fun left right =>
      ⟨left.1.append right, List.append_ne_nil_of_left_ne_nil left.2 _⟩

theorem advances_bracketItem : Advances bracketItem := Takes.advances shaped_bracketItem And.right

theorem shaped_bracketItems : Shaped (many bracketItem) BracketText :=
  takes_many advances_bracketItem shaped_bracketItem .nil fun first rest => first.1.append rest

theorem head_ne_of_literal {u : CodeUnit} {rest : Text} (failed : (literal [u]).result rest = none) :
    rest.head? ≠ some u := by
  intro same
  obtain ⟨r, rfl⟩ := List.head?_eq_some_iff.1 same
  exact literal_eq_none.1 failed ⟨r, rfl⟩

theorem takes_negation : Takes (optional (literal "^")) fun x _ rest =>
    x = [unit '^'] ∨ x = [] ∧ rest.head? ≠ some (unit '^') :=
  takes_optional (takes_literal _) .inl fun failed => .inr ⟨rfl, head_ne_of_literal failed⟩

theorem takes_leading : Takes (optional leadingBracket) fun x _ rest =>
    x = [unit ']'] ∨ x = [] ∧ rest.head? ≠ some (unit ']') := by
  refine takes_optional (takes_value (takes_literal _) .inl) id fun failed => ?_
  refine .inr ⟨rfl, head_ne_of_literal ?_⟩
  cases read : (literal [unit ']']).result _ with
  | none => rfl
  | some found => exact absurd (bind_eq_none.1 failed _ _ read) nofun

/-- The inside of a set ends for the scan where the closing bracket follows. -/
theorem takes_bracketBody : Takes bracketBody fun x a rest =>
    a.isLeaf = true ∧ (rest.head? = some (unit ']') → Passes x .opened .inside) := by
  intro t a rest read
  obtain ⟨negated, middle, marks, further⟩ := bind_eq_some.1 read
  obtain ⟨first, last, leads, further⟩ := bind_eq_some.1 further
  obtain ⟨items, _, reads, rfl, rfl⟩ := bind_eq_some.1 further
  obtain ⟨x, rfl, marked⟩ := takes_negation marks
  obtain ⟨y, rfl, led⟩ := takes_leading leads
  obtain ⟨z, rfl, inside⟩ := shaped_bracketItems reads
  refine ⟨x ++ y ++ z, by simp, rfl, fun closes => ?_⟩
  have opened : Passes [unit '^'] .opened .negated := .plain (by decide) nofun
  have led_passes (scan : SetScan) (begun : scan = .opened ∨ scan = .negated) :
      Passes [unit ']'] scan .inside := by
    obtain rfl | rfl := begun <;> exact .plain (by decide) nofun
  obtain rfl | ⟨rfl, other⟩ := led
  · obtain rfl | ⟨rfl, _⟩ := marked
    · exact (opened.append (led_passes _ (.inr rfl))).append inside.passes
    · exact (led_passes _ (.inl rfl)).append inside.passes
  · have nonempty : z ≠ [] := by
      rintro rfl
      exact other closes
    rw [List.append_nil]
    obtain rfl | ⟨rfl, unmarked⟩ := marked
    · exact opened.append (inside.passes_first nonempty (.inr rfl))
    · obtain ⟨u, z, rfl⟩ := List.exists_cons_of_ne_nil nonempty
      exact inside.passes_first nonempty (.inl ⟨rfl, unmarked⟩)

/-- An atom around a pattern. -/
def group (inner : Reader Pattern) : Reader Pattern := do
  literal "("
  let body ← groupBody inner
  literal ")"
  pure body

/-- A set in its brackets. -/
def bracketed : Reader Pattern := do
  literal "["
  let set ← bracketBody
  literal "]"
  pure set

/-- An atom of a unit or a few that is neither a group nor a set. -/
def short : Reader Pattern :=
  (do literal "."; pure (.set false [.named .any]))
  <|> (do literal "^"; pure .anchor)
  <|> (do literal "$"; pure .anchor)
  <|> escapedAtom
  <|> (do let u ← oneOf .plain; pure (.char u))

theorem atom_eq (inner : Reader Pattern) : atom inner = (group inner <|> bracketed <|> short) := rfl

/-- The text of an atom that holds no pattern. -/
structure LeafText (x : Text) (pattern : Pattern) : Prop where
  leaf : pattern.isLeaf = true
  passes : Passes x .outside .outside
  nonempty : x ≠ []

theorem takes_bracketed : Takes bracketed fun x a _ => LeafText x a := by
  intro t a rest read
  obtain ⟨_, middle, opens, further⟩ := bind_eq_some.1 read
  obtain ⟨set, last, inside, further⟩ := bind_eq_some.1 further
  obtain ⟨_, _, closes, rfl, rfl⟩ := bind_eq_some.1 further
  obtain rfl := literal_eq_some.1 opens
  obtain rfl := literal_eq_some.1 closes
  obtain ⟨x, rfl, leaf, passes⟩ := takes_bracketBody inside
  have opened : Passes [unit '['] .outside .opened := .plain (by decide) fun _ => by decide
  have closed : Passes [unit ']'] .inside .outside := .plain (by decide) nofun
  exact ⟨[unit '['] ++ x ++ [unit ']'], by simp [Text.ofString, unit, CodeUnit.ofScalar], leaf,
    (opened.append (passes rfl)).append closed, by simp⟩

theorem shaped_escapedAtom : Shaped escapedAtom EscapeText := by
  have pair {x : Text} : (∃ v, x = [unit '\\', v]) → EscapeText x := by
    rintro ⟨v, rfl⟩
    exact .pair v
  have digit : Shaped (oneOf .positiveDigit) fun x => EscapeText (unit '\\' :: x) :=
    shaped_oneOf fun u _ => .pair u
  refine takes_orElse (shaped_value (shaped_namedClass.imp pair))
    (takes_orElse ((shaped_backslash .anchorLetter fun _ => Pattern.anchor).imp pair)
    (takes_orElse ?_ (takes_orElse ?_ (shaped_value (shaped_escape.imp EscapedText.escapeText)))))
  · have mark : Shaped (literal "\\k<") EscapeText :=
      shaped_literal ⟨unit 'k', [unit '<'], rfl, by decide⟩
    exact shaped_bind mark (fun _ => inert_bind inert_name fun _ =>
      inert_value (inert_literal (by decide))) EscapeText.append
  · exact shaped_behind (shaped_bind digit (fun _ => inert_value
      (inert_optional (inert_oneOf (by decide)))) fun left right => left.append right)

theorem yields_escapedAtom : Yields escapedAtom fun a => a.isLeaf = true :=
  yields_orElse (yields_bind fun _ => yields_pure rfl) <|
  yields_orElse (yields_bind fun _ => yields_bind fun _ => yields_pure rfl) <|
  yields_orElse (yields_bind fun _ => yields_bind fun _ => yields_bind fun _ => yields_pure rfl) <|
  yields_orElse (yields_bind fun _ => yields_bind fun _ => yields_bind fun _ => yields_pure rfl) <|
  yields_bind fun _ => yields_pure rfl

theorem takes_escapedAtom : Takes escapedAtom fun x a _ => LeafText x a :=
  (shaped_escapedAtom.and_yields yields_escapedAtom).imp fun ⟨escape, leaf⟩ => by
    refine ⟨leaf, escape.passes, ?_⟩
    obtain ⟨v, y, rfl, _⟩ := escape
    exact List.cons_ne_nil _ _

theorem takes_short : Takes short fun x a _ => LeafText x a := by
  have inert {x : Text} {a : Pattern} (leaf : a.isLeaf = true) (single : ∃ u, x = [u] ∧ IsInert u) :
      LeafText x a := by
    obtain ⟨u, rfl, inert⟩ := single
    exact ⟨leaf, .inert (List.forall_mem_singleton.2 inert), List.cons_ne_nil u []⟩
  have mark (u : CodeUnit) (isInert : IsInert u) {a : Pattern} (leaf : a.isLeaf = true) :
      Takes (do literal [u]; pure a) fun x a _ => LeafText x a :=
    takes_value (takes_literal [u]) fun same => inert leaf ⟨u, same, isInert⟩
  refine takes_orElse (mark _ (by decide) rfl) (takes_orElse (mark _ (by decide) rfl)
    (takes_orElse (mark _ (by decide) rfl) (takes_orElse takes_escapedAtom ?_)))
  have plain : UnitClass.plain.IsInert := by decide
  exact takes_value (takes_oneOf _) fun ⟨same, member⟩ => inert rfl ⟨_, same, plain.unit member⟩

theorem takes_leaf : Takes (bracketed <|> short) fun x a _ => LeafText x a :=
  takes_orElse takes_bracketed takes_short

end Grammar

end Highlight
