import Highlight.Proofs.Dialect.Opening
import Highlight.Proofs.Pattern.Contract

/-!
# The groups of a converted pattern

To the grammar a group that does not capture announces itself by its opening, at whatever depth it
stands (`Shows.contract`). A converted pattern holds none of the unsupported openings, so no
lookaround is left in it. Of groups that do not capture one kind is left: the grammar also knows
groups with inline flags, and their opening is not among the unsupported ones.
-/

namespace Highlight

namespace Pattern

def isLook : Pattern → Bool
  | look _ => true
  | _ => false

/-- A group that does not capture. -/
def isUncaptured : Pattern → Bool
  | group none _ => true
  | _ => false

/-- Whether a part is a lookaround, and whether it is a group that does not capture. -/
def kind (pattern : Pattern) : Bool × Bool := (pattern.isLook, pattern.isUncaptured)

mutual

/-- Numbering changes the kind of no part. -/
theorem kinds_number : ∀ (pattern : Pattern) (s : Numbering),
    (pattern.number s).1.parts.map kind = pattern.parts.map kind
  | alt options, s => congrArg (_ :: ·) (kinds_numberAll options s)
  | seq items, s => congrArg (_ :: ·) (kinds_numberAll items s)
  | group none body, s => congrArg (_ :: ·) (kinds_number body s)
  | group (some capture) body, s => congrArg (_ :: ·) (kinds_number body (s.enter capture.name))
  | look body, s => congrArg (_ :: ·) (kinds_number body s)
  | repeated body _ _, s => congrArg (_ :: ·) (kinds_number body s)
  | char _, _ | set _ _, _ | anchor, _ | backref _, _ => rfl

theorem kinds_numberAll : ∀ (items : List Pattern) (s : Numbering),
    (partsOfAll (numberAll items s).1).map kind = (partsOfAll items).map kind
  | [], _ => rfl
  | item :: items, s => by
    rw [numberAll, partsOfAll, partsOfAll, List.map_append, List.map_append]
    exact congrArg₂ _ (kinds_number item s) (kinds_numberAll items (item.number s).2)

end

end Pattern

namespace Dialect

open Reader

/-- How lookarounds open. -/
def lookOpenings : List Text := ["(?=", "(?!", "(?<=", "(?<!"]

/-- Somewhere in the text a group with inline flags opens. -/
def Flagged (t : Text) : Prop :=
  ∃ flags : Text, flags ≠ [] ∧ (∀ u ∈ flags, UnitClass.flagOrMinus.holds u = true) ∧
    ("(?" : Text) ++ flags ++ (":" : Text) <:+: t

/-- The text holds an opening of the kind of the part, if the part is a lookaround or a group that
does not capture. -/
def Announces (x : Text) : Pattern → Prop
  | .look _ => ∃ opening ∈ lookOpenings, opening <:+: x
  | .group none _ => "(?:" <:+: x ∨ Flagged x
  | _ => True

theorem Flagged.mono {x y : Text} (flagged : Flagged x) (inside : x <:+: y) : Flagged y := by
  obtain ⟨flags, nonempty, known, stands⟩ := flagged
  exact ⟨flags, nonempty, known, stands.trans inside⟩

theorem Announces.mono {x y : Text} {part : Pattern} (announces : Announces x part)
    (inside : x <:+: y) : Announces y part := by
  unfold Announces at announces ⊢
  split
  · obtain ⟨opening, known, stands⟩ := announces
    exact ⟨opening, known, stands.trans inside⟩
  · exact announces.imp (fun stands => stands.trans inside) fun flagged => flagged.mono inside
  · trivial

/-- All parts of the patterns announce themselves in the text. -/
def Shows (x : Text) (patterns : List Pattern) : Prop :=
  ∀ part ∈ Pattern.partsOfAll patterns, Announces x part

section Shows

variable {x y : Text} {patterns : List Pattern} {a body : Pattern}

theorem Shows.mono (shows_ : Shows x patterns) (inside : x <:+: y) : Shows y patterns :=
  fun part isPart => (shows_ part isPart).mono inside

theorem shows_single : Shows x [a] ↔ ∀ part ∈ a.parts, Announces x part := by
  rw [Shows, Pattern.partsOfAll, Pattern.partsOfAll, List.append_nil]

theorem shows_of_isLeaf (leaf : a.isLeaf = true) : Shows x [a] := by
  rw [shows_single, Pattern.parts_of_isLeaf leaf, List.forall_mem_singleton]
  cases a with
  | char | set | anchor | backref => trivial
  | _ => cases leaf

theorem shows_around {node : Pattern → Pattern} (parts : (node body).parts = node body :: body.parts)
    (announces : Announces x (node body)) (inner : Shows x [body]) : Shows x [node body] := by
  rw [shows_single] at inner ⊢
  rw [parts, List.forall_mem_cons]
  exact ⟨announces, inner⟩

theorem shows_captured {name : Option Text} (inner : Shows x [body]) :
    Shows x [Grammar.captured name body] := by
  rw [shows_single] at inner ⊢
  exact List.forall_mem_cons.2 ⟨trivial, inner⟩

end Shows

section GroupBody

open Grammar

variable {inner : Reader Pattern}

/-- Whatever stands in front of them, parts announce themselves. -/
theorem shows_behind {α : Type} {p : Reader α} {f : α → Reader Pattern}
    (first : Shaped p fun _ => True) (second : ∀ a, Takes (f a) fun x a _ => Shows x [a]) :
    Takes (p >>= f) fun x a _ => Shows x [a] :=
  takes_bind first second fun _ shown => shown.mono (List.suffix_append _ _).isInfix

/-- A group with inline flags announces itself by them. -/
theorem shows_flagged (ih : Takes inner fun x a _ => Shows x [a]) :
    Takes (do
      literal "?"
      let _ ← Reader.atLeastOnce (oneOf .flagOrMinus)
      literal ":"
      let body ← inner
      pure (.group none body)) fun x a _ => Shows (unit '(' :: x) [a] := by
  intro t a rest read
  obtain ⟨_, afterMark, opens, further⟩ := bind_eq_some.1 read
  obtain ⟨_, afterFlags, flagged, further⟩ := bind_eq_some.1 further
  obtain ⟨_, afterColon, colon, further⟩ := bind_eq_some.1 further
  obtain ⟨body, _, inside, rfl, rfl⟩ := bind_eq_some.1 further
  obtain rfl := literal_eq_some.1 opens
  obtain ⟨flags, rfl, nonempty, known⟩ := shaped_atLeastOnce _ flagged
  obtain rfl := literal_eq_some.1 colon
  obtain ⟨y, rfl, shown⟩ := ih inside
  refine ⟨"?" ++ (flags ++ (":" ++ y)), by simp only [List.append_assoc], ?_⟩
  have whole : unit '(' :: ("?" ++ (flags ++ (":" ++ y))) = ("(?" ++ flags ++ ":") ++ y := by
    simp only [List.append_assoc]
    rfl
  show Shows (unit '(' :: _) _
  rw [whole]
  refine shows_around rfl (.inr ⟨flags, nonempty, known, (List.prefix_append _ y).isInfix⟩) ?_
  exact shown.mono (List.suffix_append _ y).isInfix

/-- A group announces itself by what marks its kind. -/
theorem shows_marked (ih : Takes inner fun x a _ => Shows x [a]) (text : Text)
    {node : Pattern → Pattern} (parts : ∀ body, (node body).parts = node body :: body.parts)
    (announces : ∀ y body, Announces (unit '(' :: (text ++ y)) (node body)) :
    Takes (do literal text; let body ← inner; pure (node body))
      fun x a _ => Shows (unit '(' :: x) [a] := by
  intro t a rest read
  obtain ⟨_, middle, opens, further⟩ := bind_eq_some.1 read
  obtain ⟨body, _, inside, rfl, rfl⟩ := bind_eq_some.1 further
  obtain rfl := literal_eq_some.1 opens
  obtain ⟨y, rfl, shown⟩ := ih inside
  refine ⟨text ++ y, (List.append_assoc _ _ _).symm, shows_around (parts body) (announces y body) ?_⟩
  exact shown.mono (List.suffix_append (unit '(' :: text) y).isInfix

theorem shows_look (ih : Takes inner fun x a _ => Shows x [a]) {text : Text}
    (known : unit '(' :: text ∈ lookOpenings) :
    Takes (do literal text; let body ← inner; pure (.look body))
      fun x a _ => Shows (unit '(' :: x) [a] :=
  shows_marked ih text (fun _ => rfl) fun y _ =>
    ⟨_, known, (List.prefix_append (unit '(' :: text) y).isInfix⟩

theorem shows_named (ih : Takes inner fun x a _ => Shows x [a]) (text : Text) : Takes (do
    literal text
    let name ← name
    literal ">"
    let body ← inner
    pure (captured (some name) body)) fun x a _ => Shows (unit '(' :: x) [a] := by
  have mark (text : Text) : Shaped (literal text) fun _ => True := shaped_literal trivial
  have name_ : Shaped name fun _ => True := inert_name.imp fun _ => trivial
  refine Takes.imp (shows_behind (mark text) fun _ => shows_behind name_ fun _ =>
    shows_behind (mark ">") fun _ => takes_value ih shows_captured) fun shown => ?_
  exact shown.mono (List.suffix_cons _ _).isInfix

/-- What is no group and contains none has nothing to announce. -/
theorem shows_nothing {p : Reader Pattern} (takes : Shaped p fun _ => True)
    (yields : Yields p fun a => Shows [] [a]) : Takes p fun x a _ => Shows (unit '(' :: x) [a] :=
  (takes.and_yields yields).imp fun ⟨_, shown⟩ => shown.mono List.nil_infix

/-- A group of any kind announces itself by its parenthesis and what follows it. -/
theorem shows_groupBody (ih : Takes inner fun x a _ => Shows x [a]) :
    Takes (groupBody inner) fun x a _ => Shows (unit '(' :: x) [a] := by
  have mark (text : Text) : Shaped (literal text) fun _ => True := shaped_literal trivial
  have units (members : UnitClass) : Shaped (many (oneOf members)) fun _ => True :=
    (shaped_many_oneOf members).imp fun _ => trivial
  have flags (members : UnitClass) : Shaped (atLeastOnce (oneOf members)) fun _ => True :=
    (shaped_atLeastOnce members).imp fun _ => trivial
  have name_ : Shaped name fun _ => True := inert_name.imp fun _ => trivial
  have empty : Shows [] [.seq []] := by
    rw [shows_single, Pattern.parts, Pattern.partsOfAll, List.forall_mem_singleton]
    trivial
  refine takes_orElse (shows_marked ih _ (fun _ => rfl) ?_) (takes_orElse (shows_named ih _)
    (takes_orElse ?_ (takes_orElse (shows_look ih (by decide)) (takes_orElse
    (shows_look ih (by decide)) (takes_orElse (shows_look ih (by decide)) (takes_orElse
    (shows_look ih (by decide)) (takes_orElse (shows_named ih _) (takes_orElse ?_
    (takes_orElse (shows_flagged ih) (takes_orElse ?_ ?_))))))))))
  · exact fun y _ => .inl (List.prefix_append "(?:" y).isInfix
  · exact shows_nothing (shaped_bind (mark _) (fun _ => shaped_value name_) fun _ _ => trivial)
      (yields_bind fun _ => yields_bind fun _ => yields_pure (shows_of_isLeaf rfl))
  · exact shows_nothing (shaped_bind (mark _) (fun _ => shaped_value (units _)) fun _ _ => trivial)
      (yields_bind fun _ => yields_bind fun _ => yields_pure empty)
  · exact shows_nothing (shaped_bind (mark _) (fun _ => shaped_value (flags _)) fun _ _ => trivial)
      (yields_bind fun _ => yields_bind fun _ => yields_pure empty)
  · have inside : Takes (do let body ← inner; pure (captured none body)) fun x a _ => Shows x [a] :=
      takes_value ih shows_captured
    exact inside.imp fun shown => shown.mono (List.suffix_cons _ _).isInfix

/-- The patterns of a text announce themselves in it. -/
theorem Shows.contract : Contract fun x as _ => Shows x as where
  append {x y as bs _} left right := by
    intro part isPart
    rw [Pattern.partsOfAll_append, List.mem_append] at isPart
    exact isPart.elim (left.mono (List.prefix_append x y).isInfix part)
      (right.mono (List.suffix_append x y).isInfix part)
  inert _ := nofun
  leaf leafText := shows_of_isLeaf leafText.leaf
  group ih := by
    intro t a rest read
    obtain ⟨_, rfl, b, rfl, inside⟩ := takes_group (ih.imp fun _ => trivial) read
    obtain ⟨x, parts, shown⟩ := shows_groupBody ih inside
    obtain rfl := List.append_cancel_right parts
    exact ⟨_, rfl, shown.mono (List.prefix_append _ _).isInfix⟩
  repeated inner := by
    rw [shows_single] at inner ⊢
    exact List.forall_mem_cons.2 ⟨trivial, inner⟩
  seq inner := by
    rw [shows_single]
    exact List.forall_mem_cons.2 ⟨trivial, inner⟩
  alt inner := by
    rw [shows_single]
    exact List.forall_mem_cons.2 ⟨trivial, inner⟩

end GroupBody

theorem readTree_shows {t : Text} {root : Pattern} (accepted : Pattern.readTree t = .ok root) :
    Shows t [root] := by
  obtain ⟨x, parts, shown⟩ := Shows.contract.pattern _ (Pattern.readTree_eq_ok.1 accepted)
  rwa [parts, List.append_nil]

/-- In a converted pattern that the grammar accepts there is no lookaround at any depth, and a group
that does not capture only if one with inline flags opens somewhere in the text. -/
theorem converted_captures {source pattern : Text} {tree : NumberedPattern}
    (converted : convert source = .ok pattern) (accepted : Pattern.read pattern = .ok tree) :
    ∀ part ∈ tree.root.parts,
      part.isLook = false ∧ (part.isUncaptured = true → Flagged pattern) := by
  have free := convert_free converted
  obtain ⟨root, read, rfl⟩ := Pattern.read_eq_ok.1 accepted
  have shown := shows_single.1 (readTree_shows read)
  have looks : ∀ opening ∈ lookOpenings, opening ∈ unsupportedOpenings := by decide
  have all : ∀ part ∈ root.parts,
      part.isLook = false ∧ (part.isUncaptured = true → Flagged pattern) := by
    intro part isPart
    have announced := shown part isPart
    cases part with
    | look body =>
      obtain ⟨opening, known, stands⟩ := announced
      exact absurd stands (free opening (looks opening known))
    | group capture body =>
      cases capture with
      | none =>
        exact ⟨rfl, fun _ => announced.resolve_left (free "(?:" (by decide))⟩
      | some capture => exact ⟨rfl, nofun⟩
    | _ => exact ⟨rfl, nofun⟩
  intro part isPart
  have kinds := Pattern.kinds_number root .empty
  obtain ⟨original, isOriginal, same⟩ := List.mem_map.1 (kinds ▸ List.mem_map_of_mem isPart)
  obtain ⟨look, uncaptured⟩ := Prod.mk.inj same
  rw [← look, ← uncaptured]
  exact all original isOriginal

/-- A group with an inline flag opens it. -/
def flaggedPattern : Text := "(?i:a)(b)"

/-- The conversion lets the group pass, and it does not capture. -/
theorem converted_flaggedPattern : ∃ tree, convert flaggedPattern = .ok flaggedPattern ∧
    Pattern.read flaggedPattern = .ok tree ∧
    ∃ part ∈ tree.root.parts, part.isUncaptured = true := by
  have converted : (convert flaggedPattern).toOption = some flaggedPattern := by decide +kernel
  have found : (Pattern.read flaggedPattern).toOption.map
      (fun tree => tree.root.parts.any Pattern.isUncaptured) = some true := by decide +kernel
  obtain ⟨tree, read, found⟩ := Option.map_eq_some_iff.1 found
  exact ⟨tree, eq_ok_of_toOption converted, eq_ok_of_toOption read, List.any_eq_true.1 found⟩

/-- A lookahead that is rewritten, and a group with an inline flag. -/
def foldedPattern : Text := "(?!:)(?i:a)"

theorem converted_captures_foldedPattern : ∃ pattern tree, convert foldedPattern = .ok pattern ∧
    Pattern.read pattern = .ok tree ∧ (∀ part ∈ tree.root.parts, part.isLook = false) ∧
    (∃ part ∈ tree.root.parts, part.isUncaptured = true) ∧ Flagged pattern := by
  have found : (convert foldedPattern).toOption.bind (fun pattern =>
      (Pattern.read pattern).toOption.map fun tree =>
        tree.root.parts.any Pattern.isUncaptured) = some true := by decide +kernel
  obtain ⟨pattern, converted, found⟩ := Option.bind_eq_some_iff.1 found
  obtain ⟨tree, read, found⟩ := Option.map_eq_some_iff.1 found
  have captures := converted_captures (eq_ok_of_toOption converted) (eq_ok_of_toOption read)
  obtain ⟨part, isPart, uncaptured⟩ := List.any_eq_true.1 found
  exact ⟨pattern, tree, eq_ok_of_toOption converted, eq_ok_of_toOption read,
    fun part isPart => (captures part isPart).1, ⟨part, isPart, uncaptured⟩,
    (captures part isPart).2 uncaptured⟩

end Dialect

end Highlight
