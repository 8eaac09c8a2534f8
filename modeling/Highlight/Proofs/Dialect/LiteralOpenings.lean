import Highlight.Proofs.Dialect.Converted
import Highlight.Proofs.Pattern.Ground
import Highlight.Proofs.Text.Replacing

/-!
# Openings that open nothing

The conversion looks for unsupported openings anywhere in a pattern. To the grammar a parenthesis
that opens a group as one of them would is a lookaround or a group that does not capture
(`Grammar.Opens.contract`), so in a pattern without any each opening that occurs begins at a
parenthesis that is escaped or stands in a set or a comment. Replacing the idioms makes no opening
(`free_respelled`), so such a parenthesis is the only reason to refuse the pattern.
-/

namespace Highlight

namespace Dialect

/-- What a mark goes on with behind its question mark. -/
theorem mark_prefix {mark t : Text} (listed : mark ∈ marks) (begins : mark <+: t) :
    ∃ v r, t = unit '?' :: v :: r ∧ v ∈ (":=!<" : Text) ∧
      (v = unit '<' → ∃ w s, r = w :: s ∧ w ∈ ("=!" : Text)) := by
  obtain ⟨rest, rfl⟩ := begins
  simp only [marks, unsupportedOpenings, List.map_cons, List.map_nil, List.mem_cons,
    List.not_mem_nil, or_false] at listed
  obtain rfl | rfl | rfl | rfl | rfl := listed
  · exact ⟨unit ':', rest, rfl, by decide, fun same => absurd same (by decide)⟩
  · exact ⟨unit '=', rest, rfl, by decide, fun same => absurd same (by decide)⟩
  · exact ⟨unit '!', rest, rfl, by decide, fun same => absurd same (by decide)⟩
  · exact ⟨unit '<', _, rfl, by decide, fun _ => ⟨unit '=', rest, rfl, by decide⟩⟩
  · exact ⟨unit '<', _, rfl, by decide, fun _ => ⟨unit '!', rest, rfl, by decide⟩⟩

/-- Nothing in the text is marked as a group that does not capture. -/
def Unmarked (t : Text) : Prop := ∀ mark ∈ marks, ¬ mark <+: t

theorem unmarked_of_head {t : Text} (plain : t.head? ≠ some (unit '?')) : Unmarked t := by
  intro mark listed begins
  obtain ⟨v, r, rfl, _⟩ := mark_prefix listed begins
  exact plain rfl

theorem unmarked_of_second {v : CodeUnit} {r : Text} (other : v ∉ (":=!<" : Text)) :
    Unmarked (unit '?' :: v :: r) := by
  intro mark listed begins
  obtain ⟨_, _, same, inside, _⟩ := mark_prefix listed begins
  cases same
  exact other inside

theorem unmarked_of_third {w : CodeUnit} {s : Text} (other : w ∉ ("=!" : Text)) :
    Unmarked (unit '?' :: unit '<' :: w :: s) := by
  intro mark listed begins
  obtain ⟨_, _, same, _, third⟩ := mark_prefix listed begins
  cases same
  obtain ⟨_, _, same, inside⟩ := third rfl
  cases same
  exact other inside

/-- Where a group opens in the text, it opens like one that captures. -/
def OpensCaptures (ground : Ground) (x rest : Text) : Prop :=
  ∀ y z, x = y ++ unit '(' :: z → (ground.run y).opensGroup = true → Unmarked (z ++ rest)

section OpensCaptures

variable {ground : Ground} {x y rest : Text}

theorem OpensCaptures.of_not_mem (bare : unit '(' ∉ x) : OpensCaptures ground x rest := by
  rintro y z rfl
  exact absurd List.mem_append_cons_self bare

theorem OpensCaptures.append (first : OpensCaptures ground x (y ++ rest))
    (second : OpensCaptures (ground.run x) y rest) : OpensCaptures ground (x ++ y) rest := by
  intro v z parts opens
  obtain ⟨w, rfl, back⟩ | ⟨w, rfl, front⟩ := List.append_eq_append_iff.1 parts
  · rw [Ground.run_append] at opens
    exact second w z back opens
  · cases w with
    | nil =>
      rw [List.append_nil] at second
      exact second [] z front.symm opens
    | cons u w =>
      obtain ⟨rfl, rfl⟩ := List.cons.inj front
      show Unmarked (w ++ y ++ rest)
      rw [List.append_assoc]
      exact first v w rfl opens

/-- Behind a parenthesis a text without a question mark in front stands as in code. -/
theorem OpensCaptures.paren (plain : x.head? ≠ some (unit '?'))
    (opens : OpensCaptures .code x rest) : OpensCaptures .paren x rest := by
  intro y z parts open_
  refine opens y z parts ?_
  cases y with
  | nil => rfl
  | cons u y =>
    have other : u ≠ unit '?' := by
      rintro rfl
      rw [parts] at plain
      exact plain rfl
    rwa [Ground.run_cons, Ground.next_paren other] at open_

/-- A text in parentheses opens groups as its inside does, and by its own parenthesis. -/
theorem OpensCaptures.group (unmarked : Unmarked (x ++ unit ')' :: rest))
    (opens : OpensCaptures .paren x (unit ')' :: rest)) :
    OpensCaptures .code (unit '(' :: x ++ [unit ')']) rest := by
  have own : OpensCaptures .code [unit '('] (x ++ [unit ')'] ++ rest) := by
    intro y z parts _
    cases y with
    | nil =>
      obtain ⟨_, rfl⟩ := List.cons.inj parts
      rwa [List.append_assoc]
    | cons u y => exact absurd (List.cons.inj parts).2 (by simp)
  have closes : OpensCaptures (Ground.run .paren x) [unit ')'] rest := .of_not_mem (by decide)
  exact own.append (opens.append closes)

end OpensCaptures

/-- There is no lookaround among the parts of the patterns, and every group captures. -/
def AllCapture (patterns : List Pattern) : Prop :=
  ∀ part ∈ Pattern.partsOfAll patterns, part.isLook = false ∧ part.isUncaptured = false

section AllCapture

variable {as bs : List Pattern} {node body : Pattern}

theorem allCapture_append : AllCapture (as ++ bs) ↔ AllCapture as ∧ AllCapture bs := by
  unfold AllCapture
  rw [Pattern.partsOfAll_append]
  exact List.forall_mem_append

theorem allCapture_single : AllCapture [node] ↔
    ∀ part ∈ node.parts, part.isLook = false ∧ part.isUncaptured = false := by
  rw [AllCapture, Pattern.partsOfAll, Pattern.partsOfAll, List.append_nil]

theorem AllCapture.self (all : AllCapture [node]) :
    node.isLook = false ∧ node.isUncaptured = false :=
  allCapture_single.1 all node node.self_mem_parts

theorem AllCapture.items (all : AllCapture [node])
    (parts : node.parts = node :: Pattern.partsOfAll as) : AllCapture as := by
  rw [allCapture_single, parts] at all
  exact (List.forall_mem_cons.1 all).2

theorem AllCapture.within (all : AllCapture [node]) (parts : node.parts = node :: body.parts) :
    AllCapture [body] :=
  all.items (by rw [parts, Pattern.partsOfAll, Pattern.partsOfAll, List.append_nil])

end AllCapture

end Dialect

namespace Grammar

open Reader Dialect

/-- The text of patterns ends in code, and where every group in them captures, each opens as one
that does. -/
structure Opens (x : Text) (as : List Pattern) (rest : Text) : Prop where
  code : Ground.run .code x = .code
  captures : AllCapture as → OpensCaptures .code x rest

/-- The same for the inside of a group, which is followed by a parenthesis. -/
structure OpensInside (x : Text) (a : Pattern) (rest : Text) : Prop where
  code : Ground.run .paren (x ++ [unit ')']) = .code
  captures : AllCapture [a] → rest.head? = some (unit ')') →
    Unmarked (x ++ rest) ∧ OpensCaptures .paren x rest

section GroupBody

variable {depth : Nat} {front x rest : Text} {a body : Pattern}

/-- Behind what marks a group, its text is that of its pattern. -/
theorem opensInside_front (code : Ground.run .paren front = .code) (bare : unit '(' ∉ front)
    (inside : Ground.run .code x = .code)
    (captures : AllCapture [a] → Unmarked (front ++ x ++ rest) ∧ OpensCaptures .code x rest) :
    OpensInside (front ++ x) a rest where
  code := by
    rw [Ground.run_append, Ground.run_append, code, inside]
    rfl
  captures all _ := by
    obtain ⟨unmarked, opens⟩ := captures all
    refine ⟨unmarked, .append (.of_not_mem bare) ?_⟩
    rwa [code]

/-- What opens like a group that does not capture is one. -/
theorem opensInside_marked {inner : Reader Pattern}
    (ih : Takes inner fun x a rest => Opens x [a] rest) {text : Text} {node : Pattern → Pattern}
    (begins : Ground.run .paren text = .code) (bare : unit '(' ∉ text)
    (uncaptured : ∀ body, (node body).isLook = true ∨ (node body).isUncaptured = true) :
    Takes (do literal text; let body ← inner; pure (node body)) OpensInside := by
  have inside : Takes (do let body ← inner; pure (node body)) fun x a _ =>
      Ground.run .code x = .code ∧ ∃ body, a = node body :=
    takes_value ih fun opens => ⟨opens.code, _, rfl⟩
  refine takes_bind (takes_literal text) (fun _ => inside) ?_
  rintro _ x _ _ rest rfl ⟨code, body, rfl⟩
  refine opensInside_front begins bare code fun all => ?_
  obtain ⟨look, captured⟩ := all.self
  obtain isLook | isUncaptured := uncaptured body
  · exact absurd (look.symm.trans isLook) Bool.false_ne_true
  · exact absurd (captured.symm.trans isUncaptured) Bool.false_ne_true

theorem shaped_name : Shaped name fun x =>
    ∃ u y, x = u :: y ∧ UnitClass.nameStart.holds u = true ∧ InertText x := by
  have start : UnitClass.nameStart.IsInert := by decide
  have first : Shaped (oneOf .nameStart) fun x =>
      ∃ u, x = [u] ∧ UnitClass.nameStart.holds u = true :=
    shaped_oneOf fun u member => ⟨u, rfl, member⟩
  refine shaped_bind first (fun _ => inert_value (inert_many_oneOf (by decide))) ?_
  rintro _ y ⟨u, rfl, member⟩ inert
  exact ⟨u, y, rfl, member, List.forall_mem_cons.2 ⟨start.unit member, inert⟩⟩

/-- The name of a group is code, and no parenthesis stands in it. -/
theorem opensInside_named {inner : Reader Pattern}
    (ih : Takes inner fun x a rest => Opens x [a] rest) {text : Text}
    (begins : Ground.run .paren text = .code) (bare : unit '(' ∉ text)
    (unmarked : ∀ u r, UnitClass.nameStart.holds u = true → Unmarked (text ++ u :: r)) :
    Takes (do
      literal text
      let name ← name
      literal ">"
      let body ← inner
      pure (captured (some name) body)) OpensInside := by
  intro t a rest read
  obtain ⟨_, afterText, opens, further⟩ := bind_eq_some.1 read
  obtain ⟨n, afterName, named, further⟩ := bind_eq_some.1 further
  obtain ⟨_, afterClose, closes, further⟩ := bind_eq_some.1 further
  obtain ⟨body, _, inside, rfl, rfl⟩ := bind_eq_some.1 further
  obtain rfl := literal_eq_some.1 opens
  obtain rfl := literal_eq_some.1 closes
  obtain ⟨x, rfl, opened⟩ := ih inside
  obtain ⟨_, rfl, u, z, rfl, start, inert⟩ := shaped_name named
  have behind : InertText (u :: z ++ ">") :=
    List.forall_mem_append.2 ⟨inert, (by decide : InertText ">")⟩
  refine ⟨text ++ (u :: z ++ ">") ++ x, by simp only [List.append_assoc], ?_⟩
  refine opensInside_front ?_ ?_ opened.code fun all => ⟨?_, opened.captures (all.within rfl)⟩
  · rw [Ground.run_append, begins, Ground.run_inert behind]
  · rw [List.mem_append, not_or]
    exact ⟨bare, behind.bare⟩
  · simp only [List.append_assoc, List.cons_append]
    exact unmarked u _ start

/-- Nothing but the parenthesis behind it ends a comment, so none opens a group in it. -/
theorem opensInside_comment {comment : Text} (open_ : unit ')' ∉ comment) :
    OpensInside ("?#" ++ comment) a rest where
  code := by
    rw [List.append_assoc, Ground.run_append, Ground.run_append]
    show Ground.run (Ground.run .comment comment) _ = _
    rw [Ground.run_comment open_]
    rfl
  captures _ _ := by
    refine ⟨unmarked_of_second (v := unit '#') (by decide), .append (.of_not_mem (by decide)) ?_⟩
    rintro y z rfl opens
    have inside : unit ')' ∉ y := fun member => open_ (List.mem_append_left _ member)
    have stands : Ground.run .comment y = .comment := Ground.run_comment inside
    change (Ground.run .comment y).opensGroup = true at opens
    rw [stands] at opens
    cases opens

/-- A text that marks a group, and in which no pattern stands. -/
theorem opensInside_flat (code : Ground.run .paren front = .code) (bare : unit '(' ∉ front)
    (unmarked : Unmarked (front ++ rest)) : OpensInside front a rest := by
  have held : OpensInside (front ++ []) a rest := opensInside_front code bare rfl fun _ =>
    ⟨by rwa [List.append_nil], .of_not_mem List.not_mem_nil⟩
  rwa [List.append_nil] at held

theorem opensInside_reference :
    Takes (do literal "?P="; let name ← name; pure (Pattern.backref (.name name)))
      OpensInside := by
  intro t a rest read
  obtain ⟨_, middle, opens, further⟩ := bind_eq_some.1 read
  obtain ⟨n, _, named, rfl, rfl⟩ := bind_eq_some.1 further
  obtain rfl := literal_eq_some.1 opens
  obtain ⟨x, rfl, inert⟩ := inert_name named
  refine ⟨"?P=" ++ x, (List.append_assoc _ _ _).symm, opensInside_flat ?_ ?_ ?_⟩
  · rw [Ground.run_append]
    exact Ground.run_inert inert
  · rw [List.mem_append, not_or]
    exact ⟨by decide, inert.bare⟩
  · exact unmarked_of_second (v := unit 'P') (by decide)

theorem opensInside_flagged (ih : Takes (pattern depth) fun x a rest => Opens x [a] rest) :
    Takes (do
      literal "?"
      let _ ← Reader.atLeastOnce (oneOf .flagOrMinus)
      literal ":"
      let body ← pattern depth
      pure (.group none body)) OpensInside := by
  intro t a rest read
  obtain ⟨_, afterMark, opens, further⟩ := bind_eq_some.1 read
  obtain ⟨_, afterFlags, flagged, further⟩ := bind_eq_some.1 further
  obtain ⟨_, afterColon, colon, further⟩ := bind_eq_some.1 further
  obtain ⟨body, _, inside, rfl, rfl⟩ := bind_eq_some.1 further
  obtain rfl := literal_eq_some.1 opens
  obtain ⟨flags, rfl, nonempty, known⟩ := shaped_atLeastOnce _ flagged
  obtain rfl := literal_eq_some.1 colon
  obtain ⟨x, rfl, opened⟩ := ih inside
  obtain ⟨code, bare⟩ := Ground.run_flags (by decide) (by decide) nonempty known
  refine ⟨"?" ++ (flags ++ ":") ++ x, by simp only [List.append_assoc], ?_⟩
  refine opensInside_front ?_ ?_ opened.code fun all => absurd all.self.2 nofun
  · show Ground.run .mark (flags ++ ":") = .code
    rw [Ground.run_append, code]
    rfl
  · rw [List.mem_append, List.mem_append, not_or, not_or]
    exact ⟨by decide, bare, by decide⟩

theorem opensInside_flags :
    Takes (do literal "?"; let _ ← Reader.atLeastOnce (oneOf .flag); pure (Pattern.seq []))
      OpensInside := by
  intro t a rest read
  obtain ⟨_, afterMark, opens, further⟩ := bind_eq_some.1 read
  obtain ⟨_, _, flagged, rfl, rfl⟩ := bind_eq_some.1 further
  obtain rfl := literal_eq_some.1 opens
  obtain ⟨flags, rfl, nonempty, known⟩ := shaped_atLeastOnce _ flagged
  obtain ⟨code, bare⟩ := Ground.run_flags (by decide) (by decide) nonempty known
  refine ⟨"?" ++ flags, (List.append_assoc _ _ _).symm, opensInside_flat code ?_ ?_⟩
  · rw [List.mem_append, not_or]
    exact ⟨by decide, bare⟩
  · obtain ⟨u, flags, rfl⟩ := List.exists_cons_of_ne_nil nonempty
    exact unmarked_of_second (v := u)
      (UnitClass.not_mem_of_holds (known u List.mem_cons_self) (by decide))

/-- A group without a mark: no pattern begins with a question mark. -/
theorem opensInside_plain (ih : Takes (pattern depth) fun x a rest => Opens x [a] rest) :
    Takes (do let body ← pattern depth; pure (captured none body)) OpensInside := by
  intro t a rest read
  obtain ⟨body, _, inside, rfl, rfl⟩ := bind_eq_some.1 read
  obtain ⟨x, rfl, opened⟩ := ih inside
  have plain : x.head? ≠ some (unit '?') := by
    intro begins
    obtain ⟨x, rfl⟩ := List.head?_eq_some_iff.1 begins
    have nothing : rest = unit '?' :: (x ++ rest) := pattern_mark inside
    have longer := congrArg List.length nothing
    rw [List.length_cons, List.length_append] at longer
    omega
  refine ⟨x, rfl, ?_, fun all closes => ⟨unmarked_of_head ?_, ?_⟩⟩
  · cases x with
    | nil => rfl
    | cons u x =>
      have other : u ≠ unit '?' := fun same => plain (congrArg some same)
      rw [List.cons_append, Ground.run_cons, Ground.next_paren other, ← Ground.run_cons,
        ← List.cons_append, Ground.run_append, opened.code]
      rfl
  · cases x with
    | nil =>
      rw [List.nil_append, closes]
      decide
    | cons u x => exact plain
  · exact .paren plain (opened.captures (all.within rfl))

theorem opensInside_groupBody (ih : Takes (pattern depth) fun x a rest => Opens x [a] rest) :
    Takes (groupBody (pattern depth)) OpensInside := by
  have look {text : Text} (begins : Ground.run .paren text = .code) (bare : unit '(' ∉ text) :
      Takes (do literal text; let body ← pattern depth; pure (.look body)) OpensInside :=
    opensInside_marked ih begins bare fun _ => .inl rfl
  refine takes_orElse (opensInside_marked ih rfl (by decide) fun _ => .inr rfl)
    (takes_orElse (opensInside_named ih rfl (by decide) ?_) (takes_orElse opensInside_reference
    (takes_orElse (look rfl (by decide)) (takes_orElse (look rfl (by decide)) (takes_orElse
    (look rfl (by decide)) (takes_orElse (look rfl (by decide)) (takes_orElse
    (opensInside_named ih rfl (by decide) ?_) (takes_orElse ?_ (takes_orElse
    (opensInside_flagged ih) (takes_orElse opensInside_flags (opensInside_plain ih)))))))))))
  · exact fun u r _ => unmarked_of_second (v := unit 'P') (by decide)
  · exact fun u r start => unmarked_of_third (UnitClass.not_mem_of_holds start (by decide))
  · intro t a rest read
    obtain ⟨_, middle, opens, further⟩ := bind_eq_some.1 read
    obtain ⟨n, _, comments, rfl, rfl⟩ := bind_eq_some.1 further
    obtain rfl := literal_eq_some.1 opens
    obtain ⟨x, rfl, known⟩ := shaped_many_oneOf _ comments
    refine ⟨"?#" ++ x, (List.append_assoc _ _ _).symm, opensInside_comment fun closes => ?_⟩
    exact absurd (known _ closes) (by decide)

theorem Opens.contract : Contract Opens where
  append {x y as bs rest} left right := by
    refine ⟨by rw [Ground.run_append, left.code, right.code], fun all => ?_⟩
    obtain ⟨first, second⟩ := allCapture_append.1 all
    refine (left.captures first).append ?_
    rw [left.code]
    exact right.captures second
  inert inert := ⟨Ground.run_inert inert, fun _ => .of_not_mem (inert.bare)⟩
  leaf leafText := by
    obtain ⟨flat, code⟩ := leafText.ground
    exact ⟨code, fun _ y z parts opens => absurd ((flat y z parts).symm.trans opens) nofun⟩
  group ih := by
    intro t a rest read
    obtain ⟨_, rfl, b, rfl, inside⟩ := takes_group (ih.imp fun _ => trivial) read
    obtain ⟨x, parts, code, captures⟩ := opensInside_groupBody ih inside
    obtain rfl := List.append_cancel_right parts
    refine ⟨_, rfl, code, fun all => ?_⟩
    obtain ⟨unmarked, opens⟩ := captures all rfl
    exact .group unmarked opens
  repeated held := ⟨held.code, fun all => held.captures (all.within rfl)⟩
  seq held := ⟨held.code, fun all => held.captures (all.items rfl)⟩
  alt held := ⟨held.code, fun all => held.captures (all.items rfl)⟩

end GroupBody

end Grammar

namespace Dialect

open Pattern

variable {p t : Text} {idiom : Idiom}

/-- Where every group captures, an opening of one that does not stands at a parenthesis that opens
no group. -/
theorem opening_literal {root : Pattern} (accepted : readTree t = .ok root)
    (captures : AllCapture [root]) {before opening after : Text}
    (listed : opening ∈ unsupportedOpenings) (parts : t = before ++ opening ++ after) :
    (Ground.run .code before).opensGroup = false := by
  obtain ⟨x, rfl, _, opens⟩ := Grammar.Opens.contract.pattern _ (readTree_eq_ok.1 accepted)
  rw [openings_eq] at listed
  obtain ⟨mark, marked, rfl⟩ := List.mem_map.1 listed
  rw [List.append_nil, List.append_assoc] at parts
  refine Bool.eq_false_iff.2 fun open_ => ?_
  refine opens captures before (mark ++ after) parts open_ mark marked ?_
  rw [List.append_assoc]
  exact List.prefix_append _ _

/-- Behind each parenthesis of what is written for an idiom comes a unit that marks nothing. -/
theorem idiom_unmarked (known : idiom ∈ idioms) {y z : Text}
    (parts : idiom.target = y ++ unit '(' :: z) : ∃ u r, z = u :: r ∧ u ≠ unit '?' := by
  have all : ∀ idiom ∈ idioms, ∀ i < idiom.target.length, idiom.target[i]? = some (unit '(') →
      idiom.target[i + 1]?.any (· ≠ unit '?') = true := by decide
  have next := all idiom known y.length (by simp [parts]) (by simp [parts])
  have behind : (y ++ unit '(' :: z)[y.length + 1]? = z.head? := by
    rw [List.getElem?_append_right (Nat.le_succ _), List.head?_eq_getElem?]
    simp
  rw [parts, behind] at next
  cases z with
  | nil => cases next
  | cons u r => exact ⟨u, r, rfl, by simpa using next⟩

/-- What opens in a text with what is written for an idiom in front opens behind that. -/
theorem opening_behind_target (known : idiom ∈ idioms) {mark r : Text} (marked : mark ∈ marks)
    (inside : unit '(' :: mark <:+: idiom.target ++ r) : unit '(' :: mark <:+: r := by
  obtain ⟨front, back, parts⟩ := inside
  rw [List.append_assoc] at parts
  obtain ⟨w, same, behind⟩ | ⟨w, rfl, behind⟩ := List.append_eq_append_iff.1 parts
  · cases w with
    | nil => exact ⟨[], back, behind⟩
    | cons u w =>
      obtain ⟨rfl, begins⟩ := List.cons.inj behind
      obtain ⟨v, w, rfl, other⟩ := idiom_unmarked known same
      obtain ⟨_, _, question, _⟩ := mark_prefix marked ⟨back, begins⟩
      exact absurd (List.cons.inj question).1 other
  · refine ⟨w, back, ?_⟩
    rw [List.append_assoc]
    exact behind.symm

/-- Replacing an idiom opens no group that does not capture. -/
theorem free_replaceIn (known : idiom ∈ idioms) (free : Free t) : Free (idiom.replaceIn t) := by
  have nonempty : idiom.source ≠ [] := by
    have heads := (idiom_heads known).1
    intro none
    rw [none] at heads
    cases heads
  intro opening listed inside
  refine free opening listed ?_
  rw [openings_eq] at listed
  obtain ⟨mark, marked, rfl⟩ := List.mem_map.1 listed
  clear free listed
  revert inside
  unfold Idiom.replaceIn
  refine Text.replace_induction nonempty idiom.target
    (motive := fun x y => (unit '(' :: mark) <:+: y → (unit '(' :: mark) <:+: x) id ?_ ?_ t
  · intro r ih inside
    exact (ih (opening_behind_target known marked inside)).trans (List.suffix_append _ r).isInfix
  · intro u r _ ih inside
    rw [List.infix_cons_iff] at inside ⊢
    refine inside.imp (fun begins => ?_) ih
    obtain ⟨rfl, goes⟩ := List.cons_prefix_cons.1 begins
    exact List.cons_prefix_cons.2 ⟨rfl, (mark_prefix_replaceIn marked known).1 goes⟩

theorem free_respelled (free : Free p) : Free (respelled p) := by
  have fold (list : List Idiom) (known : ∀ idiom ∈ list, idiom ∈ idioms) (t : Text) (free : Free t) :
      Free (list.foldl (fun pattern idiom => idiom.replaceIn pattern) t) := by
    induction list generalizing t with
    | nil => exact free
    | cons idiom list ih =>
      obtain ⟨here, later⟩ := List.forall_mem_cons.1 known
      exact ih later _ (free_replaceIn here free)
  have anchored : stripAnchor p <:+: p := by
    cases p with
    | nil => exact List.infix_rfl
    | cons u r =>
      rw [stripAnchor]
      split
      · exact (List.suffix_cons u r).isInfix
      · exact List.infix_rfl
  exact fold idioms (fun _ inside => inside) _ fun opening listed inside =>
    free opening listed (inside.trans anchored)

/-- A pattern in which every group captures is converted, unless an opening of a group that does not
capture stands in it at a parenthesis that is escaped or in a set or a comment. -/
theorem convert_capturing {tree : NumberedPattern} (accepted : Pattern.read p = .ok tree)
    (captures : ∀ part ∈ tree.root.parts, part.isLook = false ∧ part.isUncaptured = false) :
    convert p = .ok (respelled p) ∨ ∃ before opening after, opening ∈ unsupportedOpenings ∧
      p = before ++ opening ++ after ∧ (Ground.run .code before).opensGroup = false := by
  by_cases free : Free p
  · exact .inl (convert_eq_ok_iff.2 ⟨rfl, free_respelled free⟩)
  · obtain ⟨root, read, rfl⟩ := Pattern.read_eq_ok.1 accepted
    have all : AllCapture [root] := by
      rw [allCapture_single]
      intro part isPart
      have kinds := Pattern.kinds_number root .empty
      obtain ⟨numbered, isNumbered, same⟩ := List.mem_map.1 (kinds ▸ List.mem_map_of_mem isPart)
      obtain ⟨look, uncaptured⟩ := Prod.mk.inj same
      rw [← look, ← uncaptured]
      exact captures numbered isNumbered
    simp only [Free, not_forall, not_not] at free
    obtain ⟨opening, listed, before, after, parts⟩ := free
    exact .inr ⟨before, opening, after, listed, parts.symm,
      opening_literal read all listed parts.symm⟩

/-- A set of the units with which a group opens that does not capture. -/
def openingSet : Text := "[(?:]"

/-- There is no group in the pattern, and still it is refused because of one. -/
theorem convert_openingSet : ∃ tree, Pattern.read openingSet = .ok tree ∧
    (∀ part ∈ tree.root.parts, part.isLook = false ∧ part.isUncaptured = false) ∧
    convert openingSet = .error (.atOffset (.uncaptured "(?:") openingSet 1) :=
  ⟨_, rfl, by decide, rfl⟩

/-- A group, an escaped parenthesis and a set of parentheses. -/
def parenthesesPattern : Text := "(a|\\(?[(?])+"

theorem convert_capturing_parentheses : ∃ tree, Pattern.read parenthesesPattern = .ok tree ∧
    (∀ part ∈ tree.root.parts, part.isLook = false ∧ part.isUncaptured = false) ∧
    convert parenthesesPattern = .ok (respelled parenthesesPattern) := by
  have free : Free parenthesesPattern := findUnsupported_eq_none_iff.1 (by decide +kernel)
  obtain ⟨tree, read, captures⟩ : ∃ tree, Pattern.read parenthesesPattern = .ok tree ∧
      ∀ part ∈ tree.root.parts, part.isLook = false ∧ part.isUncaptured = false :=
    ⟨_, rfl, by decide⟩
  refine ⟨tree, read, captures, (convert_capturing read captures).resolve_right ?_⟩
  rintro ⟨before, opening, after, listed, parts, _⟩
  exact free opening listed ⟨before, after, parts.symm⟩

end Dialect

end Highlight
