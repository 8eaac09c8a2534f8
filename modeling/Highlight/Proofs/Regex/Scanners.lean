import Highlight.Proofs.Pattern.Rewriting
import Highlight.Proofs.Regex.Stripping

/-!
# Scanners and the grammar

A scanner rewrites the source of a pattern from left to right. It knows escapes and bracketed sets,
and looks at what stands behind a parenthesis. It knows no comment, and takes a closing bracket at the
front of a set for its end. Where neither leads it astray (`Clear`), it sees the same groups as the
grammar, so that what it makes of the text is the pattern with its groups rewritten
(`Rewriter.rewrites`).
-/

namespace Highlight

open Reader Grammar Dialect

/-- Up to the bracket that closes a set, no opening bracket or parenthesis stands in it, escaped ones
apart. -/
def opensNothing : Text → Bool
  | [] => true
  | u :: r =>
    if u = unit '\\' then
      match r with
      | [] => true
      | _ :: r => opensNothing r
    else u = unit ']' || (u ≠ unit '[' && u ≠ unit '(' && opensNothing r)

/-- On this ground a text leads no scanner astray: in a comment none of the given texts stands, and a
set that begins with a closing bracket holds no opening one and no parenthesis. -/
structure LeadsNowhere (texts : List Text) (ground : Ground) (t : Text) : Prop where
  comment : ground = .comment → ∀ text ∈ texts, ¬ text <+: t
  set : ground = .opened ∨ ground = .negated → t.head? = some (unit ']') →
    opensNothing t.tail = true

/-- Where the text begins on this ground, nothing in it leads a scanner astray. -/
def Clear (texts : List Text) (ground : Ground) (t : Text) : Prop :=
  ∀ before after, t = before ++ after → LeadsNowhere texts (ground.run before) after

instance (texts : List Text) (ground : Ground) (t : Text) : Decidable (LeadsNowhere texts ground t) :=
  decidable_of_iff ((ground = .comment → ∀ text ∈ texts, ¬ text <+: t) ∧
      (ground = .opened ∨ ground = .negated → t.head? = some (unit ']') →
        opensNothing t.tail = true))
    ⟨fun ⟨comment, set⟩ => ⟨comment, set⟩, fun leads => ⟨leads.comment, leads.set⟩⟩

instance (texts : List Text) (ground : Ground) (t : Text) : Decidable (Clear texts ground t) :=
  decidable_of_iff (∀ k < t.length + 1, LeadsNowhere texts (ground.run (t.take k)) (t.drop k)) <| by
  constructor
  · rintro clear before after rfl
    have within : before.length < (before ++ after).length + 1 := by
      rw [List.length_append]
      omega
    have here := clear before.length within
    rwa [List.take_left, List.drop_left] at here
  · intro clear k _
    exact clear _ _ (List.take_append_drop k t).symm

theorem opensNothing_front {x t : Text} (nothing : opensNothing (x ++ t) = true) :
    opensNothing x = true := by
  fun_induction opensNothing x with
  | case1 => rfl
  | case2 => rfl
  | case3 v r ih =>
    rw [List.cons_append, List.cons_append, opensNothing, if_pos rfl] at nothing
    exact ih nothing
  | case4 u r escape ih =>
    rw [List.cons_append, opensNothing.eq_def] at nothing
    dsimp only at nothing
    rw [if_neg escape] at nothing
    simp only [Bool.or_eq_true, Bool.and_eq_true] at nothing ⊢
    exact nothing.imp id (And.imp_right ih)

namespace Clear

variable {texts : List Text} {ground : Ground} {x t : Text}

theorem behind (clear : Clear texts ground (x ++ t)) : Clear texts (ground.run x) t := by
  rintro before after rfl
  have whole := clear (x ++ before) after (List.append_assoc _ _ _).symm
  rwa [Ground.run_append] at whole

theorem front (clear : Clear texts ground (x ++ t)) : Clear texts ground x := by
  rintro before after rfl
  have whole := clear before (after ++ t) (List.append_assoc _ _ _)
  refine ⟨fun comment text listed begins => ?_, fun opened closes => ?_⟩
  · exact whole.comment comment text listed (begins.trans (List.prefix_append _ _))
  · obtain ⟨r, rfl⟩ := List.head?_eq_some_iff.1 closes
    exact opensNothing_front (whole.set opened rfl)

/-- The pattern in a group is clear if the whole is. -/
theorem inside {w : Text} {node : Pattern → Pattern} (mark : Mark w node)
    (unmarked : t.head? ≠ some (unit '?')) (clear : Clear texts .paren (w ++ t)) :
    Clear texts .code t := by
  have stands := clear.behind
  obtain rfl | marked := mark.ground
  · rintro before after rfl
    cases before with
    | nil => exact ⟨nofun, nofun⟩
    | cons u before =>
      have plain : u ≠ unit '?' := fun same => unmarked (congrArg some same)
      have whole := stands (u :: before) after rfl
      rwa [Ground.run_nil, Ground.run_cons, Ground.next_paren plain] at whole
  · rwa [marked] at stands

/-- A comment holds none of the texts. -/
theorem comment {c text : Text} (clear : Clear texts .paren ("?#" ++ c)) (closed : unit ')' ∉ c)
    (listed : text ∈ texts) (y z : Text) : c ≠ y ++ (text ++ z) := by
  rintro rfl
  have stands := clear ("?#" ++ y) (text ++ z) (List.append_assoc _ _ _).symm
  have open_ : unit ')' ∉ y := fun inside => closed (List.mem_append_left _ inside)
  have comment : Ground.run .paren ("?#" ++ y) = .comment := by
    rw [Ground.run_append]
    exact Ground.run_comment open_
  exact stands.comment comment text listed (List.prefix_append _ _)

/-- A comment holds no bracket, if brackets are among the texts. -/
theorem unbracketed {c : Text} (clear : Clear texts .paren ("?#" ++ c)) (closed : unit ')' ∉ c)
    (listed : Text.ofString "[" ∈ texts) : unit '[' ∉ c := by
  intro inside
  obtain ⟨y, z, rfl⟩ := List.append_of_mem inside
  exact clear.comment closed listed y z rfl

end Clear

theorem parenthesised (x t : Text) :
    unit '(' :: (x ++ unit ')' :: t) = unit '(' :: (x ++ ")") ++ t := by
  simp [Text.ofString, unit, CodeUnit.ofScalar]

/-- A part of a text that does not hold the unit lies in front of it. -/
theorem split_front {m : CodeUnit} {x y t rest : Text} (out : m ∉ y)
    (parts : x ++ m :: t = y ++ rest) : ∃ z, x = y ++ z ∧ rest = z ++ m :: t := by
  obtain ⟨z, rfl, behind⟩ | ⟨z, rfl, behind⟩ := List.append_eq_append_iff.1 parts
  · cases z with
    | nil => exact ⟨[], by simp, behind.symm⟩
    | cons v z =>
      obtain ⟨rfl, -⟩ := List.cons.inj behind
      exact absurd List.mem_append_cons_self out
  · exact ⟨z, rfl, behind⟩

theorem commented_iff {x : Text} :
    (∀ u ∈ x, UnitClass.commented.holds u = true) ↔ unit ')' ∉ x := by
  constructor
  · exact fun known closes => absurd (known _ closes) (by decide)
  · intro closed u inside
    have other : u ≠ unit ')' := fun same => closed (same ▸ inside)
    show (!([unit ')'] : Text).contains u) = true
    simpa using other

namespace Regex

/-- What a scanner does to units, escapes and sets, from a place outside or inside of a set on. -/
structure Scanner (scan : Bool → Text → Text) : Prop where
  nil : scan false [] = []
  escape : ∀ inSet v r, scan inSet (unit '\\' :: v :: r) = unit '\\' :: v :: scan inSet r
  inside : ∀ {u} r, u ≠ unit '\\' → u ≠ unit ']' → scan true (u :: r) = u :: scan true r
  closing : ∀ r, scan true (unit ']' :: r) = unit ']' :: scan false r
  opening : ∀ r, scan false (unit '[' :: r) = unit '[' :: scan true r
  outside : ∀ {u} r, u ∉ openers → scan false (u :: r) = u :: scan false r

/-- At a parenthesis in front of the text, the scanner neither drops a closing one nor writes one. -/
def Crosses (scan : Bool → Text → Text) (r : Text) : Prop :=
  ∃ x y rest, r = x ++ rest ∧ unit ')' ∉ x ∧ unit ')' ∉ y ∧
    scan false (unit '(' :: r) = unit '(' :: (y ++ scan false rest)

namespace Scanner

variable {scan : Bool → Text → Text} (scanner : Scanner scan)

include scanner

theorem units {x : Text} (plain : ∀ u ∈ x, u ∉ openers) (t : Text) :
    scan false (x ++ t) = x ++ scan false t := by
  induction x with
  | nil => rfl
  | cons u x ih =>
    obtain ⟨here, later⟩ := List.forall_mem_cons.1 plain
    rw [List.cons_append, scanner.outside _ here, ih later, List.cons_append]

theorem inert {x : Text} (inert : InertText x) (t : Text) : scan false (x ++ t) = x ++ scan false t :=
  scanner.units (fun u inside => not_opener_of_inert (inert u inside)) t

theorem members {b : Text} (inside : BracketText b) (t : Text) :
    scan true (b ++ unit ']' :: t) = b ++ unit ']' :: scan false t := by
  induction inside with
  | nil => exact scanner.closing t
  | plain escape closes _ ih => rw [List.cons_append, scanner.inside _ escape closes, ih]; rfl
  | escape v _ ih => rw [List.cons_append, List.cons_append, scanner.escape, ih]; rfl

/-- Behind what the scanner takes for the end of a set, units that open nothing stay. -/
theorem led {b : Text} (inside : BracketText b) (t : Text)
    (nothing : opensNothing (b ++ unit ']' :: t) = true) :
    scan false (b ++ unit ']' :: t) = b ++ unit ']' :: scan false t := by
  induction inside with
  | nil => exact scanner.outside t (by decide)
  | @plain u b escape closes _ ih =>
    rw [List.cons_append, opensNothing.eq_def] at nothing
    dsimp only at nothing
    rw [if_neg escape] at nothing
    simp only [Bool.or_eq_true, Bool.and_eq_true, decide_eq_true_eq, closes, false_or] at nothing
    obtain ⟨⟨opening, group⟩, later⟩ := nothing
    have plain : u ∉ openers := by
      rw [mem_openers]
      exact not_or.2 ⟨escape, not_or.2 ⟨opening, group⟩⟩
    rw [List.cons_append, scanner.outside _ plain, ih later]
    rfl
  | escape v _ ih =>
    rw [List.cons_append, List.cons_append, scanner.escape, ih nothing]
    rfl

/-- A set stays as it is, unless a closing bracket leads it and something opens in it. -/
theorem set {negated leads : Bool} {b : Text} (body : SetBody negated leads b) (t : Text)
    (nothing : leads = true → opensNothing (b ++ unit ']' :: t) = true) :
    scan false (setText negated leads b t) = setText negated leads b (scan false t) := by
  have opened (x : Text) : scan false ("[" ++ x) = "[" ++ scan true x := scanner.opening x
  have marked (x : Text) : scan true (setMark negated ++ x) = setMark negated ++ scan true x := by
    cases negated with
    | false => rfl
    | true => exact scanner.inside x (by decide) (by decide)
  rw [setText, setText, opened, marked]
  cases leads with
  | false =>
    have unled (x : Text) : setLead false ++ x = x := rfl
    rw [unled, unled, scanner.members body.inside]
  | true =>
    have led (x : Text) : setLead true ++ x = unit ']' :: x := rfl
    rw [led, led, scanner.closing, scanner.led body.inside t (nothing rfl)]

/-- Of a comment the scanner leaves a comment. The induction is on its length, because an escape and
a parenthesis may take several units. -/
theorem comment {x : Text} (closed : unit ')' ∉ x) (plain : unit '[' ∉ x) (t : Text)
    (crosses : ∀ y z, x = y ++ unit '(' :: z → Crosses scan (z ++ unit ')' :: t)) :
    ∃ x', unit ')' ∉ x' ∧ scan false (x ++ unit ')' :: t) = x' ++ unit ')' :: scan false t := by
  induction count : x.length using Nat.strong_induction_on generalizing x with
  | _ count ih =>
    have further (y z : Text) (parts : x = y ++ z) (filled : y ≠ []) :
        ∃ x', unit ')' ∉ x' ∧ scan false (z ++ unit ')' :: t) = x' ++ unit ')' :: scan false t := by
      subst parts count
      refine ih _ ?_ (fun inside => closed (List.mem_append_right _ inside))
        (fun inside => plain (List.mem_append_right _ inside)) (fun v w same => ?_) rfl
      · have := List.length_pos_of_ne_nil filled
        rw [List.length_append]
        omega
      · exact crosses (y ++ v) w (by rw [same, List.append_assoc])
    match x with
    | [] => exact ⟨[], closed, scanner.outside t (by decide)⟩
    | u :: x =>
      have unclosed : unit ')' ≠ u := fun same => closed (same ▸ List.mem_cons_self)
      by_cases escape : u = unit '\\'
      · subst escape
        match x with
        | [] => exact ⟨[unit '\\'], by decide, scanner.escape false (unit ')') t⟩
        | v :: x =>
          obtain ⟨x', closed', same⟩ := further [unit '\\', v] x rfl (List.cons_ne_nil _ _)
          have other : unit ')' ≠ v := fun same =>
            closed (same ▸ List.mem_cons_of_mem _ List.mem_cons_self)
          refine ⟨unit '\\' :: v :: x', ?_, ?_⟩
          · simp only [List.mem_cons, not_or]
            exact ⟨unclosed, other, closed'⟩
          · rw [List.cons_append, List.cons_append, scanner.escape, same]
            rfl
      by_cases group : u = unit '('
      · subst group
        obtain ⟨y, y', rest, parts, taken, written, same⟩ := crosses [] x rfl
        -- the scanner does not go beyond the comment, since it takes no closing parenthesis
        obtain ⟨z, rfl, rfl⟩ := split_front taken parts
        obtain ⟨x', closed', behind⟩ :=
          further (unit '(' :: y) z rfl (List.cons_ne_nil _ _)
        refine ⟨unit '(' :: (y' ++ x'), ?_, ?_⟩
        · simp only [List.mem_cons, List.mem_append, not_or]
          exact ⟨unclosed, written, closed'⟩
        · rw [List.cons_append, same, behind, List.cons_append, List.append_assoc]
      · have opening : u ≠ unit '[' := fun same => plain (same ▸ List.mem_cons_self)
        have plain : u ∉ openers := by
          rw [mem_openers]
          exact not_or.2 ⟨escape, not_or.2 ⟨opening, group⟩⟩
        obtain ⟨x', closed', same⟩ := further [u] x rfl (List.cons_ne_nil _ _)
        refine ⟨u :: x', ?_, ?_⟩
        · simp only [List.mem_cons, not_or]
          exact ⟨unclosed, closed'⟩
        · rw [List.cons_append, scanner.outside _ plain, same]
          rfl

end Scanner

/-- A scanner that rewrites marks of groups, and groups without a pattern as long as a comment holds
none of the texts, where `f` is what becomes of the patterns. -/
structure Rewriter (texts : List Text) (f : Pattern → Pattern) (scan : Bool → Text → Text) : Prop
    extends Scanner scan where
  mark : ∀ {w t : Text} {node : Pattern → Pattern}, Mark w node → t.head? ≠ some (unit '?') →
    ∃ w' node', Mark w' node' ∧ (∀ a, node' (f a) = f (node a)) ∧
      scan false (unit '(' :: (w ++ t)) = unit '(' :: (w' ++ scan false t)
  bare : ∀ {x t : Text} {a : Pattern}, Bare x a → Clear texts .paren x →
    ∃ x', Closed x' (f a) ∧ scan false (unit '(' :: (x ++ unit ')' :: t)) = x' ++ scan false t

namespace Rewriter

variable {texts : List Text} {f : Pattern → Pattern} {scan : Bool → Text → Text}
  (rewriter : Rewriter texts f scan) {t rest : Text} {a : Pattern}

include rewriter

theorem keeps {x : Text} (inert : InertText x) (behind : Rewrites f rest (scan false rest)) :
    Rewrites f (x ++ rest) (scan false (x ++ rest)) := by
  rw [rewriter.inert inert]
  induction x with
  | nil => exact behind
  | cons u x ih =>
    obtain ⟨here, later⟩ := List.forall_mem_cons.1 inert
    exact .keep u (not_opener_of_inert here) (ih later)

theorem leaf (read : (bracketed <|> short).result t = some (a, rest))
    (clear : Clear texts .code t) (behind : Rewrites f rest (scan false rest)) :
    Rewrites f t (scan false t) := by
  obtain set | ⟨-, single⟩ := orElse_eq_some.1 read
  · obtain ⟨negated, leads, b, items, body, rfl, reads, -⟩ := bracketed_eq_some.1 set
    have nothing (led : leads = true) : opensNothing (b ++ unit ']' :: rest) = true := by
      subst led
      have stands := clear ("[" ++ setMark negated) (unit ']' :: (b ++ unit ']' :: rest))
        (by simp [setText, setLead, Text.ofString, unit, CodeUnit.ofScalar])
      refine stands.set ?_ rfl
      cases negated with
      | false => exact .inl rfl
      | true => exact .inr rfl
    obtain ⟨items, closed⟩ := bracketItems_closed body.inside []
    have whole : bracketed.result (setText negated leads b []) = some (_, []) :=
      bracketed_eq_some.2 ⟨negated, leads, b, items, body, rfl, closed, rfl⟩
    have parts (t : Text) : setText negated leads b t = setText negated leads b [] ++ t := by
      simp [setText]
    rw [rewriter.set body rest nothing, parts rest, parts (scan false rest)]
    exact .set whole behind
  · obtain ⟨u, plain, rfl⟩ | ⟨v, x, inert, rfl⟩ := short_parts single
    · rw [rewriter.outside rest plain]
      exact .keep u plain behind
    · rw [rewriter.escape]
      exact .escape v (rewriter.keeps inert behind)

/-- What the scanner makes of a part of a pattern that is derived is that part rewritten. -/
theorem rewrites {category : Category} {as : List Pattern} (derives : Derives category t as rest)
    (clear : Clear texts .code t) (behind : Rewrites f rest (scan false rest)) :
    Rewrites f t (scan false t) := by
  induction derives with
  | leaf read => exact rewriter.leaf read clear behind
  | @bare x rest a bare =>
    have inside : Clear texts .paren (x ++ unit ')' :: rest) := clear.behind (x := [unit '('])
    obtain ⟨x', closed', same⟩ := rewriter.bare (t := rest) bare inside.front
    rw [same, parenthesised]
    exact .atom (.bare bare) closed' behind
  | @group w t rest node options mark inside ih =>
    have stands : Clear texts .paren (w ++ t) := clear.behind (x := [unit '('])
    obtain ⟨w', node', mark', turns, same⟩ := rewriter.mark mark inside.unmarked
    have closes : Rewrites f (unit ')' :: rest) (scan false (unit ')' :: rest)) := by
      rw [rewriter.outside rest (by decide)]
      exact .keep _ (by decide) behind
    rw [same]
    exact .mark mark mark' turns inside.unmarked
      (ih (stands.inside mark inside.unmarked) closes)
  | item first times ih =>
    obtain ⟨y, rfl, inert⟩ := inert_optional inert_quantifier times
    exact ih clear (rewriter.keeps inert behind)
  | nil => exact behind
  | cons first later ih ih' =>
    obtain ⟨x, rfl, code⟩ := first.taken
    have further := clear.behind
    rw [code] at further
    exact ih clear (ih' further behind)
  | last only ends ih => exact ih clear behind
  | @more t middle rest as options first later ih ih' =>
    obtain ⟨x, rfl, code⟩ := first.taken
    have further := clear.behind
    rw [code] at further
    refine ih clear ?_
    rw [rewriter.outside middle (by decide)]
    exact .keep _ (by decide) (ih' (further.behind (x := [unit '|'])) behind)

end Rewriter

end Regex

end Highlight
