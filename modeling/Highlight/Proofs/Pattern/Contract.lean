import Highlight.Proofs.Outcome
import Highlight.Proofs.Pattern.Terminals

/-!
# Contracts of the pattern grammar

The rules of the grammar around a pattern are the same at each depth of nesting: atoms, quantified
atoms, sequences and alternatives. `Grammar.Contract` lists what a relation between a text, the
patterns read in it and the rest must bear with for these rules to keep it; whatever it says about
groups is left to the relation. `Contract.pattern` carries it through the whole grammar, by
induction on the depth.
-/

namespace Highlight.Grammar

open Reader Dialect

variable {inner : Reader Pattern}

/-- An alternative behind its bar. -/
def barred (inner : Reader Pattern) : Reader Pattern := do
  literal "|"
  sequence inner

theorem barred_eq_some {t rest : Text} {a : Pattern} : (barred inner).result t = some (a, rest) ↔
    ∃ behind, t = "|" ++ behind ∧ (sequence inner).result behind = some (a, rest) := by
  constructor
  · intro read
    obtain ⟨_, behind, bar, further⟩ := bind_eq_some.1 read
    exact ⟨behind, literal_eq_some.1 bar, further⟩
  · rintro ⟨behind, rfl, read⟩
    exact bind_eq_some.2 ⟨(), behind, literal_append _ behind, read⟩

theorem alternatives_eq_some {t rest : Text} {a : Pattern} :
    (alternatives inner).result t = some (a, rest) ↔ ∃ head middle options,
      (sequence inner).result t = some (head, middle) ∧
      (many (barred inner)).result middle = some (options, rest) ∧
      a = if options.isEmpty then head else .alt (head :: options) := by
  constructor
  · intro read
    obtain ⟨head, middle, first, further⟩ := bind_eq_some.1 read
    obtain ⟨options, _, second, rfl, rfl⟩ := bind_eq_some.1 further
    exact ⟨head, middle, options, first, second, rfl⟩
  · rintro ⟨head, middle, options, first, second, rfl⟩
    exact bind_eq_some.2 ⟨head, middle, first, bind_eq_some.2 ⟨options, rest, second, rfl⟩⟩

section Advancing

variable (anything : Shaped inner fun _ => True)

include anything

theorem shaped_groupBody : Shaped (groupBody inner) fun _ => True := by
  have inert {α : Type} {p : Reader α} (takes : TakesInert p) : Shaped p fun _ => True :=
    takes.imp fun _ => trivial
  have behind {α β : Type} {p : Reader α} {f : α → Reader β} (first : Shaped p fun _ => True)
      (second : ∀ a, Shaped (f a) fun _ => True) : Shaped (p >>= f) fun _ => True :=
    shaped_bind first second fun _ _ => trivial
  have mark (text : Text) : Shaped (literal text) fun _ => True := shaped_literal trivial
  have marked (text : Text) (node : Pattern → Pattern) :
      Shaped (do literal text; let body ← inner; pure (node body)) fun _ => True :=
    behind (mark text) fun _ => shaped_value anything
  have named (text : Text) : Shaped (do
      literal text
      let name ← name
      literal ">"
      let body ← inner
      pure (captured (some name) body)) fun _ => True :=
    behind (mark text) fun _ => behind (inert inert_name) fun _ => behind (mark _) fun _ =>
      shaped_value anything
  refine takes_orElse (marked _ _) (takes_orElse (named _) (takes_orElse ?_ (takes_orElse
    (marked _ _) (takes_orElse (marked _ _) (takes_orElse (marked _ _) (takes_orElse (marked _ _)
    (takes_orElse (named _) (takes_orElse ?_ (takes_orElse ?_ (takes_orElse ?_
    (shaped_value anything)))))))))))
  · exact behind (mark _) fun _ => shaped_value (inert inert_name)
  · exact behind (mark _) fun _ => shaped_value ((shaped_many_oneOf _).imp fun _ => trivial)
  · exact behind (mark _) fun _ => behind (inert (inert_atLeastOnce (by decide))) fun _ =>
      behind (mark _) fun _ => shaped_value anything
  · exact behind (mark _) fun _ => shaped_value (inert (inert_atLeastOnce (by decide)))

theorem shaped_atom : Shaped (atom inner) fun x => x ≠ [] := by
  have opens : Shaped (literal "(") fun x => x ≠ [] := shaped_literal (by decide)
  have closes : Shaped (literal ")") fun _ => True := shaped_literal trivial
  have inside : Shaped (do let body ← groupBody inner; literal ")"; pure body) fun _ => True :=
    shaped_bind (shaped_groupBody anything) (fun _ => shaped_value closes) fun _ _ => trivial
  exact takes_orElse (shaped_bind opens (fun _ => inside)
    fun nonempty _ => List.append_ne_nil_of_left_ne_nil nonempty _)
    (takes_leaf.imp LeafText.nonempty)

theorem shaped_quantified : Shaped (quantified inner) fun x => x ≠ [] :=
  shaped_bind (shaped_atom anything) (fun _ => shaped_value (inert_optional inert_quantifier))
    fun nonempty _ => List.append_ne_nil_of_left_ne_nil nonempty _

theorem advances_quantified : Advances (quantified inner) :=
  Takes.advances (shaped_quantified anything) id

theorem advances_barred : Advances (barred inner) := by
  have bar : Shaped (literal "|") fun x => x ≠ [] := shaped_literal (by decide)
  have items : Shaped (sequence inner) fun _ => True :=
    shaped_value (takes_many (advances_quantified anything) (shaped_quantified anything) trivial
      fun _ _ => trivial)
  have both : Shaped (barred inner) fun x => x ≠ [] :=
    shaped_bind bar (fun _ => items) fun nonempty _ => List.append_ne_nil_of_left_ne_nil nonempty _
  exact both.advances id

/-- The text of a group lies between its parentheses. -/
theorem takes_group : Takes (group inner) fun x a rest => ∃ b, x = unit '(' :: b ++ [unit ')'] ∧
    (groupBody inner).result (b ++ unit ')' :: rest) = some (a, unit ')' :: rest) := by
  intro t a rest read
  obtain ⟨_, middle, opens, further⟩ := bind_eq_some.1 read
  obtain ⟨body, last, inside, further⟩ := bind_eq_some.1 further
  obtain ⟨_, _, closes, rfl, rfl⟩ := bind_eq_some.1 further
  obtain rfl := literal_eq_some.1 opens
  obtain rfl := literal_eq_some.1 closes
  obtain ⟨b, rfl, _⟩ := shaped_groupBody anything inside
  refine ⟨unit '(' :: b ++ [unit ')'], ?_, b, rfl, inside⟩
  rw [List.append_assoc]
  rfl

end Advancing

/-- What the rules around a pattern keep: the relation between a text, the patterns that are read
in it one after the other, and the rest. -/
structure Contract (holds : Text → List Pattern → Text → Prop) : Prop where
  append : ∀ {x y as bs rest}, holds x as (y ++ rest) → holds y bs rest →
    holds (x ++ y) (as ++ bs) rest
  inert : ∀ {x rest}, InertText x → holds x [] rest
  leaf : ∀ {x a rest}, LeafText x a → holds x [a] rest
  group : ∀ {depth}, Takes (pattern depth) (fun x a rest => holds x [a] rest) →
    Takes (group (pattern depth)) fun x a rest => holds x [a] rest
  repeated : ∀ {x body least most rest}, holds x [body] rest →
    holds x [.repeated body least most] rest
  seq : ∀ {x items rest}, holds x items rest → holds x [.seq items] rest
  alt : ∀ {x options rest}, holds x options rest → holds x [.alt options] rest

namespace Contract

variable {holds : Text → List Pattern → Text → Prop} {depth : Nat}

theorem atom (contract : Contract holds)
    (ih : Takes (pattern depth) fun x a rest => holds x [a] rest) :
    Takes (atom (pattern depth)) fun x a rest => holds x [a] rest :=
  takes_orElse (contract.group ih) (takes_leaf.imp contract.leaf)

theorem quantified (contract : Contract holds)
    (ih : Takes (pattern depth) fun x a rest => holds x [a] rest) :
    Takes (quantified (pattern depth)) fun x a rest => holds x [a] rest := by
  intro t a rest read
  obtain ⟨body, middle, first, further⟩ := bind_eq_some.1 read
  obtain ⟨bounds, _, second, rfl, rfl⟩ := bind_eq_some.1 further
  obtain ⟨x, rfl, before⟩ := contract.atom ih first
  obtain ⟨y, rfl, inert⟩ := inert_optional inert_quantifier second
  have both : holds (x ++ y) [body] rest := contract.append before (contract.inert inert)
  refine ⟨x ++ y, (List.append_assoc _ _ _).symm, ?_⟩
  cases bounds with
  | none => exact both
  | some bounds => exact contract.repeated both

theorem sequence (contract : Contract holds)
    (ih : Takes (pattern depth) fun x a rest => holds x [a] rest) :
    Takes (sequence (pattern depth)) fun x a rest => holds x [a] rest := by
  have items : Takes (many (Grammar.quantified (pattern depth))) holds :=
    takes_many (advances_quantified (ih.imp fun _ => trivial)) (contract.quantified ih)
      (contract.inert nofun) contract.append
  refine takes_value items fun {x items rest} held => ?_
  split
  · exact held
  · exact contract.seq held

theorem alternatives (contract : Contract holds)
    (ih : Takes (pattern depth) fun x a rest => holds x [a] rest) :
    Takes (alternatives (pattern depth)) fun x a rest => holds x [a] rest := by
  have bar {rest : Text} : holds "|" [] rest := contract.inert (by decide)
  have option : Takes (barred (pattern depth)) fun x a rest => holds x [a] rest :=
    takes_bind (takes_literal _) (fun _ => contract.sequence ih) fun same held => by
      rw [same]
      exact contract.append bar held
  have tail : Takes (many (barred (pattern depth))) holds :=
    takes_many (advances_barred (ih.imp fun _ => trivial)) option (contract.inert nofun)
      contract.append
  intro t a rest read
  obtain ⟨head, middle, options, first, second, rfl⟩ := alternatives_eq_some.1 read
  obtain ⟨x, rfl, before⟩ := contract.sequence ih first
  obtain ⟨y, rfl, after⟩ := tail second
  have both : holds (x ++ y) (head :: options) rest := contract.append before after
  refine ⟨x ++ y, (List.append_assoc _ _ _).symm, ?_⟩
  cases options with
  | nil => exact both
  | cons option options => exact contract.alt both

/-- What the rules around a pattern keep holds of every pattern that is read. -/
theorem pattern (contract : Contract holds) (depth : Nat) :
    Takes (pattern depth) fun x a rest => holds x [a] rest := by
  induction depth with
  | zero => exact fun _ _ _ read => nomatch read
  | succ depth ih => exact contract.alternatives ih

end Contract

theorem shaped_pattern (depth : Nat) : Shaped (pattern depth) fun _ => True := by
  have contract : Contract fun _ _ _ => True := {
    append _ _ := trivial
    inert _ := trivial
    leaf _ := trivial
    group ih := (takes_group ih).imp fun _ => trivial
    repeated _ := trivial
    seq _ := trivial
    alt _ := trivial }
  exact contract.pattern depth

end Highlight.Grammar

namespace Highlight.Pattern

theorem readTree_eq_ok {t : Text} {root : Pattern} : readTree t = .ok root ↔
    (Grammar.pattern (depthBound t)).result t = some (root, []) :=
  Reader.readAll_eq_ok

theorem read_eq_ok {t : Text} {tree : NumberedPattern} :
    read t = .ok tree ↔ ∃ root, readTree t = .ok root ∧ tree = root.numbered :=
  except_map_eq_ok_iff

end Highlight.Pattern
