import Highlight.Proofs.Compilation.LineLeads
import Highlight.Proofs.SubLexer.Expansion

/-!
# The exits of a rule list

The statements of a list without a region are those of its rules, part by part, and a part that
neither splices nor enters another state stands by itself. The exits among these own statements are
those of the rules that leave the state, in their order and with their counts (`ofList_exits`).
Only a rule that leaves at a pattern of `Binding.lineRuns`, which says nothing beyond the end of
the line, has none: it is dropped with its exit, as a literal rule is.
-/

namespace Highlight

open Compilation

/-- The statement leaves its state. -/
def Statement.isLeave : Statement → Bool
  | leave .. => true
  | _ => false

/-- The rule leaves its state, but its pattern only runs to the end of the line, and so nothing is
bound. -/
def Rule.isSilent : Rule → Bool
  | pop pattern (.literal _) _ => Binding.lineRuns.contains pattern
  | _ => false

namespace Body

variable {ctx : Context} {state : Text} {depth : Nat} {σ σ' : Session}

/-- The statements that one rule of a list without a region gives. -/
def DrawnBy (ctx : Context) (room : Nat) (state : Text) (depth : Nat) (rule : Rule)
    (part : List Statement) : Prop :=
  ∃ σ σ', Yields (ofList ctx room state [rule] depth) σ part σ'

/-- The statements that the rules of a list give by themselves, without those of the states that
they splice or enter. -/
def ownLines : List Rule → List (List Statement) → List Statement
  | rule :: rules, part :: parts => (if rule.target?.isSome then [] else part) ++ ownLines rules parts
  | _, _ => []

/-- The exit of a rule that leaves its state, with the count of the rule. -/
inductive Exit (depth : Nat) : Rule → Statement → Prop where
  | pop {pattern : Text} {token : TokenSpec} {count : Number} {binding : Binding}
    (bound : Binding.BoundTo pattern token binding) :
    Exit depth (.pop pattern token count) (.leave depth binding count)

/-- A single rule gives no more by itself than its exit, if it has one. -/
theorem ofRule_exits {other : Text → Nat → Compilation (List Statement)}
    {region : Compilation (List Statement)} {first : Bool} {rule : Rule} {part : List Statement}
    (noPush : rule.isPush = false)
    (h : Yields (ofRule ctx other region state false first depth rule) σ part σ') :
    List.Forall₂ (Exit depth) ([rule].filter fun rule => rule.isPop && !rule.isSilent)
      ((ownLines [rule] [part]).filter Statement.isLeave) := by
  cases rule with
  | splice target => exact .nil
  | nested pattern token target => exact .nil
  | push pattern token => cases noPush
  | unknown raw pattern token => exact absurd h not_yields_throw
  | literal pattern token =>
    obtain ⟨binding, σ₁, -, last⟩ := yields_bind_iff.1 h
    obtain ⟨rfl, -⟩ := yields_pure_iff.1 last
    cases binding with
    | none => exact .nil
    | some binding => exact .nil
  | pop pattern token count =>
    obtain ⟨binding, σ₁, bound, last⟩ := yields_bind_iff.1 h
    obtain ⟨rfl, -⟩ := yields_pure_iff.1 last
    have dropped := Binding.leaving_eq_none_iff (yields_within_iff.1 bound)
    cases binding with
    | none =>
      obtain ⟨⟨literal, rfl⟩, runs⟩ := dropped.1 rfl
      have silent : (Rule.pop pattern (.literal literal) count).isSilent = true := by
        simpa [Rule.isSilent] using runs
      simp [silent, ownLines]
    | some binding =>
      have heard : (Rule.pop pattern token count).isSilent = false := by
        cases token with
        | literal literal =>
          have beyond : pattern ∉ Binding.lineRuns := fun runs =>
            nomatch dropped.2 ⟨⟨literal, rfl⟩, runs⟩
          simpa [Rule.isSilent] using beyond
        | _ => rfl
      simp only [List.filter_cons, heard, Rule.isPop, Bool.not_false, Bool.and_self, if_true,
        List.filter_nil]
      exact .cons (.pop (bindAt_boundTo bound)) .nil

theorem yields_ofList_singleton {room : Nat} {rule : Rule} {part : List Statement}
    (noPush : rule.isPush = false)
    (h : Yields (ofList ctx (room + 1) state [rule] depth) σ part σ') :
    Yields (ofRule ctx (ofTarget ctx room) (ofRegion ctx room state [rule] depth) state false true
      depth rule) σ part σ' := by
  have noRegion : [rule].any Rule.isPush = false := by simpa using noPush
  rw [ofList_succ, noRegion] at h
  obtain ⟨lines, σ₁, here, h⟩ := yields_bind_iff.1 h
  obtain ⟨none, σ₂, nothing, last⟩ := yields_bind_iff.1 h
  obtain ⟨rfl, rfl⟩ := yields_pure_iff.1 nothing
  obtain ⟨rfl, rfl⟩ := yields_pure_iff.1 last
  rw [List.append_nil]
  exact here

/-- The statements of a list without a region are those of its rules in order. Among the statements
that its rules give by themselves, the exits are those of the rules that leave the state, one for
each in order and with its count, apart from the rules that leave at a pattern that only runs to
the end of the line. -/
theorem ofList_exits {room : Nat} {list : List Rule} {lines : List Statement}
    (noPush : list.any Rule.isPush = false)
    (h : Yields (ofList ctx room state list depth) σ lines σ') :
    ∃ parts, lines = parts.flatten ∧ List.Forall₂ (DrawnBy ctx room state depth) list parts ∧
      List.Forall₂ (Exit depth) (list.filter fun rule => rule.isPop && !rule.isSilent)
        ((ownLines list parts).filter Statement.isLeave) := by
  cases room with
  | zero => exact absurd h not_yields_throw
  | succ room =>
    induction list generalizing lines σ with
    | nil =>
      obtain ⟨rfl, -⟩ := yields_pure_iff.1 h
      exact ⟨[], rfl, .nil, .nil⟩
    | cons rule rest ih =>
      obtain ⟨here, later⟩ : rule.isPush = false ∧ rest.any Rule.isPush = false := by
        simpa using noPush
      rw [← List.singleton_append] at h noPush
      rw [ofList_append noPush] at h
      obtain ⟨part, σ₁, head, h⟩ := yields_bind_iff.1 h
      obtain ⟨others, σ₂, tail, last⟩ := yields_bind_iff.1 h
      obtain ⟨rfl, rfl⟩ := yields_pure_iff.1 last
      obtain ⟨parts, rfl, drawn, exits⟩ := ih later tail
      refine ⟨part :: parts, rfl, .cons ⟨_, _, head⟩ drawn, ?_⟩
      have own : ownLines (rule :: rest) (part :: parts) =
          ownLines [rule] [part] ++ ownLines rest parts := by
        simp [ownLines]
      rw [own, List.filter_append, ← List.singleton_append, List.filter_append]
      exact List.rel_append (ofRule_exits here (yields_ofList_singleton here head)) exits

/-- Rules that leave, some silent, around a state that is entered and one that is spliced. -/
def exitRules : List Rule := [
  .pop "a" (.literal "Token.A") (.integer 1), .nested "b" (.literal "Token.B") "inner",
  .pop ".*" (.literal "Token.C") (.integer 1), .pop "\\n" (.literal "Token.D") (.integer 2),
  .splice "inner", .pop "(.*)" (.compound [.literal "Token.F"]) (.integer 3)]

theorem ofList_exits_exitRules :
    let ctx : Context := ⟨pairsLanguage, ⟨.integer 3, .integer 9, .integer 9⟩, fun _ => none⟩
    let lines : List Statement := [
      .leave 0 (.single "Token.A" "a") (.integer 1),
      .comment 0 "inner state", .blockStart 0 (.single "Token.B" "b"),
      .leave 1 (.single "Token.E" "e") (.integer 2), .blockEnd 0,
      .leave 0 (.lineEnd "Token.D") (.integer 2),
      .leave 0 (.single "Token.E" "e") (.integer 2),
      .leave 0 (.groups ["Token.F"] "(.*)") (.integer 3)]
    exitRules.any Rule.isPush = false ∧ Yields (ofList ctx 3 rootState exitRules 0) [] lines [] ∧
      ∃ parts, lines = parts.flatten ∧
        List.Forall₂ (DrawnBy ctx 3 rootState 0) exitRules parts ∧
        List.Forall₂ (Exit 0) (exitRules.filter fun rule => rule.isPop && !rule.isSilent)
          ((ownLines exitRules parts).filter Statement.isLeave) := by
  intro ctx lines
  have h : Yields (ofList ctx 3 rootState exitRules 0) [] lines [] := by
    unfold Yields
    cbv
  exact ⟨rfl, h, ofList_exits rfl h⟩

theorem ownLines_subset {rules : List Rule} {parts : List (List Statement)} :
    ownLines rules parts ⊆ parts.flatten := by
  fun_induction ownLines rules parts with
  | case1 rule rules part parts ih =>
    intro s own
    obtain here | there := List.mem_append.1 own
    · split at here
      · cases here
      · exact List.mem_append_left _ here
    · exact List.mem_append_right _ (ih there)
  | case2 => exact List.nil_subset _

/-- A state that is left at the end of a line, behind an anchor, is not left at all. -/
theorem ofList_exits_lineEnd :
    let ctx : Context := ⟨pairsLanguage, ⟨.integer 3, .integer 9, .integer 9⟩, fun _ => none⟩
    let list : List Rule := [
      .literal "b" (.literal "Token.B"), .pop "^\\n" (.literal "Token.C") (.integer 1)]
    Yields (ofList ctx 3 rootState list 0) [] [.rule 0 (.single "Token.B" "b")] [] ∧
      ¬ ∀ lines σ', Yields (ofList ctx 3 rootState list 0) [] lines σ' →
        ∃ parts, lines = parts.flatten ∧ List.Forall₂ (DrawnBy ctx 3 rootState 0) list parts ∧
          List.Forall₂ (Exit 0) (list.filter Rule.isPop)
            ((ownLines list parts).filter Statement.isLeave) := by
  intro ctx list
  have h : Yields (ofList ctx 3 rootState list 0) [] [.rule 0 (.single "Token.B" "b")] [] := by
    unfold Yields
    cbv
  refine ⟨h, fun claimed => ?_⟩
  obtain ⟨parts, same, -, exits⟩ := claimed _ _ h
  have none : (ownLines list parts).filter Statement.isLeave = [] := by
    refine List.filter_eq_nil_iff.2 fun s own => ?_
    have drawn := ownLines_subset own
    rw [← same, List.mem_singleton] at drawn
    simp [drawn, Statement.isLeave]
  rw [none] at exits
  exact absurd exits.length_eq (by decide)

end Body

end Highlight
