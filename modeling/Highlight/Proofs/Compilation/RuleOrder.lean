import Highlight.Proofs.Compilation.Blocks

/-!
# The order of rules

The statements of a rule list keep the order of its rules. Without a rule that enters its own
state, a list may be cut anywhere (`ofList_append`). With one, the rules before and behind the
first such rule keep their places around one region, and all rules that enter or leave are taken
up by that region (`ofList_region`). Both are equations between steps, so they hold of errors and
of the session as well. `ofList_refines` says that more room for rule lists changes no success.
-/

namespace Highlight

/-- The same context with another limit on depth. -/
def Context.withDepth (ctx : Context) (maxDepth : Number) : Context :=
  { ctx with limits := { ctx.limits with maxDepth } }

namespace Body

open Compilation Statement

variable {ctx : Context} {state : Text} {depth : Nat} {σ σ' : Session}

/-- The statements of another state, with room for `room` rule lists. -/
def ofTarget (ctx : Context) (room : Nat) (target : Text) (depth : Nat) :
    Compilation (List Statement) := do
  let list ← Compilation.ofExcept (ctx.rulesOf target)
  ofList ctx room target list depth

/-- The statements of the region of a rule list, with room for `room` rule lists inside. -/
def ofRegion (ctx : Context) (room : Nat) (state : Text) (list : List Rule) (depth : Nat) :
    Compilation (List Statement) :=
  Region.compile Compilation.ofExcept (ofList ctx room state) state list depth

theorem ofList_succ (room : Nat) (list : List Rule) :
    ofList ctx (room + 1) state list depth =
      ofRules (fun first => ofRule ctx (ofTarget ctx room) (ofRegion ctx room state list depth)
        state (list.any Rule.isPush) first depth) true list := rfl

section Rules

variable {one one' : Bool → Rule → Compilation (List Statement)}

theorem ofRules_append (first : Bool) (xs ys : List Rule) :
    ofRules one first (xs ++ ys) = (do
      let ls ← ofRules one first xs
      let ms ← ofRules one (first && !xs.any Rule.isPush) ys
      pure (ls ++ ms)) := by
  induction xs generalizing first with
  | nil => simp [ofRules]
  | cons rule xs ih =>
    simp only [List.cons_append, ofRules, ih, bind_assoc, pure_bind, List.append_assoc,
      List.any_cons, Bool.not_or, Bool.and_assoc]

theorem ofRules_congr {first : Bool} {rules : List Rule}
    (same : ∀ rule ∈ rules, ∀ first, one first rule = one' first rule) :
    ofRules one first rules = ofRules one' first rules := by
  induction rules generalizing first with
  | nil => rfl
  | cons rule rules ih =>
    rw [ofRules, ofRules, same rule (by simp) first,
      ih fun rule mem => same rule (by simp [mem])]

theorem ofRules_refines {first : Bool} {rules : List Rule}
    (each : ∀ first rule, Refines (one first rule) (one' first rule)) :
    Refines (ofRules one first rules) (ofRules one' first rules) := by
  induction rules generalizing first with
  | nil => exact .refl _
  | cons rule rules ih => exact (each first rule).bind fun _ => ih.bind fun _ => .refl _

end Rules

section Rule

variable {other : Text → Nat → Compilation (List Statement)}
  {region region' : Compilation (List Statement)}

/-- A rule that neither enters nor leaves its own state does not see the region. -/
theorem ofRule_other {hasRegion hasRegion' first first' : Bool} {rule : Rule}
    (push : rule.isPush = false) (pop : rule.isPop = false) :
    ofRule ctx other region state hasRegion first depth rule =
      ofRule ctx other region' state hasRegion' first' depth rule := by
  cases rule with
  | push => cases push
  | pop => cases pop
  | _ => rfl

/-- Beside a region, only the rules that neither enter nor leave give statements, once the region
is drawn or as long as none is to be drawn. -/
theorem ofRules_others {first first' hasRegion : Bool} {rules : List Rule}
    (drawn : first = false ∨ rules.any Rule.isPush = false) :
    ofRules (fun first => ofRule ctx other region state true first depth) first rules =
      ofRules (fun first => ofRule ctx other region' state hasRegion first depth) first'
        (RegionRules.ofRules rules).others := by
  induction rules generalizing first first' with
  | nil => rfl
  | cons rule rules ih =>
    have later : (first && !rule.isPush) = false ∨ rules.any Rule.isPush = false := by
      rcases drawn with rfl | noPush
      · exact .inl rfl
      · exact .inr (by simp_all)
    by_cases skip : rule.isPush = true ∨ rule.isPop = true
    · have here : ofRule ctx other region state true first depth rule = pure [] := by
        cases rule with
        | push pattern token =>
          rcases drawn with rfl | noPush
          · rfl
          · simp [Rule.isPush] at noPush
        | pop => rfl
        | _ => simp [Rule.isPush, Rule.isPop] at skip
      have gone : (RegionRules.ofRules (rule :: rules)).others =
          (RegionRules.ofRules rules).others := by
        rcases skip with push | pop
        · simp [RegionRules.ofRules, push]
        · simp [RegionRules.ofRules, pop]
      rw [ofRules, here, gone, @ih _ first' later]
      simp
    · obtain ⟨push, pop⟩ : rule.isPush = false ∧ rule.isPop = false := by simpa using skip
      have kept : (RegionRules.ofRules (rule :: rules)).others =
          rule :: (RegionRules.ofRules rules).others := by
        simp [RegionRules.ofRules, push, pop]
      rw [kept, ofRules, ofRules, ih later, ofRule_other push pop]

end Rule

/-- Without a rule that enters its own state, the statements of a list are those of its parts. -/
theorem ofList_append {room : Nat} {xs ys : List Rule}
    (noPush : (xs ++ ys).any Rule.isPush = false) :
    ofList ctx room state (xs ++ ys) depth = (do
      let ls ← ofList ctx room state xs depth
      let ms ← ofList ctx room state ys depth
      pure (ls ++ ms)) := by
  obtain ⟨hx, hy⟩ : xs.any Rule.isPush = false ∧ ys.any Rule.isPush = false := by
    simpa using noPush
  cases room with
  | zero => rfl
  | succ room =>
    have bare : ∀ {list : List Rule}, list.any Rule.isPush = false →
        ofRules (fun first => ofRule ctx (ofTarget ctx room)
          (ofRegion ctx room state (xs ++ ys) depth) state false first depth) true list =
        ofList ctx (room + 1) state list depth := by
      intro list free
      rw [ofList_succ, free]
      refine ofRules_congr fun rule mem first => ?_
      cases rule with
      | push pattern token =>
        have := List.any_eq_false.1 free _ mem
        simp [Rule.isPush] at this
      | _ => rfl
    rw [ofList_succ, noPush, ofRules_append, hx, bare hx]
    simp only [Bool.not_false, Bool.and_true, bare hy]

/-- The rules of a list beside its region that stand before the place of the region. -/
def beforeRegion (list : List Rule) : List Rule :=
  (RegionRules.ofRules (list.takeWhile fun rule => !rule.isPush)).others

/-- The rules of a list beside its region that stand behind the place of the region. -/
def afterRegion (list : List Rule) : List Rule :=
  (RegionRules.ofRules (list.dropWhile fun rule => !rule.isPush)).others

theorem beforeRegion_append_afterRegion (list : List Rule) :
    beforeRegion list ++ afterRegion list = (RegionRules.ofRules list).others := by
  simp only [beforeRegion, afterRegion, RegionRules.ofRules, ← List.filter_append,
    List.takeWhile_append_dropWhile]

/-- A list with a rule that enters its own state, cut at the first such rule. -/
theorem exists_first_push {list : List Rule} (hasPush : list.any Rule.isPush = true) :
    ∃ xs rule ys, list = xs ++ rule :: ys ∧ xs.any Rule.isPush = false ∧ rule.isPush = true ∧
      beforeRegion list = (RegionRules.ofRules xs).others ∧
      afterRegion list = (RegionRules.ofRules ys).others := by
  induction list with
  | nil => cases hasPush
  | cons rule rules ih =>
    cases push : rule.isPush with
    | true => exact ⟨[], rule, rules, rfl, rfl, push, by simp [beforeRegion, push],
        by simp [afterRegion, RegionRules.ofRules, push]⟩
    | false =>
      obtain ⟨xs, first, ys, rfl, noPush, hit, before, after⟩ :=
        ih (by simpa [push] using hasPush)
      refine ⟨rule :: xs, first, ys, rfl, by simp [push, noPush], hit, ?_, ?_⟩
      · simp only [beforeRegion, RegionRules.ofRules] at before ⊢
        simp only [List.takeWhile_cons, push, Bool.not_false, if_true, List.filter_cons, before]
      · simpa [afterRegion, push] using after

/-- With a rule that enters its own state, the region stands where the first such rule does. -/
theorem ofList_region {room : Nat} {list : List Rule} (hasPush : list.any Rule.isPush = true) :
    ofList ctx (room + 1) state list depth = (do
      let ls ← ofList ctx (room + 1) state (beforeRegion list) depth
      let region ← ofRegion ctx room state list depth
      let ms ← ofList ctx (room + 1) state (afterRegion list) depth
      pure (ls ++ (region ++ ms))) := by
  obtain ⟨xs, rule, ys, split, noPush, push, before, after⟩ := exists_first_push hasPush
  let one (first : Bool) (rule : Rule) : Compilation (List Statement) :=
    ofRule ctx (ofTarget ctx room) (ofRegion ctx room state list depth) state true first depth rule
  have front : ofRules one true xs = ofList ctx (room + 1) state (beforeRegion list) depth := by
    rw [before, ofList_succ]
    exact ofRules_others (.inr noPush)
  have here : one true rule = ofRegion ctx room state list depth := by
    cases rule with
    | push => rfl
    | _ => cases push
  have behind : ofRules one false ys = ofList ctx (room + 1) state (afterRegion list) depth := by
    rw [after, ofList_succ]
    exact ofRules_others (.inl rfl)
  calc ofList ctx (room + 1) state list depth
      = ofRules one true (xs ++ rule :: ys) := by rw [ofList_succ, hasPush, ← split]
    _ = _ := by
      rw [ofRules_append, noPush, ofRules, push]
      simp only [Bool.not_false, Bool.not_true, Bool.and_true, Bool.and_false, front, here,
        behind, bind_assoc, pure_bind]

/-! ## Room for rule lists -/

theorem bindAt_withDepth (maxDepth : Number) (state pattern : Text) (token : TokenSpec)
    (leaves : Bool) :
    bindAt (ctx.withDepth maxDepth) state pattern token leaves =
      bindAt ctx state pattern token leaves := by
  have groups (pattern : Text) (index : Nat) (parts : List Text) (items : List TokenSpec) :
      Binding.groupTokens (ctx.withDepth maxDepth) pattern index parts items =
        Binding.groupTokens ctx pattern index parts items := by
    induction items generalizing index parts with
    | nil => cases parts <;> rfl
    | cons item items ih =>
      cases parts with
      | nil => rfl
      | cons part parts =>
        rw [Binding.groupTokens_cons, Binding.groupTokens_cons, ih]
        cases item <;> rfl
  unfold bindAt
  congr 1
  cases token with
  | compound items =>
    simp only [Binding.ofPattern, Binding.ofGroups, groups]
  | _ => rfl

/-- More room for rule lists, under whatever limit, changes no success. -/
theorem ofList_refines_withDepth {room room' : Nat} (le : room ≤ room') (maxDepth : Number)
    (state : Text) (list : List Rule) (depth : Nat) :
    Refines (ofList ctx room state list depth)
      (ofList (ctx.withDepth maxDepth) room' state list depth) := by
  induction room generalizing room' state list depth with
  | zero => exact refines_throw
  | succ room ih =>
    obtain ⟨room', rfl⟩ : ∃ k, room' = k + 1 := ⟨room' - 1, by omega⟩
    have ih := fun state list depth => ih (show room ≤ room' by omega) state list depth
    have target : ∀ name d,
        Refines (ofTarget ctx room name d) (ofTarget (ctx.withDepth maxDepth) room' name d) :=
      fun name d => (Refines.refl _).bind fun list => ih name list d
    have region : Refines (ofRegion ctx room state list depth)
        (ofRegion (ctx.withDepth maxDepth) room' state list depth) := by
      refine (Refines.refl _).bind fun binding => ?_
      split
      · exact .refl _
      · exact (ih _ _ _).bind fun _ => .refl _
    refine ofRules_refines fun first rule => ?_
    cases rule with
    | splice name => exact target name depth
    | literal =>
      simp only [ofRule, bindAt_withDepth]
      exact .refl _
    | nested pattern token name =>
      simp only [ofRule, bindAt_withDepth]
      refine (Refines.refl _).bind fun binding => ?_
      cases binding with
      | none => exact target name depth
      | some binding => exact (target name (depth + 1)).bind fun _ => .refl _
    | push =>
      cases first with
      | true => exact region
      | false => exact .refl _
    | pop =>
      simp only [ofRule, bindAt_withDepth]
      exact .refl _
    | unknown => exact .refl _

/-- More room for rule lists changes no success. -/
theorem ofList_refines {room room' : Nat} (le : room ≤ room') (state : Text) (list : List Rule)
    (depth : Nat) :
    Refines (ofList ctx room state list depth) (ofList ctx room' state list depth) :=
  ofList_refines_withDepth le ctx.limits.maxDepth state list depth

/-- The statements of a rule list that compiles keep the order of its rules. Without a rule that
enters its own state the list may be cut anywhere. With one, the other rules stand in order around
one region, which binds all rules that enter or leave, at the place of the first that enters; if
there are other rules, they stand inside the region once more. Each part runs from the session
that the part before it leaves. -/
theorem ofList_order {room : Nat} {list : List Rule} {lines : List Statement}
    (h : Yields (ofList ctx room state list depth) σ lines σ') :
    (list.any Rule.isPush = false → ∀ xs ys, list = xs ++ ys →
      ∃ ls ms σ₁, Yields (ofList ctx room state xs depth) σ ls σ₁ ∧
        Yields (ofList ctx room state ys depth) σ₁ ms σ' ∧ lines = ls ++ ms) ∧
    (list.any Rule.isPush = true →
      beforeRegion list ++ afterRegion list = (RegionRules.ofRules list).others ∧
      ∃ ls region ms binding σ₁ σ₂,
        Yields (ofList ctx room state (beforeRegion list) depth) σ ls σ₁ ∧
        Region.binding state (.ofRules list) = .ok binding ∧
        (((RegionRules.ofRules list).others = [] ∧ σ₂ = σ₁ ∧ region = [.rule depth binding]) ∨
          ∃ inner, (RegionRules.ofRules list).others ≠ [] ∧
            Yields (ofList ctx room state (RegionRules.ofRules list).others (depth + 1))
              σ₁ inner σ₂ ∧
            region = .comment depth ("nested " ++ state ++ " state") ::
              .blockStart depth binding :: (inner ++ [.blockEnd depth])) ∧
        Yields (ofList ctx room state (afterRegion list) depth) σ₂ ms σ' ∧
        lines = ls ++ (region ++ ms)) := by
  constructor
  · rintro noPush xs ys rfl
    rw [ofList_append noPush] at h
    obtain ⟨ls, σ₁, left, rest⟩ := yields_bind_iff.1 h
    obtain ⟨ms, σ₂, right, last⟩ := yields_bind_iff.1 rest
    obtain ⟨rfl, rfl⟩ := yields_pure_iff.1 last
    exact ⟨ls, ms, σ₁, left, right, rfl⟩
  · intro hasPush
    refine ⟨beforeRegion_append_afterRegion list, ?_⟩
    cases room with
    | zero => exact absurd h not_yields_throw
    | succ room =>
      rw [ofList_region hasPush] at h
      obtain ⟨ls, σ₁, left, rest⟩ := yields_bind_iff.1 h
      obtain ⟨region, σ₂, drawn, rest⟩ := yields_bind_iff.1 rest
      obtain ⟨ms, σ₃, right, last⟩ := yields_bind_iff.1 rest
      obtain ⟨rfl, rfl⟩ := yields_pure_iff.1 last
      obtain ⟨binding, bound, shape⟩ := Region.compile_yields drawn
      refine ⟨ls, region, ms, binding, σ₁, σ₂, left, bound, ?_, right, rfl⟩
      rcases shape with bare | ⟨inner, full, inside, whole⟩
      · exact .inl bare
      · exact .inr ⟨inner, full, ofList_refines (Nat.le_succ room) _ _ _ _ _ _ inside, whole⟩

/-- A list in which rules that enter and leave stand before, between and behind the others. -/
theorem ofList_order_pairsLanguage :
    let ctx : Context := ⟨pairsLanguage, ⟨.integer 3, .integer 9, .integer 9⟩, fun _ => none⟩
    let list : List Rule := [
      .pop ">" (.literal "Token.A") (.integer 1), .splice "inner", .push "<" (.literal "Token.A"),
      .literal "c" (.literal "Token.C"), .push "b" (.literal "Token.B")]
    let lines : List Statement := [
      .leave 0 (.single "Token.E" "e") (.integer 2),
      .comment 0 "nested root state", .blockStart 0 (.region "Token.A" "(<)|(b)" ">" false),
      .leave 1 (.single "Token.E" "e") (.integer 2), .rule 1 (.single "Token.C" "c"),
      .blockEnd 0,
      .rule 0 (.single "Token.C" "c")]
    Yields (ofList ctx 3 rootState list 0) [] lines [] ∧
      beforeRegion list = [.splice "inner"] ∧
      ∃ ls region ms σ₁ σ₂, Yields (ofList ctx 3 rootState (beforeRegion list) 0) [] ls σ₁ ∧
        Yields (ofList ctx 3 rootState (afterRegion list) 0) σ₂ ms [] ∧
        lines = ls ++ (region ++ ms) := by
  intro ctx list lines
  have h : Yields (ofList ctx 3 rootState list 0) [] lines [] := by
    unfold Yields
    cbv
  obtain ⟨-, ls, region, ms, -, σ₁, σ₂, left, -, -, right, same⟩ := (ofList_order h).2 rfl
  exact ⟨h, rfl, ls, region, ms, σ₁, σ₂, left, right, same⟩

end Body

end Highlight
