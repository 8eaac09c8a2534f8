import Highlight.Proofs.Compilation.RuleOrder
import Highlight.Proofs.Inlining.Regions
import Highlight.Proofs.Inlining.Sessions

/-!
# Compiling an inlined language

Where splices can be replaced without a trace (`Language.Inlinable`), every state that is come to
gives the same statements in the inlined language, or fails for a cause of the same kind
(`whole_of_reaches`). The rules of one list are compared first, given what is known of the states
that they lead to (`Body.ofRules_inlined`). The states follow by induction on their level: a part of
a list without a region may stand anywhere, as it does when it arrives by a splice
(`Context.PartAlike`), and a whole state may have a region of its own (`Context.WholeAlike`).
-/

namespace Highlight

open Compilation SubLexer

namespace Context

variable {ctx : Context} {target : Text} {rules : List Rule}

theorem ofTarget_known (known : Table.get? ctx.language.graph target = some rules)
    (room depth : Nat) :
    Body.ofTarget ctx room target depth = Body.ofList ctx room target rules depth := by
  unfold Body.ofTarget rulesOf
  rw [known]
  rfl

theorem ofTarget_unknown (unknown : Table.get? ctx.language.graph target = none)
    (room depth : Nat) :
    Body.ofTarget ctx room target depth = throw (.atState (.noSuchState target) target) := by
  unfold Body.ofTarget rulesOf
  rw [unknown]
  rfl

end Context

/-- A rule leads to the state from the root state on. -/
def Graph.Reaches (graph : Graph) (state : Text) : Prop :=
  Relation.ReflTransGen graph.Leads rootState state

/-- Splices can be replaced without a trace: there is no cycle, no region changes, and where the
language asks a lexer of its own, the places of the rules do not show in its first token. -/
structure Language.Inlinable (language : Language) : Prop where
  acyclic : language.graph.Acyclic
  tidy : ∀ state, language.graph.Reaches state → language.graph.Tidy (rulesAt language.graph state)
  steady : ∀ state, language.graph.Reaches state → ∀ rule ∈ rulesAt language.graph state,
    ∀ ref ∈ rule.refs, ref.lexer = LexerRef.this → ∀ lexer,
      build language (ref.state.getD rootState) = .ok lexer → language.Steady lexer.start

section Levels

variable {ctx : Context}

/-- Both sides do the same but for the kinds of errors. -/
abbrev Compilation.TwinAlike (x y : Compilation (List Statement)) : Prop :=
  Alike Session.Twin GrammarError.SameKind x y

namespace Body

variable {state site : Text} {rules : List Rule} {room room' depth : Nat}
  {hasRegion hasRegion' first first' : Bool} {region region' : Compilation (List Statement)}

/-- The statements of one rule of a list, with room for `room` rule lists that it leads to. -/
def ofRuleAt (ctx : Context) (room : Nat) (region : Compilation (List Statement)) (site : Text)
    (hasRegion : Bool) (depth : Nat) (first : Bool) (rule : Rule) :
    Compilation (List Statement) :=
  ofRule ctx (ofTarget ctx room) region site hasRegion first depth rule

theorem ofList_eq (ctx : Context) (room : Nat) (state : Text) (list : List Rule) (depth : Nat) :
    ofList ctx (room + 1) state list depth =
      ofRules (ofRuleAt ctx room (ofRegion ctx room state list depth) state
        (list.any Rule.isPush) depth) true list := rfl

theorem ofRules_singleton (one : Bool → Rule → Compilation (List Statement)) (first : Bool)
    (rule : Rule) : ofRules one first [rule] = one first rule := by
  simp [ofRules]

/-- Rules and what they are replaced by give the same, if the states do that they lead to. Those
that a splice leads to are compiled in place in the inlined language, at the site of the list that
they arrive in. -/
theorem ofRules_inlined (acyclic : ctx.language.graph.Acyclic)
    (subset : rules ⊆ rulesAt ctx.language.graph state)
    (tokens : ∀ rule ∈ rules, ∀ ref ∈ rule.refs, ∀ text, Alike Session.Twin GrammarError.SameKind
      (ctx.firstToken ref text) (ctx.inlined.firstToken ref text))
    (entered : ∀ target, ctx.language.graph.Leads state target → ∀ depth,
      TwinAlike (ofTarget ctx room target depth) (ofTarget ctx.inlined room' target depth))
    (spliced : ∀ target inner, .splice target ∈ rules →
      Table.get? ctx.language.graph target = some inner →
      (∀ rule ∈ ctx.language.graph.inline inner, rule.isPush = false) ∧
      ∀ first, TwinAlike (ofTarget ctx room target depth)
        (ofRules (ofRuleAt ctx.inlined room' region' site hasRegion' depth) first
          (ctx.language.graph.inline inner)))
    (entering : rules.any Rule.isPush = true → first = first' ∧ TwinAlike region region')
    (leaving : ∀ rule ∈ rules, rule.isPop = true → hasRegion = hasRegion') :
    TwinAlike (ofRules (ofRuleAt ctx room region state hasRegion depth) first rules)
      (ofRules (ofRuleAt ctx.inlined room' region' site hasRegion' depth) first'
        (ctx.language.graph.inline rules)) := by
  induction rules generalizing first first' with
  | nil =>
    rw [Graph.inline_nil]
    exact alike_pure _
  | cons rule rules ih =>
    have listed : rule ∈ rulesAt ctx.language.graph state := subset List.mem_cons_self
    have entering' : rules.any Rule.isPush = true →
        (first && !rule.isPush) = (first' && !rule.isPush) ∧ TwinAlike region region' := by
      intro push
      obtain ⟨rfl, regions⟩ := entering (by rw [List.any_cons, push, Bool.or_true])
      exact ⟨rfl, regions⟩
    have rest := ih (fun _ held => subset (List.mem_cons_of_mem _ held))
      (fun other held => tokens other (List.mem_cons_of_mem _ held))
      (fun target inner held => spliced target inner (List.mem_cons_of_mem _ held))
      entering' (fun other held => leaving other (List.mem_cons_of_mem _ held))
    have placed : ∀ e e' pattern, GrammarError.SameKind e e' → GrammarError.SameKind
        (e.within { Site.unknown with pattern := some pattern, state := some state })
        (e'.within { Site.unknown with pattern := some pattern, state := some site }) :=
      fun _ _ _ same => same.within _ _
    -- A rule that is left in place is compiled as it stands.
    have kept : TwinAlike (ofRuleAt ctx room region state hasRegion depth first rule)
        (ofRuleAt ctx.inlined room' region' site hasRegion' depth first' rule) := by
      have limits : ctx.limits = ctx.inlined.limits := rfl
      apply ofRule_alike GrammarError.SameKind.refl limits placed
      · exact tokens rule List.mem_cons_self
      · exact fun target leads => entered target ⟨rule, listed, leads⟩
      · exact fun push => entering (by rw [List.any_cons, push, Bool.true_or])
      · exact leaving rule List.mem_cons_self
    have here : (ctx.language.graph.inline [rule]).any Rule.isPush = rule.isPush ∧
        TwinAlike (ofRuleAt ctx room region state hasRegion depth first rule)
          (ofRules (ofRuleAt ctx.inlined room' region' site hasRegion' depth) first'
            (ctx.language.graph.inline [rule])) := by
      obtain same | ⟨target, inner, rfl, known, arrives⟩ :=
        Graph.inline_singleton acyclic listed
      · rw [same, ofRules_singleton]
        exact ⟨by rw [List.any_cons, List.any_nil, Bool.or_false], kept⟩
      · obtain ⟨quiet, whole⟩ := spliced target inner List.mem_cons_self known
        rw [arrives]
        exact ⟨List.any_eq_false.2 fun other held => by simp [quiet other held], whole first'⟩
    rw [Graph.inline_cons acyclic listed, ofRules_append, here.1]
    exact here.2.bind fun lines => rest.bind fun more => alike_pure _

end Body

/-! ## States by their level

Each state that is come to takes two rule lists at most: its own, and the one that fills its region.
-/

/-- With room for the states that it comes to, the state gives the same on both sides. -/
def Context.WholeAlike (ctx : Context) (state : Text) : Prop :=
  ∀ room room' depth, 2 * ctx.language.graph.level state ≤ room →
    2 * ctx.language.graph.level state ≤ room' →
    TwinAlike (Body.ofTarget ctx room state depth) (Body.ofTarget ctx.inlined room' state depth)

/-- Rules of the state that bring no region along give the same as what they are replaced by,
wherever that stands: at a site of its own, or in a list with a region, if none of it leaves. -/
def Context.PartAlike (ctx : Context) (state : Text) : Prop :=
  ∀ rules ⊆ rulesAt ctx.language.graph state,
    (∀ rule ∈ ctx.language.graph.inline rules, rule.isPush = false) →
    ∀ room room' depth site hasRegion region first,
      2 * ctx.language.graph.level state ≤ room + 1 →
      2 * ctx.language.graph.level state ≤ room' + 2 →
      (∀ rule ∈ ctx.language.graph.inline rules, rule.isPop = true → hasRegion = false) →
      TwinAlike (Body.ofList ctx room state rules depth)
        (Body.ofRules (Body.ofRuleAt ctx.inlined room' region site hasRegion depth) first
          (ctx.language.graph.inline rules))

/-- What is known of a state for each state that its rules lead to. -/
structure Context.BelowAlike (ctx : Context) (state : Text) : Prop where
  whole : ∀ target, ctx.language.graph.Leads state target → ctx.WholeAlike target
  part : ∀ target, ctx.language.graph.Leads state target →
    target ∈ Table.keys ctx.language.graph → ctx.PartAlike target

variable {state : Text}

/-- A list without a region stands for itself. -/
theorem Context.PartAlike.ofList (part : ctx.PartAlike state)
    (known : state ∈ Table.keys ctx.language.graph) {rules : List Rule}
    (subset : rules ⊆ rulesAt ctx.language.graph state)
    (quiet : ∀ rule ∈ ctx.language.graph.inline rules, rule.isPush = false) {room room' : Nat}
    (enough : 2 * ctx.language.graph.level state ≤ room + 1)
    (enough' : 2 * ctx.language.graph.level state ≤ room' + 1) (depth : Nat) :
    TwinAlike (Body.ofList ctx room state rules depth)
      (Body.ofList ctx.inlined room' state (ctx.language.graph.inline rules) depth) := by
  have positive := Graph.level_pos known
  obtain ⟨room', rfl⟩ : ∃ less, room' = less + 1 := ⟨room' - 1, by omega⟩
  have noPush : (ctx.language.graph.inline rules).any Rule.isPush = false :=
    List.any_eq_false.2 fun rule listed push => by
      rw [quiet rule listed] at push
      cases push
  rw [Body.ofList_eq, noPush]
  exact part rules subset quiet room room' depth state false _ true enough enough' fun _ _ _ => rfl

/-- The region of a state is the same on both sides. -/
theorem Context.PartAlike.ofRegion (part : ctx.PartAlike state)
    (known : state ∈ Table.keys ctx.language.graph) (acyclic : ctx.language.graph.Acyclic)
    {rules : List Rule} (subset : rules ⊆ rulesAt ctx.language.graph state)
    (tidy : ctx.language.graph.Tidy rules)
    (drawn : (ctx.language.graph.inline rules).any Rule.isPush = true) {room room' : Nat}
    (enough : 2 * ctx.language.graph.level state ≤ room + 1)
    (enough' : 2 * ctx.language.graph.level state ≤ room' + 1) (depth : Nat) :
    TwinAlike (Body.ofRegion ctx room state rules depth)
      (Body.ofRegion ctx.inlined room' state (ctx.language.graph.inline rules) depth) := by
  have others := tidy.others acyclic subset drawn
  unfold Body.ofRegion Region.compile
  dsimp only
  rw [tidy.binding acyclic subset drawn, tidy.isEmpty_others acyclic subset drawn, others]
  apply (alike_ofExcept (.refl .refl _)).bind
  intro binding
  split
  · exact alike_pure _
  · have inside : (RegionRules.ofRules rules).others ⊆ rulesAt ctx.language.graph state :=
      fun rule held => subset (List.mem_filter.1 held).1
    have quiet : ∀ rule ∈ ctx.language.graph.inline (RegionRules.ofRules rules).others,
        rule.isPush = false := by
      intro rule held
      rw [← others] at held
      exact (RegionRules.mem_others held).2.1
    exact (part.ofList known inside quiet enough enough' (depth + 1)).bind fun lines => alike_pure _

variable (inlinable : ctx.language.Inlinable) (reached : ctx.language.graph.Reaches state)

include inlinable reached

/-- The lexers that the rules of a state ask give the same first tokens on both sides. -/
theorem firstTokens_alike {rule : Rule} (listed : rule ∈ rulesAt ctx.language.graph state)
    {ref : LexerRef} (asked : ref ∈ rule.refs) (text : Text) :
    Alike Session.Twin GrammarError.SameKind (ctx.firstToken ref text)
      (ctx.inlined.firstToken ref text) :=
  (Context.locatedAlike_inlined inlinable.acyclic
    (inlinable.steady state reached rule listed ref asked)).alike text

variable (below : ctx.BelowAlike state)

include below

theorem part_of_below (known : state ∈ Table.keys ctx.language.graph) : ctx.PartAlike state := by
  intro rules subset quiet room room' depth site hasRegion region first enough enough' unleaving
  have acyclic := inlinable.acyclic
  have positive := Graph.level_pos known
  obtain ⟨room, rfl⟩ : ∃ less, room = less + 1 := ⟨room - 1, by omega⟩
  have noPush : rules.any Rule.isPush = false := by
    refine List.any_eq_false.2 fun rule listed push => ?_
    have own := Rule.isSplice_of_isPush push
    rw [quiet rule (Graph.mem_inline acyclic subset listed own)] at push
    cases push
  rw [Body.ofList_eq, noPush]
  -- The list itself takes one rule list from the room on the left; on the right the list that it
  -- arrives in has taken one before.
  apply Body.ofRules_inlined acyclic subset
  · exact fun rule listed ref asked => firstTokens_alike inlinable reached (subset listed) asked
  · intro target leads depth
    have lower := Graph.level_lt acyclic leads
    exact below.whole target leads room room' depth (by omega) (by omega)
  · intro target inner listed found
    have leads : ctx.language.graph.Leads state target := ⟨_, subset listed, rfl⟩
    have lower := Graph.level_lt acyclic leads
    have held : target ∈ Table.keys ctx.language.graph := Table.mem_keys_of_get? found
    have arrive := Graph.inline_subset_of_splice acyclic subset listed
    rw [rulesAt_of_get? found] at arrive
    refine ⟨fun rule arrives => quiet rule (arrive arrives), fun first => ?_⟩
    rw [Context.ofTarget_known found]
    exact below.part target leads held inner (Graph.subset_rulesAt found)
      (fun rule arrives => quiet rule (arrive arrives)) room room' depth site hasRegion region first
      (by omega) (by omega) (fun rule arrives => unleaving rule (arrive arrives))
  · intro push
    rw [noPush] at push
    cases push
  · intro rule listed pop
    have own := Rule.isSplice_of_isPop pop
    exact (unleaving rule (Graph.mem_inline acyclic subset listed own) pop).symm

/-- A list with a region gives the same on both sides. -/
theorem ofList_drawn (part : ctx.PartAlike state) (known : state ∈ Table.keys ctx.language.graph)
    {rules : List Rule} (subset : rules ⊆ rulesAt ctx.language.graph state)
    (tidy : ctx.language.graph.Tidy rules)
    (drawn : (ctx.language.graph.inline rules).any Rule.isPush = true) {room room' : Nat}
    (enough : 2 * ctx.language.graph.level state ≤ room)
    (enough' : 2 * ctx.language.graph.level state ≤ room') (depth : Nat) :
    TwinAlike (Body.ofList ctx room state rules depth)
      (Body.ofList ctx.inlined room' state (ctx.language.graph.inline rules) depth) := by
  have acyclic := inlinable.acyclic
  have positive := Graph.level_pos known
  obtain ⟨room, rfl⟩ : ∃ less, room = less + 1 := ⟨room - 1, by omega⟩
  obtain ⟨room', rfl⟩ : ∃ less, room' = less + 1 := ⟨room' - 1, by omega⟩
  rw [Body.ofList_eq, Body.ofList_eq, drawn, tidy.any_isPush acyclic subset drawn]
  apply Body.ofRules_inlined acyclic subset
  · exact fun rule listed ref asked => firstTokens_alike inlinable reached (subset listed) asked
  · intro target leads depth
    have lower := Graph.level_lt acyclic leads
    exact below.whole target leads room room' depth (by omega) (by omega)
  · intro target inner listed found
    have leads : ctx.language.graph.Leads state target := ⟨_, subset listed, rfl⟩
    have lower := Graph.level_lt acyclic leads
    have held : target ∈ Table.keys ctx.language.graph := Table.mem_keys_of_get? found
    have arrive := (tidy drawn).1 target listed
    rw [rulesAt_of_get? found] at arrive
    refine ⟨fun rule arrives => (arrive rule arrives).1, fun first => ?_⟩
    rw [Context.ofTarget_known found]
    apply below.part target leads held inner (Graph.subset_rulesAt found)
    · exact fun rule arrives => (arrive rule arrives).1
    · omega
    · omega
    · intro rule arrives pop
      rw [(arrive rule arrives).2] at pop
      cases pop
  · intro _
    exact ⟨rfl, part.ofRegion known acyclic subset tidy drawn (by omega) (by omega) depth⟩
  · exact fun _ _ _ => rfl

theorem whole_of_below (part : state ∈ Table.keys ctx.language.graph → ctx.PartAlike state) :
    ctx.WholeAlike state := by
  intro room room' depth enough enough'
  have acyclic := inlinable.acyclic
  cases found : Table.get? ctx.language.graph state with
  | none =>
    have unknown : Table.get? ctx.inlined.language.graph state = none := by
      change Table.get? ctx.language.inlined.graph state = none
      rw [Graph.get?_inlined, found, Option.map_none]
    rw [Context.ofTarget_unknown found, Context.ofTarget_unknown unknown]
    exact alike_throw rfl
  | some rules =>
    have replaced : Table.get? ctx.inlined.language.graph state =
        some (ctx.language.graph.inline rules) := by
      change Table.get? ctx.language.inlined.graph state = _
      rw [Graph.get?_inlined, found, Option.map_some]
    have known : state ∈ Table.keys ctx.language.graph := Table.mem_keys_of_get? found
    have subset : rules ⊆ rulesAt ctx.language.graph state := Graph.subset_rulesAt found
    have part := part known
    have positive := Graph.level_pos known
    rw [Context.ofTarget_known found, Context.ofTarget_known replaced]
    cases drawn : (ctx.language.graph.inline rules).any Rule.isPush with
    | false =>
      have quiet : ∀ rule ∈ ctx.language.graph.inline rules, rule.isPush = false :=
        fun rule listed => Bool.eq_false_iff.2 (List.any_eq_false.1 drawn rule listed)
      exact part.ofList known subset quiet (by omega) (by omega) depth
    | true =>
      have tidy := inlinable.tidy state reached
      rw [rulesAt_of_get? found] at tidy
      exact ofList_drawn inlinable reached below part known subset tidy drawn enough enough' depth

omit below in
/-- Every state that is come to gives the same on both sides. -/
theorem whole_of_reaches : ctx.WholeAlike state := by
  have both : ctx.WholeAlike state ∧
      (state ∈ Table.keys ctx.language.graph → ctx.PartAlike state) := by
    generalize height : ctx.language.graph.level state = level
    induction level using Nat.strong_induction_on generalizing state with
    | _ level lower =>
      subst height
      have next (target : Text) (leads : ctx.language.graph.Leads state target) :=
        lower _ (Graph.level_lt inlinable.acyclic leads) (reached.tail leads) rfl
      have below : ctx.BelowAlike state :=
        ⟨fun target leads => (next target leads).1, fun target leads => (next target leads).2⟩
      have part := fun known => part_of_below inlinable reached below known
      exact ⟨whole_of_below inlinable reached below part, part⟩
  exact both.1

end Levels

end Highlight
