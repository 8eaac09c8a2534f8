import Highlight.Proofs.Compilation.Errors
import Highlight.Proofs.Inlining.Compiling

/-!
# How deep a compilation goes

Each rule list at work counts against the limit on depth. `Graph.Nested` lists the rows of rule
lists that the graph lets stand inside each other, and `Body.AtWork` those that a compilation
comes to, whatever the limit is. A compilation that succeeds has room for every row of the first
kind, so that there is no cycle (`ofList_room`, `Settles.acyclic`), and one that ends for the depth
has come to a row of the second kind that is longer than the limit (`exists_atWork`). Both are
inductions on the room that is left, which only the outermost rule list of a row takes from.
-/

namespace Highlight

open Compilation SubLexer

namespace Graph

/-- While the rules of a list are compiled, those of another one are: the rules of a state that the
first list leads to, or its own rules beside its region. -/
inductive Holds (graph : Graph) (list : List Rule) : List Rule → Prop where
  | target {rule : Rule} {target : Text} {inner : List Rule} (listed : rule ∈ list)
    (leads : rule.target? = some target) (known : Table.get? graph target = some inner) :
    Holds graph list inner
  | region (draws : list.any Rule.isPush = true) (full : (RegionRules.ofRules list).others ≠ []) :
    Holds graph list (RegionRules.ofRules list).others

/-- Rule lists that stand inside each other, from the rules of a state inwards. -/
def Nested (graph : Graph) (state : Text) (chain : List (List Rule)) : Prop :=
  ∃ rules rest, Table.get? graph state = some rules ∧ chain = rules :: rest ∧
    List.IsChain graph.Holds chain

end Graph

namespace Body

variable {ctx : Context} {state : Text} {list : List Rule} {rule : Rule} {depth room : Nat}
  {lines : List Statement} {σ σ' : Session} {e : GrammarError}

/-! ## Successes have room -/

theorem yields_of_mem {one : Bool → Rule → Compilation (List Statement)} {first : Bool}
    (yields : Yields (ofRules one first list) σ lines σ') (listed : rule ∈ list) :
    ∃ first lines σ₁ σ₂, Yields (one first rule) σ₁ lines σ₂ := by
  induction list generalizing first lines σ σ' with
  | nil => cases listed
  | cons other rules ih =>
    obtain ⟨here, σ₁, done, rest⟩ := yields_bind_iff.1 yields
    obtain ⟨more, σ₂, others, -⟩ := yields_bind_iff.1 rest
    cases listed with
    | head => exact ⟨first, here, σ, σ₁, done⟩
    | tail _ inside => exact ih others inside

/-- Where a rule compiles, the state that it leads to does. -/
theorem ofRule_yields_target {other : Text → Nat → Compilation (List Statement)}
    {region : Compilation (List Statement)} {hasRegion first : Bool} {target : Text}
    (yields : Yields (ofRule ctx other region state hasRegion first depth rule) σ lines σ')
    (leads : rule.target? = some target) :
    ∃ depth' lines σ₁ σ₂, Yields (other target depth') σ₁ lines σ₂ := by
  cases rule with
  | splice name =>
    cases leads
    exact ⟨depth, lines, σ, σ', yields⟩
  | nested pattern token name =>
    cases leads
    obtain ⟨binding, σ₁, -, rest⟩ := yields_bind_iff.1 yields
    cases binding with
    | none => exact ⟨depth, lines, σ₁, σ', rest⟩
    | some binding =>
      obtain ⟨inner, σ₂, inside, -⟩ := yields_bind_iff.1 rest
      exact ⟨depth + 1, inner, σ₁, σ₂, inside⟩
  | _ => cases leads

theorem ofTarget_yields {target : Text} (yields : Yields (ofTarget ctx room target depth) σ lines σ') :
    ∃ rules, Table.get? ctx.language.graph target = some rules ∧
      Yields (ofList ctx room target rules depth) σ lines σ' := by
  obtain ⟨rules, σ₁, found, inside⟩ := yields_bind_iff.1 yields
  obtain ⟨known, rfl⟩ := yields_ofExcept_iff.1 found
  exact ⟨rules, Context.rulesOf_eq_ok_iff.1 known, inside⟩

/-- Where a rule list compiles, one that stands inside it does, with one less room. -/
theorem yields_of_holds {inner : List Rule}
    (yields : Yields (ofList ctx (room + 1) state list depth) σ lines σ')
    (holds : ctx.language.graph.Holds list inner) :
    ∃ state depth lines σ₁ σ₂, Yields (ofList ctx room state inner depth) σ₁ lines σ₂ := by
  cases holds with
  | @target rule target _ listed leads known =>
    rw [ofList_succ] at yields
    obtain ⟨first, lines, σ₁, σ₂, compiled⟩ := yields_of_mem yields listed
    obtain ⟨depth', lines, σ₁, σ₂, inside⟩ := ofRule_yields_target compiled leads
    obtain ⟨rules, found, inside⟩ := ofTarget_yields inside
    rw [known] at found
    cases found
    exact ⟨target, depth', lines, σ₁, σ₂, inside⟩
  | region draws full =>
    rw [ofList_region draws] at yields
    obtain ⟨ls, σ₁, -, rest⟩ := yields_bind_iff.1 yields
    obtain ⟨region, σ₂, drawn, -⟩ := yields_bind_iff.1 rest
    obtain ⟨binding, -, ⟨bare, -⟩ | ⟨body, -, inside, -⟩⟩ := Region.compile_yields drawn
    · exact absurd bare full
    · exact ⟨state, depth + 1, body, σ₁, σ₂, inside⟩

/-- There is room for every row of rule lists inside one that compiles. -/
theorem ofList_room {rest : List (List Rule)}
    (yields : Yields (ofList ctx room state list depth) σ lines σ')
    (chain : List.IsChain ctx.language.graph.Holds (list :: rest)) : (list :: rest).length ≤ room := by
  induction room generalizing state list depth lines σ σ' rest with
  | zero => exact absurd yields not_yields_throw
  | succ room ih =>
    cases rest with
    | nil => simp
    | cons inner rest =>
      obtain ⟨holds, deeper⟩ := List.isChain_cons_cons.1 chain
      obtain ⟨state, depth, lines, σ₁, σ₂, inside⟩ := yields_of_holds yields holds
      exact Nat.succ_le_succ (ih inside deeper)

/-- The state compiles somewhere, with the room that is given. -/
def Settles (ctx : Context) (room : Nat) (state : Text) : Prop :=
  ∃ depth lines σ σ', Yields (ofTarget ctx room state depth) σ lines σ'

theorem Settles.leads {target : Text} (settles : Settles ctx room state)
    (leads : ctx.language.graph.Leads state target) :
    ∃ less, room = less + 1 ∧ Settles ctx less target := by
  obtain ⟨depth, lines, σ, σ', yields⟩ := settles
  obtain ⟨rules, known, inside⟩ := ofTarget_yields yields
  obtain ⟨rule, listed, leads⟩ := leads
  rw [rulesAt_of_get? known] at listed
  cases room with
  | zero => exact absurd inside not_yields_throw
  | succ room =>
    rw [ofList_succ] at inside
    obtain ⟨first, lines, σ₁, σ₂, compiled⟩ := yields_of_mem inside listed
    obtain ⟨depth', lines, σ₁, σ₂, target⟩ := ofRule_yields_target compiled leads
    exact ⟨room, rfl, depth', lines, σ₁, σ₂, target⟩

theorem Settles.further {target : Text} (settles : Settles ctx room state)
    (leads : Relation.TransGen ctx.language.graph.Leads state target) :
    ∃ less < room, Settles ctx less target := by
  induction leads with
  | single leads =>
    obtain ⟨less, rfl, target⟩ := settles.leads leads
    exact ⟨less, Nat.lt_succ_self less, target⟩
  | tail _ leads ih =>
    obtain ⟨less, lower, middle⟩ := ih
    obtain ⟨least, rfl, target⟩ := middle.leads leads
    exact ⟨least, by omega, target⟩

/-- A state that compiles does not lead back to itself: each turn would take some of the room. -/
theorem Settles.acyclic (settles : Settles ctx room state) :
    ¬ Relation.TransGen ctx.language.graph.Leads state state := by
  intro cycle
  induction room using Nat.strong_induction_on with
  | _ room ih =>
    obtain ⟨less, lower, settles⟩ := settles.further cycle
    exact ih less lower settles

theorem Settles.reaches {target : Text} (settles : Settles ctx room state)
    (reaches : Relation.ReflTransGen ctx.language.graph.Leads state target) :
    ∃ less, Settles ctx less target := by
  obtain rfl | leads := Relation.reflTransGen_iff_eq_or_transGen.1 reaches
  · exact ⟨room, settles⟩
  · obtain ⟨less, -, settles⟩ := settles.further leads
    exact ⟨less, settles⟩

/-! ## Failures for the depth -/

/-- The rules `xs` in front of a list compile, however much room they take, which leaves the session
`σ'`. -/
def Clears (ctx : Context) (state : Text) (list : List Rule) (depth : Nat) (xs : List Rule)
    (σ σ' : Session) : Prop :=
  ∃ room lines, Yields (ofRules (ofRuleAt ctx room (ofRegion ctx room state list depth) state
    (list.any Rule.isPush) depth) true xs) σ lines σ'

/-- Rule lists that are at work at one time while a rule list of a state is compiled from a session,
where as many may be at work as want to: the list itself, and those that one of its rules comes to
when the rules in front of it have compiled. -/
inductive AtWork (ctx : Context) :
    Session → Text → List Rule → Nat → List (List Rule) → Prop where
  | here {σ : Session} {state : Text} {list : List Rule} {depth : Nat} :
    AtWork ctx σ state list depth [list]
  | target {σ σ₁ σ₂ : Session} {state target : Text} {list xs ys inner : List Rule} {rule : Rule}
    {depth depth' : Nat} {chain : List (List Rule)} (split : list = xs ++ rule :: ys)
    (clears : Clears ctx state list depth xs σ σ₁)
    (enters : Enters ctx state depth σ₁ rule target depth' σ₂)
    (known : Table.get? ctx.language.graph target = some inner)
    (inside : AtWork ctx σ₂ target inner depth' chain) :
    AtWork ctx σ state list depth (list :: chain)
  | region {σ σ₁ : Session} {state : Text} {list xs ys : List Rule} {rule : Rule} {depth : Nat}
    {binding : Binding} {chain : List (List Rule)} (split : list = xs ++ rule :: ys)
    (clears : Clears ctx state list depth xs σ σ₁) (first : xs.any Rule.isPush = false)
    (push : rule.isPush = true) (drawn : Region.binding state (.ofRules list) = .ok binding)
    (full : (RegionRules.ofRules list).others ≠ [])
    (inside : AtWork ctx σ₁ state (RegionRules.ofRules list).others (depth + 1) chain) :
    AtWork ctx σ state list depth (list :: chain)

/-- Rule lists at work at one time stand inside each other. -/
theorem AtWork.isChain {chain : List (List Rule)} (atWork : AtWork ctx σ state list depth chain) :
    ∃ rest, chain = list :: rest ∧ List.IsChain ctx.language.graph.Holds chain := by
  induction atWork with
  | here => exact ⟨[], rfl, .singleton _⟩
  | target split clears enters known _ ih =>
    obtain ⟨rest, rfl, deeper⟩ := ih
    refine ⟨_, rfl, List.isChain_cons_cons.2 ⟨.target ?_ enters.target?_eq known, deeper⟩⟩
    rw [split]
    simp
  | region split clears first push drawn full _ ih =>
    obtain ⟨rest, rfl, deeper⟩ := ih
    refine ⟨_, rfl, List.isChain_cons_cons.2 ⟨.region ?_ full, deeper⟩⟩
    rw [split, List.any_append, List.any_cons, push, Bool.true_or, Bool.or_true]

/-- A compilation that ends for the depth has come to more rule lists than there is room for. -/
theorem exists_atWork (fails : Fails (ofList ctx room state list depth) σ e σ')
    (deep : e.fault.kind = .recursionLimitExceeded) :
    ∃ chain, AtWork ctx σ state list depth chain ∧ room < chain.length := by
  induction room generalizing state list depth σ with
  | zero => exact ⟨[list], .here, Nat.zero_lt_one⟩
  | succ room ih =>
    rw [ofList_eq] at fails
    obtain ⟨xs, rule, ys, lines, σ₁, split, done, fails⟩ := ofRules_fails fails
    have clears : Clears ctx state list depth xs σ σ₁ := ⟨room, lines, done⟩
    obtain ⟨pattern, token, leaves, -, -, unbound⟩ | ⟨target, depth', σ₂, enters, fails⟩ |
      ⟨push, first, fails⟩ | ⟨raw, pattern, token, -, rfl⟩ := ofRule_fails fails
    · exact absurd deep (bindAt_asks unbound).bounded
    · obtain ⟨-, rfl⟩ | ⟨inner, known, fails⟩ := ofTarget_fails fails
      · cases deep
      · obtain ⟨chain, atWork, longer⟩ := ih fails
        exact ⟨list :: chain, .target split clears enters known atWork, Nat.succ_lt_succ longer⟩
    · obtain refused | ⟨binding, drawn, full, fails⟩ := ofRegion_fails fails
      · have asks : ctx.Asks [] e := Region.binding_asks refused
        exact absurd deep asks.bounded
      · obtain ⟨chain, atWork, longer⟩ := ih fails
        have first : xs.any Rule.isPush = false := by simpa using first
        exact ⟨list :: chain, .region split clears first push drawn full atWork,
          Nat.succ_lt_succ longer⟩
    · cases deep

/-! ## A whole compilation -/

/-- Rule lists that are at work at one time while the root state is compiled from a session. -/
def AtWorkFromRoot (ctx : Context) (σ : Session) (depth : Nat) (chain : List (List Rule)) : Prop :=
  ∃ rules, Table.get? ctx.language.graph rootState = some rules ∧
    AtWork ctx σ rootState rules depth chain

theorem AtWorkFromRoot.nested {chain : List (List Rule)}
    (atWork : AtWorkFromRoot ctx σ depth chain) : ctx.language.graph.Nested rootState chain := by
  obtain ⟨rules, known, atWork⟩ := atWork
  obtain ⟨rest, rfl, isChain⟩ := atWork.isChain
  exact ⟨rules, rest, known, rfl, isChain⟩

/-- Compiling the root state comes to an end, whatever the graph. If it succeeds, it does so
with the same statements under every higher limit, no state that it comes to leads back to itself,
and no more rule lists stand inside each other than the limit allows. If no more rule lists are
at work at one time than the limit allows, it does not fail for the depth. -/
theorem ofState_depth (ctx : Context) (σ : Session) (depth : Nat) :
    ((∃ lines σ', Yields (ofState ctx rootState depth) σ lines σ') ∨
      ∃ e σ', Fails (ofState ctx rootState depth) σ e σ') ∧
    (∀ lines σ', Yields (ofState ctx rootState depth) σ lines σ' →
      (∀ maxDepth, ctx.limits.maxDepth.floorNat ≤ maxDepth.floorNat →
        Yields (ofState (ctx.withDepth maxDepth) rootState depth) σ lines σ') ∧
      (∀ state, ctx.language.graph.Reaches state →
        ¬ Relation.TransGen ctx.language.graph.Leads state state) ∧
      ∀ chain, ctx.language.graph.Nested rootState chain →
        chain.length ≤ ctx.limits.maxDepth.floorNat) ∧
    (∀ chain, AtWorkFromRoot ctx σ depth chain → ctx.language.graph.Nested rootState chain) ∧
    ((∀ chain, AtWorkFromRoot ctx σ depth chain → chain.length ≤ ctx.limits.maxDepth.floorNat) →
      ∀ e σ', Fails (ofState ctx rootState depth) σ e σ' →
        e.fault.kind ≠ .recursionLimitExceeded) := by
  refine ⟨yields_or_fails _ σ, ?_, fun chain => AtWorkFromRoot.nested, ?_⟩
  · intro lines σ' yields
    have settles : Settles ctx ctx.limits.maxDepth.floorNat rootState := ⟨depth, lines, σ, σ', yields⟩
    obtain ⟨rules, known, inside⟩ := ofTarget_yields yields
    refine ⟨fun maxDepth more => ?_, fun state reaches => ?_, ?_⟩
    · refine yields_bind_iff.2 ⟨rules, σ, ?_, ?_⟩
      · exact yields_ofExcept_iff.2 ⟨Context.rulesOf_eq_ok_iff.2 known, rfl⟩
      · exact ofList_refines_withDepth more maxDepth rootState rules depth _ _ _ inside
    · obtain ⟨room, settles⟩ := settles.reaches reaches
      exact settles.acyclic
    · rintro chain ⟨rules', rest, same, rfl, isChain⟩
      rw [known] at same
      cases same
      exact ofList_room inside isChain
  · intro short e σ' fails deep
    obtain ⟨-, rfl⟩ | ⟨rules, known, inside⟩ := ofTarget_fails fails
    · cases deep
    · obtain ⟨chain, atWork, longer⟩ := exists_atWork inside deep
      have allowed := short chain ⟨rules, known, atWork⟩
      omega

/-- A limit of three is enough for `pairsLanguage`, whose region holds a rule that leads to another
state. Under a limit of two it fails for the depth, at a row of more rule lists. -/
theorem ofState_depth_pairsLanguage :
    let ctx : Context := ⟨pairsLanguage, ⟨.integer 3, .integer 9, .integer 9⟩, fun _ => none⟩
    let lines : List Statement := [
      .comment 0 "inner state", .blockStart 0 (.groups ["Token.A", "Token.B"] "(a)(b)"),
      .leave 1 (.single "Token.E" "e") (.integer 2), .blockEnd 0,
      .comment 0 "nested root state", .blockStart 0 (.region "Token.C" "<" ">" false),
      .comment 1 "inner state", .blockStart 1 (.groups ["Token.A", "Token.B"] "(a)(b)"),
      .leave 2 (.single "Token.E" "e") (.integer 2), .blockEnd 1,
      .leave 1 (.single "Token.E" "e") (.integer 2), .blockEnd 0,
      .leave 0 (.single "Token.E" "e") (.integer 2)]
    Yields (ofState ctx rootState 0) [] lines [] ∧
    Yields (ofState (ctx.withDepth (.integer 64)) rootState 0) [] lines [] ∧
    (∀ state, ctx.language.graph.Reaches state →
      ¬ Relation.TransGen ctx.language.graph.Leads state state) ∧
    (∀ chain, AtWorkFromRoot ctx [] 0 chain → chain.length ≤ 3) ∧
    (∀ e σ', Fails (ofState ctx rootState 0) [] e σ' → e.fault.kind ≠ .recursionLimitExceeded) ∧
    ∃ chain, AtWorkFromRoot (ctx.withDepth (.integer 2)) [] 0 chain ∧ 2 < chain.length := by
  intro ctx lines
  have done : Yields (ofState ctx rootState 0) [] lines [] := by
    unfold Yields
    cbv
  obtain ⟨-, success, nested, failure⟩ := ofState_depth ctx [] 0
  obtain ⟨higher, acyclic, room⟩ := success lines [] done
  have short (chain : List (List Rule)) (atWork : AtWorkFromRoot ctx [] 0 chain) :
      chain.length ≤ 3 := room chain (nested chain atWork)
  refine ⟨done, higher (.integer 64) (by decide), acyclic, short, failure short, ?_⟩
  by_contra none
  have short (chain : List (List Rule))
      (atWork : AtWorkFromRoot (ctx.withDepth (.integer 2)) [] 0 chain) : chain.length ≤ 2 :=
    Nat.le_of_not_lt fun longer => none ⟨chain, atWork, longer⟩
  have deep : Fails (ofState (ctx.withDepth (.integer 2)) rootState 0) []
      (.atState (.tooDeep (.integer 2)) "inner") [] := by
    unfold Fails
    cbv
  exact (ofState_depth (ctx.withDepth (.integer 2)) [] 0).2.2.2 short _ _ deep rfl

end Body

end Highlight
