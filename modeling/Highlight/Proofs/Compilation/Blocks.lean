import Highlight.Compilation.Body
import Highlight.Proofs.Compilation.Binding
import Highlight.Proofs.Statement.Block
import Mathlib

/-!
# The blocks of a compiled state

Whatever the states of a language refer to, the statements of a state that compiles are a block
tree. `Line` and `Block` say where each line and each block comes from: a rule of a state of the
language, or the region of a state. `ofList_blocks` derives the statements of a rule list from
such lines and blocks, by induction on the room for rule lists, and `ofState_isBlockTree` reads
off what a reader of the list can rely on.
-/

namespace Highlight

open Compilation Statement

variable {ctx : Context} {σ σ' : Session}

namespace Region

/-- A region is bound as one, and not otherwise. -/
theorem binding_eq_region {state : Text} {rules : RegionRules} {found : Binding}
    (h : binding state rules = .ok found) :
    ∃ token entering leaving multiline, found = .region token entering leaving multiline := by
  unfold binding at h
  split at h
  · obtain ⟨token, -, h⟩ := except_bind_eq_ok_iff.1 h
    obtain ⟨entering, -, h⟩ := except_bind_eq_ok_iff.1 h
    obtain ⟨leaving, -, h⟩ := except_bind_eq_ok_iff.1 h
    cases h
    exact ⟨_, _, _, _, rfl⟩
  · cases h

/-- The statements of a region: one line if no other rules are left, else a block around those. -/
theorem compile_yields {inner : List Rule → Nat → Compilation (List Statement)} {state : Text}
    {rules : List Rule} {depth : Nat} {lines : List Statement}
    (h : Yields (compile Compilation.ofExcept inner state rules depth) σ lines σ') :
    ∃ found, binding state (.ofRules rules) = .ok found ∧
      (((RegionRules.ofRules rules).others = [] ∧ σ' = σ ∧ lines = [.rule depth found]) ∨
        ∃ body, (RegionRules.ofRules rules).others ≠ [] ∧
          Yields (inner (RegionRules.ofRules rules).others (depth + 1)) σ body σ' ∧
          lines = .comment depth ("nested " ++ state ++ " state") :: .blockStart depth found ::
            (body ++ [.blockEnd depth])) := by
  obtain ⟨found, σ₁, first, rest⟩ := yields_bind_iff.1 h
  obtain ⟨bound, rfl⟩ := yields_ofExcept_iff.1 first
  refine ⟨found, bound, ?_⟩
  by_cases bare : (RegionRules.ofRules rules).others = []
  · simp only [bare, List.isEmpty_nil, if_true] at rest
    exact .inl ⟨bare, (yields_pure_iff.1 rest).symm⟩
  · have full : (RegionRules.ofRules rules).others.isEmpty = false := by simpa using bare
    simp only [full, Bool.false_eq_true, if_false] at rest
    obtain ⟨body, σ₂, inside, last⟩ := yields_bind_iff.1 rest
    obtain ⟨rfl, rfl⟩ := yields_pure_iff.1 last
    exact .inr ⟨body, bare, inside, rfl⟩

end Region

theorem RegionRules.mem_others {rules : List Rule} {rule : Rule}
    (h : rule ∈ (RegionRules.ofRules rules).others) :
    rule ∈ rules ∧ rule.isPush = false ∧ rule.isPop = false := by
  simpa [RegionRules.ofRules, and_assoc] using h

theorem Context.rulesOf_eq_ok_iff {state : Text} {list : List Rule} :
    ctx.rulesOf state = .ok list ↔ Table.get? ctx.language.graph state = some list := by
  unfold rulesOf
  cases Table.get? ctx.language.graph state <;> simp

namespace Body

/-- A rule of a state of the graph. -/
def HasRule (graph : Graph) (state : Text) (rule : Rule) : Prop :=
  ∃ rules, Table.get? graph state = some rules ∧ rule ∈ rules

/-- The statements that the rules `list` of a state can give at a depth. -/
def Gives (ctx : Context) (state : Text) (list : List Rule) (depth : Nat)
    (lines : List Statement) : Prop :=
  ∃ room σ σ', Yields (ofList ctx room state list depth) σ lines σ'

/-- Where a line outside the frame of blocks comes from. -/
inductive Line (ctx : Context) : Statement → Prop where
  | rule {d : Nat} {state pattern : Text} {token : TokenSpec} {binding : Binding}
    (own : HasRule ctx.language.graph state (.literal pattern token))
    (bound : Binding.BoundTo pattern token binding) : Line ctx (.rule d binding)
  | leave {d : Nat} {state pattern : Text} {token : TokenSpec} {count : Number} {binding : Binding}
    (own : HasRule ctx.language.graph state (.pop pattern token count))
    (bound : Binding.BoundTo pattern token binding) : Line ctx (.leave d binding count)
  | region {d : Nat} {state : Text} {rules : List Rule} {binding : Binding}
    (own : Table.get? ctx.language.graph state = some rules)
    (drawn : Region.binding state (.ofRules rules) = .ok binding) : Line ctx (.rule d binding)

/-- Where a block comes from, with the comment on it and the statements inside. -/
inductive Block (ctx : Context) : Nat → Text → Binding → List Statement → Prop where
  | entered {d : Nat} {state pattern target : Text} {token : TokenSpec} {binding : Binding}
    {inner : List Statement} (own : HasRule ctx.language.graph state (.nested pattern token target))
    (bound : Binding.BoundTo pattern token binding) :
    Block ctx d (target ++ " state") binding inner
  | region {d : Nat} {state : Text} {rules : List Rule} {binding : Binding}
    {inner : List Statement} (own : Table.get? ctx.language.graph state = some rules)
    (drawn : Region.binding state (.ofRules rules) = .ok binding)
    (inside : Gives ctx state (RegionRules.ofRules rules).others (d + 1) inner) :
    Block ctx d ("nested " ++ state ++ " state") binding inner

/-- The rule lists of a state that are compiled: all its rules, or those beside its region. -/
def Owned (graph : Graph) (state : Text) (list : List Rule) : Prop :=
  ∃ rules, Table.get? graph state = some rules ∧
    (list = rules ∨ list = (RegionRules.ofRules rules).others)

theorem Owned.hasRule {graph : Graph} {state : Text} {list : List Rule} {rule : Rule}
    (owned : Owned graph state list) (mem : rule ∈ list) : HasRule graph state rule := by
  obtain ⟨rules, own, rfl | rfl⟩ := owned
  · exact ⟨_, own, mem⟩
  · exact ⟨rules, own, (RegionRules.mem_others mem).1⟩

/-- A list with a rule that enters its own state holds all the rules of the state. -/
theorem Owned.whole {graph : Graph} {state : Text} {list : List Rule} {rule : Rule}
    (owned : Owned graph state list) (mem : rule ∈ list) (push : rule.isPush = true) :
    Table.get? graph state = some list := by
  obtain ⟨rules, own, rfl | rfl⟩ := owned
  · exact own
  · rw [(RegionRules.mem_others mem).2.1] at push
    cases push

theorem bindAt_boundTo {state pattern : Text} {token : TokenSpec} {leaves : Bool}
    {binding : Binding}
    (h : Yields (bindAt ctx state pattern token leaves) σ (some binding) σ') :
    Binding.BoundTo pattern token binding :=
  Binding.ofPattern_boundTo (yields_within_iff.1 h)

section Rules

variable {state : Text} {list : List Rule} {depth : Nat} {lines : List Statement}
  {other : Text → Nat → Compilation (List Statement)} {region : Compilation (List Statement)}

/-- One rule gives derived statements if the other states and the region do. -/
theorem ofRule_blocks (owned : Owned ctx.language.graph state list)
    (others : ∀ target d σ lines σ', Yields (other target d) σ lines σ' →
      Blocks (Line ctx) (Block ctx) d lines)
    (drawn : Table.get? ctx.language.graph state = some list → ∀ σ lines σ',
      Yields region σ lines σ' → Blocks (Line ctx) (Block ctx) depth lines)
    {hasRegion first : Bool} {rule : Rule} (mem : rule ∈ list)
    (h : Yields (ofRule ctx other region state hasRegion first depth rule) σ lines σ') :
    Blocks (Line ctx) (Block ctx) depth lines := by
  cases rule with
  | splice target => exact others target depth _ _ _ h
  | literal pattern token =>
    obtain ⟨binding, σ₁, bound, last⟩ := yields_bind_iff.1 h
    obtain ⟨rfl, -⟩ := yields_pure_iff.1 last
    cases binding with
    | none => exact .nil
    | some binding => exact .rule (.rule (owned.hasRule mem) (bindAt_boundTo bound))
  | nested pattern token target =>
    obtain ⟨binding, σ₁, bound, rest⟩ := yields_bind_iff.1 h
    cases binding with
    | none => exact others target depth _ _ _ rest
    | some binding =>
      obtain ⟨inner, σ₂, inside, last⟩ := yields_bind_iff.1 rest
      obtain ⟨rfl, -⟩ := yields_pure_iff.1 last
      exact .block (.entered (owned.hasRule mem) (bindAt_boundTo bound))
        (others target (depth + 1) _ _ _ inside)
  | push pattern token =>
    cases first with
    | true => exact drawn (owned.whole mem rfl) _ _ _ h
    | false =>
      obtain ⟨rfl, -⟩ := yields_pure_iff.1 h
      exact .nil
  | pop pattern token count =>
    cases hasRegion with
    | true =>
      obtain ⟨rfl, -⟩ := yields_pure_iff.1 h
      exact .nil
    | false =>
      obtain ⟨binding, σ₁, bound, last⟩ := yields_bind_iff.1 h
      obtain ⟨rfl, -⟩ := yields_pure_iff.1 last
      cases binding with
      | none => exact .nil
      | some binding => exact .leave (.leave (owned.hasRule mem) (bindAt_boundTo bound))
  | unknown raw pattern token => exact absurd h not_yields_throw

/-- Rules in order give derived statements if each of them does. -/
theorem ofRules_blocks {one : Bool → Rule → Compilation (List Statement)} {rules : List Rule}
    (each : ∀ first, ∀ rule ∈ rules, ∀ σ lines σ', Yields (one first rule) σ lines σ' →
      Blocks (Line ctx) (Block ctx) depth lines)
    {first : Bool} (h : Yields (ofRules one first rules) σ lines σ') :
    Blocks (Line ctx) (Block ctx) depth lines := by
  induction rules generalizing first σ lines with
  | nil =>
    obtain ⟨rfl, -⟩ := yields_pure_iff.1 h
    exact .nil
  | cons rule rest ih =>
    obtain ⟨here, σ₁, head, more⟩ := yields_bind_iff.1 h
    obtain ⟨there, σ₂, tail, last⟩ := yields_bind_iff.1 more
    obtain ⟨rfl, rfl⟩ := yields_pure_iff.1 last
    exact .append (each first rule (by simp) _ _ _ head)
      (ih (fun first rule mem => each first rule (by simp [mem])) tail)

end Rules

/-- The statements of a rule list are derived from the rules of the language. -/
theorem ofList_blocks {room : Nat} {state : Text} {list : List Rule} {depth : Nat}
    {lines : List Statement} (owned : Owned ctx.language.graph state list)
    (h : Yields (ofList ctx room state list depth) σ lines σ') :
    Blocks (Line ctx) (Block ctx) depth lines := by
  induction room generalizing state list depth lines σ σ' with
  | zero => exact absurd h not_yields_throw
  | succ room ih =>
    refine ofRules_blocks (fun first rule mem σ lines σ' h => ?_) h
    refine ofRule_blocks owned ?_ ?_ mem h
    · intro target d σ lines σ' h
      obtain ⟨rules, σ₁, known, inside⟩ := yields_bind_iff.1 h
      obtain ⟨known, -⟩ := yields_ofExcept_iff.1 known
      have own := Context.rulesOf_eq_ok_iff.1 known
      exact ih ⟨rules, own, .inl rfl⟩ inside
    · intro own σ lines σ' h
      obtain ⟨binding, drawn, ⟨-, -, rfl⟩ | ⟨body, -, inside, rfl⟩⟩ := Region.compile_yields h
      · exact .rule (.region own drawn)
      · exact .block (.region own drawn ⟨room, σ, σ', inside⟩)
          (ih ⟨list, own, .inr rfl⟩ inside)

/-- The statement is one that the rule gives. -/
inductive LineOf : Rule → Statement → Prop where
  | literal {d : Nat} {pattern : Text} {token : TokenSpec} {binding : Binding} :
    LineOf (.literal pattern token) (.rule d binding)
  | nested {d : Nat} {pattern target : Text} {token : TokenSpec} {binding : Binding} :
    LineOf (.nested pattern token target) (.blockStart d binding)
  | pop {d : Nat} {pattern : Text} {token : TokenSpec} {count : Number} {binding : Binding} :
    LineOf (.pop pattern token count) (.leave d binding count)

/-- Tokens bound to groups come from a rule with a list of items, one for each group. -/
structure GroupsOf (ctx : Context) (s : Statement) (tokens : List TokenType) (pattern : Text)
    (state : Text) (rule : Rule) (source : Text) (items : List TokenSpec) : Prop where
  own : HasRule ctx.language.graph state rule
  lineOf : LineOf rule s
  pattern_eq : rule.pattern? = some source
  token_eq : rule.token? = some (.compound items)
  convert : Dialect.convert source = .ok pattern
  length_eq : tokens.length = (Dialect.topLevelGroups pattern).length
  named : Binding.NamedBy items tokens

theorem groupsOf_of_boundTo {s : Statement} {tokens : List TokenType} {pattern state : Text}
    {rule : Rule} {source : Text} {token : TokenSpec} (own : HasRule ctx.language.graph state rule)
    (lineOf : LineOf rule s) (pattern_eq : rule.pattern? = some source)
    (token_eq : rule.token? = some token)
    (bound : Binding.BoundTo source token (.groups tokens pattern)) :
    ∃ items, GroupsOf ctx s tokens pattern state rule source items := by
  cases bound with
  | groups convert length_eq named =>
    exact ⟨_, own, lineOf, pattern_eq, token_eq, convert, length_eq, named⟩

variable {depth : Nat} {lines : List Statement}

theorem stands_groups {before after : List Statement} {e : Nat} {s : Statement}
    (h : Stands (Line ctx) (Block ctx) before e s after) {tokens : List TokenType} {pattern : Text}
    (bound : s.binding? = some (.groups tokens pattern)) :
    ∃ state rule source items, GroupsOf ctx s tokens pattern state rule source items := by
  have noRegion : ∀ {state : Text} {rules : RegionRules} {binding : Binding},
      Region.binding state rules = .ok binding → binding ≠ .groups tokens pattern := by
    rintro state rules binding drawn rfl
    obtain ⟨_, _, _, _, same⟩ := Region.binding_eq_region drawn
    cases same
  cases h with
  | rule line =>
    cases Option.some.inj bound
    cases line with
    | rule own given => exact ⟨_, _, _, groupsOf_of_boundTo own .literal rfl rfl given⟩
    | region own drawn => exact absurd rfl (noRegion drawn)
  | leave line =>
    cases Option.some.inj bound
    cases line with
    | leave own given => exact ⟨_, _, _, groupsOf_of_boundTo own .pop rfl rfl given⟩
  | comment => cases bound
  | blockStart front rest head inside =>
    cases Option.some.inj bound
    cases head with
    | entered own given => exact ⟨_, _, _, groupsOf_of_boundTo own .nested rfl rfl given⟩
    | region own drawn _ => exact absurd rfl (noRegion drawn)
  | blockEnd => cases bound

/-- The statements of a state, whatever the language, the limits and the other languages. They are
a block tree. A block of a region stands under the comment of a state and holds the other rules of
that state. No leaving line binds a region. Tokens bound to groups are those that a rule of the
language names, one for each group. -/
theorem ofState_isBlockTree {name : Text} (h : Yields (ofState ctx name depth) σ lines σ') :
    IsBlockTree depth lines ∧
    (∀ before d token entering leaving multiline after,
      lines = before ++ .blockStart d (.region token entering leaving multiline) :: after →
      ∃ state rules front inner rest, Table.get? ctx.language.graph state = some rules ∧
        Region.binding state (.ofRules rules) = .ok (.region token entering leaving multiline) ∧
        before = front ++ [.comment d ("nested " ++ state ++ " state")] ∧
        after = inner ++ .blockEnd d :: rest ∧ IsBlockTree (d + 1) inner ∧
        Gives ctx state (RegionRules.ofRules rules).others (d + 1) inner) ∧
    (∀ d binding count, .leave d binding count ∈ lines →
      ∀ token entering leaving multiline, binding ≠ .region token entering leaving multiline) ∧
    (∀ s ∈ lines, ∀ tokens pattern, s.binding? = some (.groups tokens pattern) →
      ∃ state rule source items, GroupsOf ctx s tokens pattern state rule source items) := by
  obtain ⟨rules, σ₁, known, inside⟩ := yields_bind_iff.1 h
  have own := Context.rulesOf_eq_ok_iff.1 (yields_ofExcept_iff.1 known).1
  have blocks := ofList_blocks ⟨rules, own, .inl rfl⟩ inside
  refine ⟨blocks.isBlockTree, ?_, ?_, ?_⟩
  · intro before d token entering leaving multiline after same
    obtain ⟨e, -, -, stands⟩ := blocks.stands same
    cases stands with
    | blockStart front rest head inside =>
      cases head with
      | entered own bound => cases bound
      | region own drawn given =>
        exact ⟨_, _, front, _, rest, own, drawn, rfl, rfl, inside.isBlockTree, given⟩
  · rintro d binding count mem token entering leaving multiline rfl
    obtain ⟨before, after, same⟩ := List.append_of_mem mem
    obtain ⟨e, -, -, stands⟩ := blocks.stands same
    cases stands with
    | leave line =>
      cases line with
      | leave own bound => cases bound
  · intro s mem tokens pattern bound
    obtain ⟨before, after, same⟩ := List.append_of_mem mem
    obtain ⟨e, -, -, stands⟩ := blocks.stands same
    exact stands_groups stands bound

/-- A language with a region, a block of its own and one that is entered twice. -/
def pairsLanguage : Language where
  name := "pairs"
  aliases := []
  filenames := []
  aliasFilenames := []
  graph := [
    ("root", [
      .nested "(a)(b)" (.compound [.literal "Token.A", .literal "Token.B"]) "inner",
      .push "<" (.literal "Token.C"),
      .nested ".*" (.literal "Token.D") "inner",
      .pop ">" (.literal "Token.C") (.integer 1)]),
    ("inner", [.pop "e" (.literal "Token.E") (.integer 2)])]
  sourceFile := none

/-- The root state of `pairsLanguage` at depth one. The rule that runs to the end of the line is
dropped, and what its target gives stands in its stands. -/
theorem ofState_pairsLanguage :
    let ctx : Context := ⟨pairsLanguage, ⟨.integer 3, .integer 9, .integer 9⟩, fun _ => none⟩
    let lines : List Statement := [
      .comment 1 "inner state", .blockStart 1 (.groups ["Token.A", "Token.B"] "(a)(b)"),
      .leave 2 (.single "Token.E" "e") (.integer 2), .blockEnd 1,
      .comment 1 "nested root state", .blockStart 1 (.region "Token.C" "<" ">" false),
      .comment 2 "inner state", .blockStart 2 (.groups ["Token.A", "Token.B"] "(a)(b)"),
      .leave 3 (.single "Token.E" "e") (.integer 2), .blockEnd 2,
      .leave 2 (.single "Token.E" "e") (.integer 2), .blockEnd 1,
      .leave 1 (.single "Token.E" "e") (.integer 2)]
    Yields (ofState ctx rootState 1) [] lines [] ∧ IsBlockTree 1 lines ∧
      ∃ state rule source items, GroupsOf ctx
        (.blockStart 1 (.groups ["Token.A", "Token.B"] "(a)(b)")) ["Token.A", "Token.B"] "(a)(b)"
        state rule source items := by
  intro ctx lines
  have h : Yields (ofState ctx rootState 1) [] lines [] := by
    unfold Yields
    cbv
  have whole := ofState_isBlockTree h
  exact ⟨h, whole.1, whole.2.2.2 _ (by simp [lines]) _ _ rfl⟩

end Body

end Highlight
