import Highlight.Proofs.Regex.Rereading
import Highlight.Proofs.SubLexer.Names

/-!
# Lexers that could be built

What a lexer consists of once it is built (`joined_of_build`): each state that can be entered has
the rules that its own state of the language was compiled to, none of them captures, and where a
rule enters a state there is one. A rule alone reads as it does among the others, as long as it
refers to no group by number (`expression_eq`).
-/

namespace Highlight

namespace SubLexer

variable {language : Language} {start state pattern : Text} {lexer : SubLexer}
  {states : Table Text (List LexRule)}

/-- The parts that a lexer was joined from. -/
structure Joined (language : Language) (start : Text) (lexer : SubLexer)
    (states : Table Text (List LexRule)) : Prop where
  known : start ∈ Table.keys language.graph
  complete : ∀ state ∈ Table.keys language.graph, ∃ rules, (state, rules) ∈ states
  compiled : ∀ entry ∈ states, entry.1 ∈ Table.keys language.graph ∧
    compileState language.graph entry.1 = .ok entry.2
  sound : joinFault? states start = none
  activated : lexer.states = (enterable states).map fun entry => (entry.1, activate entry.2)
  starts : lexer.start = (startOf? (enterable states) start).getD start

theorem joined_of_build (built : build language start = .ok lexer) :
    ∃ states, Joined language start lexer states := by
  unfold build at built
  dsimp only at built
  split at built
  · cases built
  · rename_i known
    obtain ⟨states, mapped, joined⟩ := except_bind_eq_ok_iff.1 built
    split at joined
    · cases joined
    · rename_i sound
      cases joined
      refine ⟨states, Table.has_iff.1 (by simpa using known), ?_, ?_, sound, rfl, rfl⟩
      · intro state listed
        obtain ⟨⟨name, rules⟩, held, made⟩ := mem_of_mapM_eq_ok mapped listed
        split at made
        · cases made
          exact ⟨rules, held⟩
        · cases made
      · intro entry held
        obtain ⟨state, listed, made⟩ := exists_of_mapM_eq_ok mapped held
        split at made
        · rename_i compiled
          cases made
          exact ⟨listed, compiled⟩
        · cases made

theorem mem_enterable {entry : Text × List LexRule} : entry ∈ enterable states ↔
    entry ∈ states ∧ entry.1 ≠ sharedState ∧ entry.1 ≠ unreachableState := by
  unfold enterable
  rw [List.mem_filter, Table.mem_positionsFirst]
  simp

theorem capturingRule?_eq_none_iff {rules : List LexRule} :
    capturingRule? rules = none ↔ ∀ rule ∈ rules, Regex.groupNames rule.source = [] := by
  unfold capturingRule?
  rw [List.find?_eq_none]
  simp

theorem stateFault?_eq_none_iff {shared : Option (List LexRule)} {rules : List LexRule} :
    stateFault? shared rules = none ↔
      (∀ rule ∈ rules, Regex.groupNames rule.source = []) ∧ shared = none := by
  unfold stateFault?
  dsimp only
  rw [← capturingRule?_eq_none_iff]
  cases capturingRule? rules with
  | some rule => simp
  | none => cases shared <;> simp

theorem missingState?_eq_none_iff {states : Table Text (List LexRule)} :
    missingState? states = none ↔ ∀ entry ∈ states, ∀ rule ∈ entry.2, ∀ target,
      rule.move = .enter target → target ∈ Table.keys states := by
  unfold missingState?
  rw [List.findSome?_eq_none_iff]
  refine forall₂_congr fun entry held => ?_
  rw [List.findSome?_eq_none_iff]
  refine forall₂_congr fun rule listed => ?_
  cases rule.move with
  | enter target => simp [Table.has_iff]
  | _ => simp

/-- States can be joined if none of their rules captures, there are no shared rules, every state
that is entered is one of them, and there is one to start in. -/
theorem joinFault?_eq_none_iff : joinFault? states start = none ↔
    (∀ entry ∈ enterable states, (∀ rule ∈ entry.2, Regex.groupNames rule.source = []) ∧
      Table.get? states sharedState = none) ∧
    (∀ entry ∈ enterable states, ∀ rule ∈ entry.2, ∀ target, rule.move = .enter target →
      target ∈ Table.keys (enterable states)) ∧
    startOf? (enterable states) start ≠ none := by
  unfold joinFault?
  dsimp only
  rw [← missingState?_eq_none_iff]
  simp only [← stateFault?_eq_none_iff]
  rw [← List.findSome?_eq_none_iff]
  split
  · rename_i fault found
    constructor
    · intro absurd
      cases absurd
    · intro sound
      cases found.symm.trans sound.1
  · rename_i faultless
    split
    · rename_i fault found
      constructor
      · intro absurd
        cases absurd
      · intro sound
        cases found.symm.trans sound.2.1
    · rename_i closed
      constructor
      · intro sound
        refine ⟨faultless, closed, fun none => ?_⟩
        rw [if_pos (Option.isNone_iff_eq_none.2 none)] at sound
        cases sound
      · intro sound
        exact if_neg fun none => sound.2.2 (Option.isNone_iff_eq_none.1 none)

namespace Joined

theorem keys_eq (joined : Joined language start lexer states) :
    Table.keys lexer.states = Table.keys (enterable states) := by
  unfold Table.keys
  rw [joined.activated, List.map_map]
  rfl

/-- The rules of a state that can be entered are those that it was compiled to. -/
theorem rulesOf_eq (joined : Joined language start lexer states)
    (listed : state ∈ Table.keys lexer.states) :
    ∃ rules, (state, rules) ∈ enterable states ∧ lexer.rulesOf state = activate rules := by
  obtain ⟨actives, found⟩ := Option.isSome_iff_exists.1 (Table.has_iff.2 listed)
  have held := Table.mem_of_get? found
  rw [joined.activated] at held
  obtain ⟨⟨name, rules⟩, inside, same⟩ := List.mem_map.1 held
  cases same
  exact ⟨rules, inside, by rw [rulesOf, found]; rfl⟩

/-- The state in which a lexer starts can be entered. -/
theorem start_mem (joined : Joined language start lexer states) :
    lexer.start ∈ Table.keys lexer.states := by
  obtain ⟨first, found⟩ :=
    Option.ne_none_iff_exists'.1 (joinFault?_eq_none_iff.1 joined.sound).2.2
  rw [joined.keys_eq, joined.starts, found, Option.getD_some]
  unfold startOf? at found
  split at found
  · exact List.mem_of_mem_head? found
  · split at found
    · rename_i known
      cases found
      exact Table.has_iff.1 known
    · cases found

/-- A lexer starts in the state that was asked for, if that has a name. -/
theorem start_eq (joined : Joined language start lexer states) (named : start ≠ []) :
    lexer.start = start := by
  rw [joined.starts, startOf?, if_neg (by simpa using named)]
  split <;> rfl

/-- No rule that can run captures. -/
theorem groupNames_eq (joined : Joined language start lexer states) {entry : Text × List LexRule}
    (held : entry ∈ enterable states) {rule : LexRule} (listed : rule ∈ entry.2) :
    Regex.groupNames rule.source = [] :=
  ((joinFault?_eq_none_iff.1 joined.sound).1 entry held).1 rule listed

end Joined

/-- The source of a rule reads alone as it does among others, if no group captures and none is
referred to by number. -/
theorem expression_eq {source : Text} {e : Regex} (read : Regex.read? source = some e)
    (captureless : Regex.groupNames source = []) (unnumbered : Regex.Unnumbered false source)
    (count : Nat) :
    (Regex.readWith? (List.replicate count none) source).getD .empty = e := by
  have nameless : Regex.Nameless (List.replicate count none) [] := by
    refine ⟨?_, rfl⟩
    unfold Regex.Groups.named
    rw [List.any_replicate]
    split <;> rfl
  unfold Regex.read? at read
  rw [captureless] at read
  rw [Regex.readWith?_unnumbered nameless unnumbered]
  dsimp only at read
  split at read
  · rw [read]
    rfl
  · cases read

end SubLexer

end Highlight
