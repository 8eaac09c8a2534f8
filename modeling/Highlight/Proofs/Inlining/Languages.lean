import Highlight.Proofs.Inlining.Compiling

/-!
# Languages with and without splices

A language whose splices can be replaced without a trace compiles to the statements that the inlined
language compiles to, or both fail for causes of one kind (`Language.compile_inlined`). Each of the
conditions on the regions and on the places of rules is needed (`Language.compile_spliced`).
-/

namespace Highlight

open Compilation SubLexer

namespace Language

theorem compile_statements (language : Language) (limits : Limits)
    (lookup : Text → Option Language) :
    (language.compile limits lookup).map (·.statements) =
      ((within { Site.unknown with language := some language.name }
        (Body.ofTarget ⟨language, limits, lookup⟩ limits.maxDepth.floorNat rootState 0)).run.run
          []).1 := by
  unfold compile
  change Except.map _ (Except.map _ ((within _ (Body.ofTarget _ _ _ _)).run.run []).1) = _
  generalize ((within _ (Body.ofTarget _ _ _ _)).run.run []).1 = result
  cases result <;> rfl

/-- A language compiles to the statements that the inlined language compiles to, or both fail for
causes of one kind. -/
theorem compile_inlined (language : Language) (limits : Limits) (lookup : Text → Option Language)
    (inlinable : language.Inlinable)
    (room : 2 * language.graph.length ≤ limits.maxDepth.floorNat) :
    Agree GrammarError.SameKind ((language.compile limits lookup).map (·.statements))
      ((language.inlined.compile limits lookup).map (·.statements)) := by
  let ctx : Context := ⟨language, limits, lookup⟩
  have most : language.graph.level rootState ≤ language.graph.length := Graph.level_le _ _
  have enough : 2 * ctx.language.graph.level rootState ≤ limits.maxDepth.floorNat :=
    (Nat.mul_le_mul_left 2 most).trans room
  have root : TwinAlike (Body.ofTarget ctx limits.maxDepth.floorNat rootState 0)
      (Body.ofTarget ctx.inlined limits.maxDepth.floorNat rootState 0) :=
    whole_of_reaches inlinable .refl _ _ 0 enough enough
  have placed : TwinAlike
      (within { Site.unknown with language := some language.name }
        (Body.ofTarget ctx limits.maxDepth.floorNat rootState 0))
      (within { Site.unknown with language := some language.inlined.name }
        (Body.ofTarget ctx.inlined limits.maxDepth.floorNat rootState 0)) :=
    root.within fun _ _ same => same.within _ _
  rw [compile_statements, compile_statements]
  exact (placed [] [] Session.twin_nil).1

/-! ## Checking a language -/

/-- The conditions hold if they do of all states of the graph, and no reference names a state by an
empty name. -/
theorem inlinable_of_graph {language : Language} (acyclic : language.graph.Acyclic)
    (tidy : ∀ entry ∈ language.graph, language.graph.Tidy entry.2)
    (steady : ∀ entry ∈ language.graph, ∀ rule ∈ entry.2, ∀ ref ∈ rule.refs,
      ref.lexer = LexerRef.this →
        ref.state.getD rootState ≠ [] ∧ language.Steady (ref.state.getD rootState)) :
    language.Inlinable := by
  refine ⟨acyclic, fun state _ => ?_, fun state _ rule listed ref asked own lexer built => ?_⟩
  · cases found : Table.get? language.graph state with
    | none =>
      rw [rulesAt_of_unknown found]
      intro drawn
      rw [Graph.inline_nil] at drawn
      cases drawn
    | some rules =>
      rw [rulesAt_of_get? found]
      exact tidy (state, rules) (Table.mem_of_get? found)
  · obtain ⟨entry, held, inside⟩ := exists_of_mem_rulesAt listed
    obtain ⟨named, steady⟩ := steady entry held rule inside ref asked own
    obtain ⟨states, joined⟩ := joined_of_build built
    rwa [joined.start_eq named]

instance (graph : Graph) (rules : List Rule) : Decidable (graph.Tidy rules) :=
  decidable_of_iff
    ((graph.inline rules).any Rule.isPush = true →
      (∀ rule ∈ rules, rule.isSplice = true → ∀ target ∈ rule.target?,
        ∀ other ∈ graph.inline (rulesAt graph target),
          other.isPush = false ∧ other.isPop = false) ∧
      ((RegionRules.ofRules rules).others.isEmpty = false →
        (RegionRules.ofRules (graph.inline rules)).others.isEmpty = false))
    (by
      unfold Graph.Tidy
      refine imp_congr_right fun _ => and_congr ⟨?_, ?_⟩ ?_
      · intro each target listed
        exact each _ listed rfl target rfl
      · intro each rule listed splices target leads
        obtain ⟨target', rfl⟩ := Rule.exists_of_isSplice splices
        cases leads
        exact each target listed
      · rw [List.isEmpty_eq_false_iff, List.isEmpty_eq_false_iff])

instance (rule : Rule) : Decidable rule.Placeless :=
  decidable_of_iff
    ((∀ token ∈ rule.token?, [] ∉ token.types) ∧
      ∀ pattern ∈ rule.pattern?, Regex.refersByNumber false pattern = false)
    ⟨fun ⟨typed, unnumbered⟩ => ⟨typed, unnumbered⟩,
      fun placeless => ⟨placeless.typed, placeless.unnumbered⟩⟩

/-- A language in which a splice brings in a rule that leaves, another one stands in a region, and
the state that a group is left to splices one state in twice. -/
def folded : Language where
  name := "folded"
  aliases := []
  filenames := []
  aliasFilenames := []
  graph := [
    ("root", [
      .splice "blanks",
      .nested "<" (.literal "Open") "inner",
      .literal "(a)(=)" (.compound [.dynamic ⟨"this", some "words"⟩, .literal "Is"])]),
    ("blanks", [.literal "[ ]" (.literal "Blank")]),
    ("inner", [.splice "leave", .nested "[(]" (.literal "Enter") "pairs"]),
    ("leave", [.pop ">" (.literal "Close") (.integer 1)]),
    ("pairs", [
      .push "[(]" (.literal "Pair"),
      .splice "blanks",
      .pop "[)]" (.literal "Pair") (.integer 1)]),
    ("words", [.splice "letters", .splice "letters", .literal "!" (.literal "Mark")]),
    ("letters", [.literal "[a-c]" (.literal "Letter")])]
  sourceFile := none

theorem compile_inlined_folded :
    let limits : Limits := ⟨.integer 14, .integer 2, .integer 2⟩
    folded.Inlinable ∧ 2 * folded.graph.length ≤ limits.maxDepth.floorNat ∧
      (folded.compile limits fun _ => none).map (·.statements) = .ok [
        .rule 0 (.single "Blank" "[ ]"),
        .comment 0 "inner state", .blockStart 0 (.single "Open" "<"),
        .leave 1 (.single "Close" ">") (.integer 1),
        .comment 1 "pairs state", .blockStart 1 (.single "Enter" "[(]"),
        .comment 2 "nested pairs state", .blockStart 2 (.region "Pair" "[(]" "[)]" false),
        .rule 3 (.single "Blank" "[ ]"), .blockEnd 2, .rule 2 (.single "Blank" "[ ]"),
        .blockEnd 1, .blockEnd 0,
        .rule 0 (.groups ["Letter", "Is"] "(a)(=)")] ∧
      Agree GrammarError.SameKind ((folded.compile limits fun _ => none).map (·.statements))
        ((folded.inlined.compile limits fun _ => none).map (·.statements)) := by
  intro limits
  have acyclic : folded.graph.Acyclic := by
    apply Graph.acyclic_of_rank fun state =>
      if state = "root" then 3 else if state = "inner" ∨ state = "words" then 2
      else if state = "pairs" then 1 else 0
    decide +kernel
  have tidy : ∀ entry ∈ folded.graph, folded.graph.Tidy entry.2 := by decide +kernel
  have placeless : ∀ entry ∈ folded.graph, ∀ rule ∈ entry.2, ∀ ref ∈ rule.refs,
      ref.lexer = LexerRef.this → ref.state.getD rootState ≠ [] ∧
        ∀ rule ∈ flatten folded.graph (ref.state.getD rootState), rule.Placeless := by
    decide +kernel
  have inlinable : folded.Inlinable := by
    refine inlinable_of_graph acyclic tidy fun entry held rule listed ref asked own => ?_
    obtain ⟨named, each⟩ := placeless entry held rule listed ref asked own
    exact ⟨named, .inr each⟩
  have room : 2 * folded.graph.length ≤ limits.maxDepth.floorNat := by decide +kernel
  refine ⟨inlinable, room, ?_, compile_inlined folded limits _ inlinable room⟩
  apply eq_ok_of_toOption
  decide +kernel

/-! ## Splices that show -/

/-- Replacing the splices changes what the language compiles to, although no state leads back to
itself and there is room enough. -/
structure Traced (language : Language) : Prop where
  acyclic : language.graph.Acyclic
  room : 2 * language.graph.length < Limits.standard.maxDepth.floorNat
  differs : ¬ Agree GrammarError.SameKind
    ((language.compile .standard fun _ => none).map (·.statements))
    ((language.inlined.compile .standard fun _ => none).map (·.statements))

/-- A language with nothing but a graph. -/
def ofGraph (graph : Graph) : Language := ⟨"spliced", [], [], [], graph, none⟩

/-- The region arrives by a splice and is drawn around the rules of its own state only. -/
def arriving : Language := ofGraph [
  ("root", [.splice "pair", .literal "x" (.literal "X")]),
  ("pair", [.push "<" (.literal "T"), .pop ">" (.literal "T") (.integer 1)])]

/-- The rule that leaves arrives by a splice and is no part of the region. -/
def torn : Language := ofGraph [
  ("root", [.push "<" (.literal "T"), .splice "end"]),
  ("end", [.pop ">" (.literal "T") (.integer 1)])]

/-- The splice of a state without rules fills the region with an empty block. -/
def hollow : Language := ofGraph [
  ("root", [.push "<" (.literal "T"), .pop ">" (.literal "T") (.integer 1), .splice "none"]),
  ("none", [])]

/-- A rule without a type is named by its place, which the second splice does not move. -/
def nameless : Language := ofGraph [
  ("root", [.literal "(z)" (.compound [.dynamic ⟨"this", some "words"⟩])]),
  ("words", [.splice "letter", .splice "letter", .literal "z" (.literal "")]),
  ("letter", [.literal "a" (.literal "A")])]

/-- What a number refers to depends on how many rules there are. -/
def numbered : Language := ofGraph [
  ("root", [.literal "(z)" (.compound [.dynamic ⟨"this", some "words"⟩])]),
  ("words", [.splice "letter", .splice "letter", .literal "z\\4" (.literal "Z"),
    .literal "z" (.literal "Y")]),
  ("letter", [.literal "a" (.literal "A")])]

theorem traced_of_rank {language : Language} (rank : Text → Nat)
    (falls : ∀ entry ∈ language.graph, ∀ rule ∈ entry.2, ∀ target ∈ rule.target?,
      rank target < rank entry.1)
    (room : 2 * language.graph.length < Limits.standard.maxDepth.floorNat)
    (differs : ((language.compile .standard fun _ => none).map (·.statements)).toOption ≠
      ((language.inlined.compile .standard fun _ => none).map (·.statements)).toOption) :
    Traced language :=
  ⟨Graph.acyclic_of_rank rank falls, room, fun agree => differs agree.toOption_eq⟩

/-- Splices that move a region, that are all that fills one, or that shift the places of rules do
show. -/
theorem compile_spliced :
    Traced arriving ∧ Traced torn ∧ Traced hollow ∧ Traced nameless ∧ Traced numbered := by
  let rank (state : Text) : Nat := if state = "root" then 2 else if state = "words" then 1 else 0
  refine ⟨traced_of_rank rank ?_ ?_ ?_, traced_of_rank rank ?_ ?_ ?_, traced_of_rank rank ?_ ?_ ?_,
    traced_of_rank rank ?_ ?_ ?_, traced_of_rank rank ?_ ?_ ?_⟩
  all_goals decide +kernel

end Language

end Highlight
