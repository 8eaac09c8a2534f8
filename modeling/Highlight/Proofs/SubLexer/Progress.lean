import Highlight.Proofs.Regex.EmptyText
import Highlight.Proofs.SubLexer.GroupTypes

/-!
# Progress

A rule that matches the empty text takes part in no lexer, so that each token should take at least
one unit. The test does not see a rule that matches without taking a unit only where it stands: in
front of something it looks for, at the edge of a word, or behind a reference that reads another
group once the rules of a state are joined (`SubLexer.eludesTest`). There is no other way to a token
without text, and without such rules a stream ends after at most as many tokens as its text has
units (`SubLexer.tokens_advance`). With one, a stream need not end (`SubLexer.tokens_stand`).
-/

namespace Highlight

namespace Run

variable {run last : Run} {token : Token} {tokens : List Token} {count : Nat}

/-- A token that was taken was the next one of the run at some time. -/
theorem exists_of_mem_take (taken : run.take count = .ok (tokens, last)) (listed : token ∈ tokens) :
    ∃ before middle after, run.take before.length = .ok (before, middle) ∧
      middle.next = .ok (some (token, after)) := by
  induction count generalizing run tokens with
  | zero =>
    cases taken
    cases listed
  | succ count ih =>
    obtain ⟨_, rfl, _⟩ | ⟨first, rest, next, others, rfl⟩ := take_cases taken
    · cases listed
    · cases listed with
      | head => exact ⟨[], run, run.stepped, rfl, next⟩
      | tail _ listed =>
        obtain ⟨before, middle, after, reached, next'⟩ := ih others listed
        refine ⟨first :: before, middle, after, ?_, next'⟩
        rw [List.length_cons, take_next next, reached]
        rfl

/-- A run that stands where it stood gives the same token for ever. -/
theorem take_standing (stands : run.next = .ok (some (token, run))) (count : Nat) :
    run.take count = .ok (List.replicate count token, run) := by
  induction count with
  | zero => rfl
  | succ count ih =>
    rw [take_next stands, ih]
    rfl

end Run

namespace SubLexer

variable {language : Language} {start state pattern : Text} {lexer : SubLexer}
  {active : ActiveRule} {states : Table Text (List LexRule)}

/-- The test on the empty text may keep a rule that matches without taking a unit. Either the
pattern refers to a group by number, which is another group once the rules of a state are joined, or
its expression may rest where something holds that does not hold on the empty text. -/
def eludesTest (pattern : Text) : Bool :=
  Regex.refersByNumber false pattern ||
    (Regex.read? (Regex.withoutCaptures (Regex.hostSource pattern))).any fun e =>
      e.mayRest && e.asksAround && !e.matchesEmpty

/-- An expression of a rule that is tried and that may rest is one that eludes the test. -/
theorem eludesTest_of_mayRest {e : Regex}
    (read : Regex.read? (Regex.withoutCaptures (Regex.hostSource pattern)) = some e)
    (rests : e.mayRest = true) (busy : e.matchesEmpty = false) : eludesTest pattern = true := by
  have asks : e.asksAround = true := by
    rw [Regex.matchesEmpty_eq] at busy
    by_contra quiet
    have idle := Regex.idle_of_mayRest rests (Bool.eq_false_iff.2 quiet)
    exact absurd (idle.symm.trans busy) nofun
  rw [eludesTest, read, Option.any_some, rests, asks, busy]
  exact Bool.or_true _

/-- Of the rules that take part, only those that elude the test match without taking a unit. -/
theorem eludesTest_of_rests (joined : Joined language start lexer states)
    (listed : active ∈ lexer.rulesOf state) {text : Array CodeUnit} {place : Nat}
    {found : Regex.State} (inside : place ≤ text.size)
    (matched : active.expression.matchAt true text place = some found)
    (rests : found.position = place) :
    ∃ rule pattern, (flatten language.graph state)[active.rule.index]? = some rule ∧
      rule.pattern? = some pattern ∧ eludesTest pattern = true := by
  obtain ⟨rules, held, same⟩ := joined.rulesOf_eq (mem_keys_of_rulesOf listed)
  have listed' := listed
  rw [same] at listed'
  obtain ⟨ready, stands, rfl⟩ := List.mem_map.1 listed'
  have compiled := (joined.compiled _ (mem_enterable.1 held).1).2
  obtain ⟨rule, pattern, own, spelled, made⟩ := exists_of_compileState compiled stands
  refine ⟨rule, pattern, own, spelled, ?_⟩
  by_cases numbered : Regex.refersByNumber false pattern = true
  · rw [eludesTest, numbered, Bool.true_or]
  · have runs := joined.runs_of_index listed own spelled (Bool.eq_false_iff.2 numbered)
    have stops := runs.stop text place
    rw [matched, Option.map_some] at stops
    obtain ⟨e, read, ends⟩ := exists_of_stop? spelled stops.symm
    rw [stop?_eq spelled read] at stops
    split at stops
    · cases stops
    · rename_i busy
      refine eludesTest_of_mayRest read ?_ (Bool.eq_false_iff.2 busy)
      by_contra takes
      obtain ⟨last, matched', ends⟩ := Option.map_eq_some_iff.1 ends
      have := Regex.matchAt_moves (Bool.eq_false_iff.2 takes) inside matched'
      omega

/-- A token without text is taken by a rule that eludes the test. -/
theorem eludesTest_of_textless (built : build language start = .ok lexer) {text : Text}
    {count : Nat} {tokens : List Token} {last : Run} {token : Token}
    (taken : (Run.start lexer text).take count = .ok (tokens, last)) (listed : token ∈ tokens)
    (textless : token.text = []) :
    ∃ rule pattern, TakenBy language lexer text rule token ∧ rule.pattern? = some pattern ∧
      eludesTest pattern = true := by
  obtain ⟨states, joined⟩ := joined_of_build built
  obtain ⟨before, run, after, reached, next⟩ := Run.exists_of_mem_take taken listed
  obtain ⟨-, inside, same, rfl⟩ := take_start_tiles reached
  obtain ⟨left, rfl, -⟩ := Run.next_eq_some next
  cases first : firstMatch (run.lexer.rulesOf run.machine.state) run.text run.machine.position with
  | none =>
    rw [step, first] at textless
    have length := length_slice (Nat.le_of_lt left) (Nat.le_refl run.text.size)
    rw [show slice run.text run.machine.position run.text.size = [] from textless] at length
    rw [List.length_nil] at length
    omega
  | some chosen =>
    obtain ⟨ready, stop⟩ := chosen
    obtain ⟨forward, within⟩ := firstMatch_ahead (Nat.le_of_lt left) first
    obtain ⟨active, listed, chosen⟩ := List.exists_of_findSome?_eq_some first
    obtain ⟨found, matched, ends⟩ := Option.map_eq_some_iff.1 chosen
    obtain ⟨rfl, rfl⟩ := Prod.mk.inj ends
    have rests : found.position = run.machine.position := by
      rw [step, first] at textless
      have length := length_slice forward within
      rw [show slice run.text run.machine.position found.position = [] from textless] at length
      rw [List.length_nil] at length
      omega
    obtain ⟨rule, pattern, own, spelled, eludes⟩ :=
      eludesTest_of_rests joined listed (Nat.le_of_lt left) matched rests
    exact ⟨rule, pattern, .step reached next first own, spelled, eludes⟩

theorem length_le_join {tokens : List Token} (texts : ∀ token ∈ tokens, token.text ≠ []) :
    tokens.length ≤ (Token.join tokens).length := by
  induction tokens with
  | nil => exact Nat.le_refl 0
  | cons token tokens ih =>
    have first := List.length_pos_iff.2 (texts token List.mem_cons_self)
    have rest := ih fun token listed => texts token (List.mem_cons_of_mem _ listed)
    rw [Token.join, List.flatMap_cons, List.length_append, List.length_cons]
    rw [Token.join] at rest
    omega

/-- A lexer makes progress, but for rules that elude the test on the empty text: no other rule takes
part that can match without taking a unit, no other one takes a token without text, and where there
are none the stream of each text ends after at most as many tokens as the text has units. -/
theorem tokens_advance (built : build language start = .ok lexer) :
    (∀ state, ∀ active ∈ lexer.rulesOf state, ∀ text place found, place ≤ text.size →
      active.expression.matchAt true text place = some found → found.position = place →
      ∃ rule pattern, (flatten language.graph state)[active.rule.index]? = some rule ∧
        rule.pattern? = some pattern ∧ eludesTest pattern = true) ∧
    ∀ text count, (lexer.start ≠ [] → ∃ tokens last,
        (Run.start lexer text).take count = .ok (tokens, last)) ∧
      ∀ tokens last, (Run.start lexer text).take count = .ok (tokens, last) →
        (∀ token ∈ tokens, token.text = [] → ∃ rule pattern,
          TakenBy language lexer text rule token ∧ rule.pattern? = some pattern ∧
            eludesTest pattern = true) ∧
        ((∀ entry ∈ language.graph, ∀ rule ∈ entry.2, ∀ pattern ∈ rule.pattern?,
            eludesTest pattern = false) →
          (∀ token ∈ tokens, token.text ≠ []) ∧ tokens.length ≤ text.length ∧
            (text.length ≤ count → last.next = .ok none)) := by
  obtain ⟨states, joined⟩ := joined_of_build built
  refine ⟨fun state active listed text place found => eludesTest_of_rests joined listed, ?_⟩
  intro text count
  constructor
  · intro named
    apply Run.take_total (build_named built)
    exact ⟨named, nofun⟩
  intro tokens last taken
  refine ⟨fun token => eludesTest_of_textless built taken, fun plain => ?_⟩
  have texts : ∀ token ∈ tokens, token.text ≠ [] := by
    intro token listed textless
    obtain ⟨rule, pattern, ⟨-, -, -, own⟩, spelled, eludes⟩ :=
      eludesTest_of_textless built taken listed textless
    obtain ⟨-, held, inside, stands⟩ := mem_flatten (List.mem_of_getElem? own)
    exact absurd (eludes.symm.trans (plain held inside rule stands pattern spelled)) nofun
  obtain ⟨-, inside, same, -⟩ := take_start_tiles taken
  have covered := position_eq taken
  have fewer := length_le_join texts
  refine ⟨texts, by omega, fun enough => ?_⟩
  by_cases short : tokens.length < count
  · exact Run.take_short taken short
  · apply Run.next_ended
    rw [same, List.size_toArray]
    omega

/-- A language with rules at the edges of words and lines, in front of something and after it, and
with two that match the empty text. -/
def edges : Language where
  name := "edges"
  aliases := []
  filenames := []
  aliasFilenames := []
  graph := [
    ("root", [
      .literal "\\bif\\b" (.literal "Key"),
      .literal "x*" (.literal "Never"),
      .literal "$|(?!a)" (.literal "Never"),
      .nested "<(?=a)" (.literal "Open") "inner",
      .literal "[a-z]+" (.dynamic ⟨"this", none⟩)]),
    ("inner", [
      .push "(a)(?:b)?" (.compound [.literal "A"]),
      .pop "(?<=a)>|^>" (.literal "Close") (.integer 1)])]
  sourceFile := none

theorem tokens_advance_edges : ∃ lexer last, build edges "root" = .ok lexer ∧
    (∀ entry ∈ edges.graph, ∀ rule ∈ entry.2, ∀ pattern ∈ rule.pattern?,
      eludesTest pattern = false) ∧
    (Run.start lexer "if<aa>>ifs ?").take 12 = .ok ([⟨"Key", "if", 0⟩, ⟨"Open", "<", 2⟩,
      ⟨"A", "a", 3⟩, ⟨"A", "a", 4⟩, ⟨"Close", ">", 5⟩, ⟨.error, ">ifs ?", 6⟩], last) ∧
    last.next = .ok none := by
  have plain : ∀ entry ∈ edges.graph, ∀ rule ∈ entry.2, ∀ pattern ∈ rule.pattern?,
      eludesTest pattern = false := by
    decide +kernel
  have run : (build edges "root").toOption.bind (fun lexer =>
      (lexer.tokens "if<aa>>ifs ?" 12).toOption) = some [⟨"Key", "if", 0⟩, ⟨"Open", "<", 2⟩,
        ⟨"A", "a", 3⟩, ⟨"A", "a", 4⟩, ⟨"Close", ">", 5⟩, ⟨.error, ">ifs ?", 6⟩] := by
    decide +kernel
  obtain ⟨lexer, built, taken⟩ := Option.bind_eq_some_iff.1 run
  have built := eq_ok_of_toOption built
  obtain ⟨⟨tokens, last⟩, taken, rfl⟩ := except_map_eq_ok_iff.1 (eq_ok_of_toOption taken)
  have advance := ((tokens_advance built).2 "if<aa>>ifs ?" 12).2 _ last taken
  exact ⟨lexer, last, built, plain, taken, (advance.2 plain).2.2 (by decide)⟩

/-- A language of one rule. -/
def single (pattern : Text) : Language where
  name := "single"
  aliases := []
  filenames := []
  aliasFilenames := []
  graph := [("root", [.literal pattern (.literal "T")])]
  sourceFile := none

/-- The one rule of a language gives tokens without text as long as it is asked. -/
def Stands (pattern text : Text) : Prop :=
  ∃ lexer, build (single pattern) "root" = .ok lexer ∧ ∀ count,
    (Run.start lexer text).take count =
      .ok (List.replicate count ⟨"T", [], 0⟩, Run.start lexer text)

theorem stands_of_next {pattern text : Text}
    (next : ((build (single pattern) "root").toOption.bind fun lexer =>
      (lexer.next text.toArray lexer.initial).toOption.join.map fun found =>
        (found.1, decide (found.2 = lexer.initial))) = some (⟨"T", [], 0⟩, true)) :
    Stands pattern text := by
  obtain ⟨lexer, built, next⟩ := Option.bind_eq_some_iff.1 next
  obtain ⟨⟨token, machine⟩, next, same⟩ := Option.map_eq_some_iff.1 next
  obtain ⟨rfl, still⟩ := Prod.mk.inj same
  have still : machine = lexer.initial := of_decide_eq_true still
  refine ⟨lexer, eq_ok_of_toOption built, Run.take_standing ?_⟩
  rw [Run.next]
  dsimp only [Run.start]
  rw [eq_ok_of_toOption (Option.join_eq_some_iff.1 next), still]
  rfl

/-- A lookahead, the edge of a word and a reference by number, each of which holds at the start of a
text and not on the empty one: the stream of a single unit never ends. -/
theorem tokens_stand : Stands "(?=a)" "a" ∧ Stands "\\b" "a" ∧ Stands "\\1" "a" := by
  refine ⟨?_, ?_, ?_⟩
  · exact stands_of_next (by decide +kernel)
  · exact stands_of_next (by decide +kernel)
  · exact stands_of_next (by decide +kernel)

end SubLexer

end Highlight
