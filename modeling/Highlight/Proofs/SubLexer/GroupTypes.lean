import Highlight.Proofs.Dialect.GroupNumbers
import Highlight.Proofs.Regex.Stretch
import Highlight.Proofs.Regex.WithoutCaptures
import Highlight.Proofs.SubLexer.Lossless
import Highlight.Proofs.SubLexer.Pushdown

/-!
# Tokens by groups

A rule with one item for each top-level group names a token by the first group that took part in
its match. The lexer does not know that match: it matches the expression once more, against the text
of the token alone, and takes its items for the groups of the first numbers. Where the groups are
numbered in the order of the top-level groups, and the expression takes the text unit by unit, this
gives the type that the match in the text gives (`SubLexer.TakenBy.type_eq_boundType`). A group
within another shifts the pairing, and anchors and lookarounds miss what stands around the token
(`SubLexer.type_ne_boundType`).
-/

namespace Highlight

namespace SubLexer

variable {language : Language} {start state pattern : Text} {lexer : SubLexer} {rule : Rule}
  {states : Table Text (List LexRule)} {active : ActiveRule} {items : List TokenSpec}
  {found found' : Regex.State}

/-! ## The type that a match gives -/

/-- The group of an item took part, given the item with the number of its group. -/
def tookPart (found : Regex.State) (bound : TokenSpec × Option Nat) : Bool :=
  bound.2.any fun index => (found.span? index).isSome

/-- The type bound to the first group that took part in a match. It is that of plain text if the
item is no literal, or if no group took part. -/
def boundType (found : Regex.State) (bound : List (TokenSpec × Option Nat)) : TokenType :=
  match bound.find? (tookPart found) with
  | some (.literal token, _) => token
  | _ => .text

/-- The items go through the groups by number. -/
theorem ofGroups_eq_boundType (found : Regex.State) (index : Nat) (items : List TokenSpec) :
    Naming.ofGroups found index items =
      boundType found (items.zip ((List.range' index items.length).map some)) := by
  induction items generalizing index with
  | nil => rfl
  | cons item items ih =>
    have part : tookPart found (item, some index) = (found.span? index).isSome := rfl
    unfold Naming.ofGroups boundType
    rw [List.length_cons, List.range'_succ, List.map_cons, List.zip_cons_cons, List.find?_cons, part]
    cases found.span? index with
    | none => exact ih (index + 1)
    | some span => cases item <;> rfl

/-- Only which groups took part counts. -/
theorem boundType_congr (same : ∀ index, (found.span? index).isSome = (found'.span? index).isSome)
    (bound : List (TokenSpec × Option Nat)) : boundType found bound = boundType found' bound := by
  have parts : tookPart found = tookPart found' := by
    funext bound
    unfold tookPart
    simp only [same]
  unfold boundType
  rw [parts]

/-! ## The rule that takes a token -/

/-- At some step of the run over a text a rule takes the token off: among the rules of the state,
splices expanded, it is the first one that matches where the run stands. -/
inductive TakenBy (language : Language) (lexer : SubLexer) (text : Text) (rule : Rule)
    (token : Token) : Prop where
  | step {count : Nat} {tokens : List Token} {run after : Run} {ready : LexRule} {stop : Nat}
    (reached : (Run.start lexer text).take count = .ok (tokens, run))
    (next : run.next = .ok (some (token, after)))
    (first : firstMatch (lexer.rulesOf run.machine.state) run.text run.machine.position =
      some (ready, stop))
    (own : (flatten language.graph run.machine.state)[ready.index]? = some rule)

/-- The token that a lexer of a language gives after `count` others, with the state of the rule that
takes it and its index there. -/
def takenAfter? (language : Language) (start text : Text) (count : Nat) :
    Option (Token × Text × Nat) := do
  let lexer ← (build language start).toOption
  let (_, run) ← ((Run.start lexer text).take count).toOption
  let (token, _) ← run.next.toOption.join
  let (ready, _) ← firstMatch (lexer.rulesOf run.machine.state) run.text run.machine.position
  some (token, run.machine.state, ready.index)

theorem takenBy_of_takenAfter? {text : Text} {count index : Nat} {token : Token} (rule : Rule)
    (taken : takenAfter? language start text count = some (token, state, index))
    (own : (flatten language.graph state)[index]? = some rule) :
    ∃ lexer, build language start = .ok lexer ∧ TakenBy language lexer text rule token := by
  obtain ⟨lexer, built, taken⟩ := Option.bind_eq_some_iff.1 taken
  obtain ⟨⟨tokens, run⟩, reached, taken⟩ := Option.bind_eq_some_iff.1 taken
  obtain ⟨⟨token', after⟩, next, taken⟩ := Option.bind_eq_some_iff.1 taken
  obtain ⟨⟨ready, stop⟩, first, same⟩ := Option.bind_eq_some_iff.1 taken
  have same := Option.some.inj same
  obtain ⟨rfl, place⟩ := Prod.mk.inj same
  obtain ⟨rfl, rfl⟩ := Prod.mk.inj place
  have next := Option.join_eq_some_iff.1 next
  exact ⟨lexer, eq_ok_of_toOption built,
    .step (eq_ok_of_toOption reached) (eq_ok_of_toOption next) first own⟩

theorem mem_keys_of_rulesOf (listed : active ∈ lexer.rulesOf state) :
    state ∈ Table.keys lexer.states := by
  refine Classical.byContradiction fun absent => ?_
  rw [rulesOf, Table.get?_eq_none_iff.2 absent] at listed
  cases listed

/-- A rule of a lexer stands for the rule of the language at its index. -/
theorem Joined.runs_of_index (joined : Joined language start lexer states)
    (listed : active ∈ lexer.rulesOf state)
    (own : (flatten language.graph state)[active.rule.index]? = some rule)
    (spelled : rule.pattern? = some pattern) (unnumbered : Regex.Unnumbered false pattern) :
    Runs state rule active := by
  obtain ⟨rules, inside, same⟩ := joined.rulesOf_eq (mem_keys_of_rulesOf listed)
  rw [same] at listed
  obtain ⟨ready, stands, rfl⟩ := List.mem_map.1 listed
  have compiled := (joined.compiled _ (mem_enterable.1 inside).1).2
  obtain ⟨rule', pattern', own', spelled', made⟩ := exists_of_compileState compiled stands
  obtain rfl := Option.some.inj (own.symm.trans own')
  obtain rfl := Option.some.inj (spelled.symm.trans spelled')
  exact runs_of_compileRule spelled unnumbered made (joined.groupNames_eq inside stands) _

theorem stretch_slice {text : Array CodeUnit} {first last : Nat} (forward : first ≤ last)
    (inside : last ≤ text.size) : Regex.Stretch text (slice text first last).toArray first := by
  have size : (slice text first last).toArray.size = last - first := by
    rw [List.size_toArray, length_slice forward inside]
  refine ⟨by omega, fun place within => ?_⟩
  rw [size] at within
  rw [← Array.getElem?_toList, List.getElem?_toArray, slice_eq, List.getElem?_take_of_lt within,
    List.getElem?_drop]

theorem exists_of_stop? {text : Array CodeUnit} {place stop : Nat}
    (spelled : rule.pattern? = some pattern) (stops : Pushdown.stop? rule text place = some stop) :
    ∃ e, Regex.read? (Regex.withoutCaptures (Regex.hostSource pattern)) = some e ∧
      (e.matchAt true text place).map (·.position) = some stop := by
  cases read : Regex.read? (Regex.withoutCaptures (Regex.hostSource pattern)) with
  | none =>
    unfold Pushdown.stop? at stops
    rw [spelled, Option.bind_eq_bind, Option.bind_some, read] at stops
    cases stops
  | some e =>
    rw [stop?_eq spelled read] at stops
    split at stops
    · cases stops
    · exact ⟨e, rfl, stops⟩

/-- What a rule takes off is where the rule matches alone, and it names it as it is compiled to. -/
theorem TakenBy.stops (built : build language start = .ok lexer)
    (spelled : rule.pattern? = some pattern) (unnumbered : Regex.Unnumbered false pattern)
    {text : Text} {token : Token} (taken : TakenBy language lexer text rule token) :
    (∃ ready, namingOf? pattern rule.token? = some ready.naming ∧
      token = tokenOf ready token.text token.offset) ∧
    Pushdown.stop? rule text.toArray token.offset = some (token.offset + token.text.length) ∧
    Regex.Stretch text.toArray token.text.toArray token.offset := by
  obtain ⟨states, joined⟩ := joined_of_build built
  obtain @⟨count, tokens, run, after, ready, stop, reached, next, first, own⟩ := taken
  obtain ⟨-, inside, same, rfl⟩ := take_start_tiles reached
  obtain ⟨-, rfl, -⟩ := Run.next_eq_some next
  obtain ⟨forward, within⟩ := firstMatch_ahead (by simpa [same] using inside) first
  obtain ⟨active, listed, matched⟩ := List.exists_of_findSome?_eq_some first
  obtain ⟨last, found, ends⟩ := Option.map_eq_some_iff.1 matched
  obtain ⟨rfl, rfl⟩ := Prod.mk.inj ends
  have runs := joined.runs_of_index listed own spelled unnumbered
  have stops := runs.stop run.text run.machine.position
  have naming := runs.naming
  rw [found, Option.map_some] at stops
  rw [spelled, Option.bind_some] at naming
  rw [SubLexer.step, first, ← same]
  refine ⟨⟨active.rule, naming, rfl⟩, ?_, stretch_slice forward within⟩
  dsimp only [tokenOf]
  rw [length_slice forward within, Nat.add_sub_cancel' forward, ← stops]

/-- The type of a token that a rule with one item for each group takes is the one bound to the first
group that took part in the match of its expression where the token stands, unless that type is
empty. -/
theorem TakenBy.type_eq_boundType (built : build language start = .ok lexer)
    (spelled : rule.pattern? = some pattern) (listed : rule.token? = some (.compound items))
    (counted : items.length = (Dialect.topLevelGroups pattern).length)
    (inOrder : Dialect.NumberedInOrder pattern) {e : Regex}
    (read : Regex.read? (Regex.hostSource pattern) = some e) (units : e.byUnits = true)
    (unnumbered : Regex.Unnumbered false pattern) {text : Text} {token : Token}
    (taken : TakenBy language lexer text rule token) :
    ∃ found, e.matchAt true text.toArray token.offset = some found ∧
      found.position = token.offset + token.text.length ∧
      (boundType found (items.zip (Dialect.topLevelNumbers pattern)) ≠ [] →
        token.type = boundType found (items.zip (Dialect.topLevelNumbers pattern))) := by
  obtain ⟨⟨ready, naming, whole⟩, stops, stretch⟩ := taken.stops built spelled unnumbered
  obtain ⟨bare, read', place⟩ := exists_of_stop? spelled stops
  have uncaptured := Regex.read?_withoutCaptures read read' (Regex.refersBack_of_byUnits units)
  have place' : (e.matchAt true text.toArray token.offset).map (·.position) =
      some (token.offset + token.text.length) := (uncaptured.matchAt_place _).trans place
  obtain ⟨found, matched, ends⟩ := Option.map_eq_some_iff.1 place'
  refine ⟨found, matched, ends, fun named => ?_⟩
  obtain ⟨alone, matched', rfl⟩ := stretch.matchAt_alone units matched (by simpa using ends) false
  rw [inOrder, ← counted] at named ⊢
  rw [listed, namingOf?, read, Option.map_some] at naming
  have type : ready.naming.token token.text =
      boundType (alone.shift token.offset) (items.zip ((List.range' 1 items.length).map some)) := by
    rw [← Option.some.inj naming, Naming.token, matched']
    dsimp only
    rw [ofGroups_eq_boundType]
    exact boundType_congr (fun index => (alone.isSome_span?_shift _ index).symm) _
  rw [whole, tokenOf]
  dsimp only
  rw [type, if_neg (by simpa using named)]

/-- A language with a rule that names its tokens by groups, behind one for blanks. -/
def grouped (pattern : Text) (items : List TokenSpec) : Language where
  name := "grouped"
  aliases := []
  filenames := []
  aliasFilenames := []
  graph := [("root", [.literal " +" (.literal "Blank"), .literal pattern (.compound items)])]
  sourceFile := none

/-- A named group next to one with another group in it. -/
def wordGroups : Text := "(?P<word>if|in)|([a-z]+(-x)?)"

/-- What the two groups of words are bound to. -/
def wordItems : List TokenSpec := [.literal "Word", .dynamic ⟨"this", none⟩]

theorem TakenBy.type_eq_boundType_words : ∃ lexer e found,
    build (grouped wordGroups wordItems) "root" = .ok lexer ∧
    TakenBy (grouped wordGroups wordItems) lexer "a-x in"
      (.literal wordGroups (.compound wordItems)) ⟨"Word", "in", 4⟩ ∧
    wordItems.length = (Dialect.topLevelGroups wordGroups).length ∧
    Dialect.NumberedInOrder wordGroups ∧ Regex.Unnumbered false wordGroups ∧
    Regex.read? (Regex.hostSource wordGroups) = some e ∧ e.byUnits = true ∧
    e.matchAt true (Text.ofString "a-x in").toArray 4 = some found ∧ found.position = 4 + 2 ∧
    "Word" = boundType found (wordItems.zip (Dialect.topLevelNumbers wordGroups)) := by
  have run : takenAfter? (grouped wordGroups wordItems) "root" "a-x in" 2 =
      some (⟨"Word", "in", 4⟩, Text.ofString "root", 1) := by
    decide +kernel
  have counted : wordItems.length = (Dialect.topLevelGroups wordGroups).length := by
    decide +kernel
  have inOrder : Dialect.NumberedInOrder wordGroups := by decide +kernel
  have unnumbered : Regex.Unnumbered false wordGroups := by
    show Regex.refersByNumber false wordGroups = false
    decide +kernel
  have expression : ((Regex.read? (Regex.hostSource wordGroups)).map fun e => (e.byUnits,
      (e.matchAt true (Text.ofString "a-x in").toArray 4).map fun found =>
        boundType found (wordItems.zip (Dialect.topLevelNumbers wordGroups)))) =
      some (true, some (Text.ofString "Word")) := by
    decide +kernel
  obtain ⟨lexer, built, taken⟩ :=
    takenBy_of_takenAfter? (.literal wordGroups (.compound wordItems)) run rfl
  obtain ⟨e, read, parts⟩ := Option.map_eq_some_iff.1 expression
  obtain ⟨units, bound⟩ := Prod.mk.inj parts
  obtain ⟨found, matched, ends, type⟩ := TakenBy.type_eq_boundType built rfl rfl counted inOrder
    read units unnumbered taken
  rw [matched, Option.map_some] at bound
  have named : boundType found (wordItems.zip (Dialect.topLevelNumbers wordGroups)) ≠ [] := by
    rw [Option.some.inj bound]
    exact List.cons_ne_nil _ _
  exact ⟨lexer, e, found, built, taken, counted, inOrder, unnumbered, read, units, matched, ends,
    type named⟩

/-- Two groups bound to two letters. -/
def letterItems : List TokenSpec := [.literal "X", .literal "Y"]

/-- A token that a rule with two top-level groups takes, though the match where the token stands
binds another type. -/
def Mistyped (pattern text : Text) (token : Token) (type : TokenType) : Prop :=
  ∃ lexer e found, build (grouped pattern letterItems) "root" = .ok lexer ∧
    TakenBy (grouped pattern letterItems) lexer text (.literal pattern (.compound letterItems))
      token ∧
    letterItems.length = (Dialect.topLevelGroups pattern).length ∧
    none ∉ Dialect.topLevelNumbers pattern ∧ Regex.read? (Regex.hostSource pattern) = some e ∧
    e.matchAt true text.toArray token.offset = some found ∧
    boundType found (letterItems.zip (Dialect.topLevelNumbers pattern)) = type ∧ token.type ≠ type

theorem mistyped_of_run {pattern text : Text} {token : Token} {type : TokenType}
    (run : takenAfter? (grouped pattern letterItems) "root" text 0 =
      some (token, Text.ofString "root", 1))
    (counted : letterItems.length = (Dialect.topLevelGroups pattern).length)
    (capture : none ∉ Dialect.topLevelNumbers pattern)
    (bound : ((Regex.read? (Regex.hostSource pattern)).bind fun e =>
      (e.matchAt true text.toArray token.offset).map fun found =>
        boundType found (letterItems.zip (Dialect.topLevelNumbers pattern))) = some type)
    (other : token.type ≠ type) : Mistyped pattern text token type := by
  obtain ⟨lexer, built, taken⟩ :=
    takenBy_of_takenAfter? (.literal pattern (.compound letterItems)) run rfl
  obtain ⟨e, read, matched⟩ := Option.bind_eq_some_iff.1 bound
  obtain ⟨found, matched, type⟩ := Option.map_eq_some_iff.1 matched
  exact ⟨lexer, e, found, built, taken, counted, capture, read, matched, type, other⟩

/-- A group that lies in another takes the item of the next one. A line that goes on behind the token
ends with it when the token is matched alone, and what has to stand behind it is not there. -/
theorem type_ne_boundType :
    Mistyped "((a)b)?(c)" "c" ⟨.text, "c", 0⟩ "Y" ∧
    Mistyped "(a$)|(a)" "ab" ⟨"X", "a", 0⟩ "Y" ∧
    Mistyped "(b)|(a(?=b))" "ab" ⟨.text, "a", 0⟩ "Y" := by
  refine ⟨?_, ?_, ?_⟩
  · exact mistyped_of_run (by decide +kernel) (by decide +kernel) (by decide +kernel)
      (by decide +kernel) (by decide +kernel)
  · exact mistyped_of_run (by decide +kernel) (by decide +kernel) (by decide +kernel)
      (by decide +kernel) (by decide +kernel)
  · exact mistyped_of_run (by decide +kernel) (by decide +kernel) (by decide +kernel)
      (by decide +kernel) (by decide +kernel)

end SubLexer

end Highlight
