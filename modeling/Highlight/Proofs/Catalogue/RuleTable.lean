import Highlight.Catalogue.Entry
import Highlight.Proofs.Document.Values
import Highlight.Proofs.Outcome
import Highlight.Proofs.Table

/-!
# The table of rules

What a document stands for where a token or a rule is asked for, as relations with one case for each
row of the table. The readers follow the table: `Entry.readToken` and `Entry.readRule` give a token
or a rule just if the document describes it (`Entry.readToken_eq_ok_iff`,
`Entry.readRule_eq_ok_iff`), wherever the document stands. So a document describes at most one of
them, and the conditions of a row say which others go before it. A language is loaded just from an
object that describes it in all its fields (`Language.ofDocument_eq_ok_iff`).
-/

namespace Highlight

namespace Document

/-- What a document stands for as a token. -/
inductive DescribesToken : Document → TokenSpec → Prop where
  | literal (token : TokenType) : DescribesToken (text token) (.literal token)
  /-- A list of groups goes before anything else that an object holds. -/
  | compound {fields : Table Text Document} {items : List Document} {tokens : List TokenSpec}
    (groups : Table.get? fields "bygroups" = some (list items))
    (each : List.Forall₂ DescribesToken items tokens) :
    DescribesToken (object fields) (.compound tokens)
  | dynamic {fields : Table Text Document} {ref : LexerRef}
    (single : ∀ items, Table.get? fields "bygroups" ≠ some (list items))
    (lexer : Table.get? fields "using" = some (text ref.lexer))
    (state : Table.get? fields "state" = ref.state.map text) :
    DescribesToken (object fields) (.dynamic ref)

/-- The rule that a word for an action makes of a pattern and a token. -/
inductive ActionMakes (pattern : Text) (token : TokenSpec) : Text → Rule → Prop where
  | push : ActionMakes pattern token "#push" (.push pattern token)
  | pop : ActionMakes pattern token "#pop" (.pop pattern token (.ofNat 1))
  | popMany {digits : Text} (filled : digits ≠ []) (decimal : ∀ u ∈ digits, u.isDigit = true) :
    ActionMakes pattern token ("#pop:" ++ digits) (.pop pattern token (.ofNat (Text.decimal digits)))
  /-- The other words start with a number sign, so the name of a state to enter does not. -/
  | nested {target : Text} (plain : ¬ (Text.ofString "#") <+: target) :
    ActionMakes pattern token target (.nested pattern token target)

/-- What a document stands for as a rule. -/
inductive DescribesRule : Document → Rule → Prop where
  | target (target : Text) : DescribesRule (text target) (.splice target)
  /-- A state to include goes before a state to enter. -/
  | included {fields : Table Text Document} {target : Text}
    (included : Table.get? fields "include" = some (text target)) :
    DescribesRule (object fields) (.splice target)
  | entered {fields : Table Text Document} {target : Text}
    (stays : ∀ other, Table.get? fields "include" ≠ some (text other))
    (entered : Table.get? fields "default" = some (text target)) :
    DescribesRule (object fields) (.nested [] (.literal .text) target)
  | literal {pattern : Text} {raw : Document} {token : TokenSpec}
    (named : raw.DescribesToken token) :
    DescribesRule (list [text pattern, raw]) (.literal pattern token)
  | acting {pattern action : Text} {raw : Document} {token : TokenSpec} {rule : Rule}
    (named : raw.DescribesToken token) (makes : ActionMakes pattern token action rule) :
    DescribesRule (list [text pattern, raw, text action]) rule

/-- The states of an entry and a graph with the same states in the same order, each with one rule
for each item of its list, in order. -/
def DescribesGraph (states : Table Text Document) (graph : Graph) : Prop :=
  List.Forall₂ (fun state entry => entry.1 = state.1 ∧ ∃ items, state.2 = list items ∧
    List.Forall₂ DescribesRule items entry.2) states graph

end Document

namespace Entry

variable {place : Text} {fields : Table Text Document} {raw : Document}

/-! ## Tokens -/

theorem groupItems?_eq_some_iff {items : List Document} : groupItems? fields = some items ↔
    Table.get? fields "bygroups" = some (.list items) := by
  simp only [groupItems?, field?, Option.bind_eq_some_iff, Document.items?_eq_some_iff,
    exists_eq_right]

theorem groupItems?_cons (key : Text) (value : Document) (rest : Table Text Document) :
    groupItems? ((key, value) :: rest) =
      if key = Text.ofString "bygroups" then value.items? else groupItems? rest := by
  rw [groupItems?, field?, Table.get?]
  split <;> rfl

theorem lexerRef?_eq_some_iff {ref : LexerRef} : lexerRef? fields = some ref ↔
    Table.get? fields "using" = some (.text ref.lexer) ∧
      Table.get? fields "state" = ref.state.map .text := by
  obtain ⟨lexer, state⟩ := ref
  rw [lexerRef?, field?, field?]
  constructor
  · intro found
    split at found
    · next called start =>
      cases found
      exact ⟨called, start⟩
    · next called start =>
      cases found
      exact ⟨called, start⟩
    · cases found
  · rintro ⟨called, start⟩
    rw [called, start]
    cases state <;> rfl

-- The readers of a token, of the fields around its groups and of the groups call each other, so the
-- three statements are proved at once, by the recursion of the readers.

mutual

/-- A token is read of a document just if the document describes it. -/
theorem readToken_eq_ok_iff (place : Text) (raw : Document) (token : TokenSpec) :
    readToken place raw = .ok token ↔ raw.DescribesToken token := by
  cases raw with
  | text t =>
    rw [readToken]
    exact ⟨fun read => by cases read; exact .literal t, fun described => by cases described; rfl⟩
  | object fields =>
    rw [readToken]
    obtain ⟨none, unread⟩ | ⟨items, read, listed, reads, iff⟩ := readGroups_cases place fields
    · have single (items : List Document) : Table.get? fields "bygroups" ≠ some (.list items) := by
        rw [Ne, ← groupItems?_eq_some_iff, none]
        nofun
      rw [unread]
      dsimp only
      constructor
      · intro read
        split at read
        · next ref found =>
          cases read
          obtain ⟨called, start⟩ := lexerRef?_eq_some_iff.1 found
          exact .dynamic single called start
        · cases read
      · intro described
        cases described with
        | compound groups each => exact absurd groups (single _)
        | dynamic _ called start => rw [lexerRef?_eq_some_iff.2 ⟨called, start⟩]
    · have groups := groupItems?_eq_some_iff.1 listed
      rw [reads]
      dsimp only
      rw [except_map_eq_ok_iff]
      constructor
      · rintro ⟨tokens, made, rfl⟩
        exact .compound groups ((iff tokens).1 made)
      · intro described
        cases described with
        | compound groups' each =>
          rw [groups] at groups'
          cases groups'
          exact ⟨_, (iff _).2 each, rfl⟩
        | dynamic single => exact absurd groups (single _)
  | null | bool | number | list =>
    unfold readToken
    exact ⟨nofun, nofun⟩

/-- The groups are read of the list that an object holds for them, if it does. -/
theorem readGroups_cases (place : Text) (fields : List (Text × Document)) :
    (groupItems? fields = none ∧ readGroups place fields = none) ∨
    ∃ items read, groupItems? fields = some items ∧ readGroups place fields = some read ∧
      ∀ tokens, read = .ok tokens ↔ List.Forall₂ Document.DescribesToken items tokens := by
  cases fields with
  | nil => exact .inl ⟨rfl, rfl⟩
  | cons field rest =>
    obtain ⟨key, value⟩ := field
    rw [groupItems?_cons]
    unfold readGroups
    split
    · cases value with
      | list items =>
        exact .inr ⟨items, _, rfl, rfl, readTokens_eq_ok_iff (place ++ "/bygroups/") 0 items⟩
      | _ => exact .inl ⟨rfl, rfl⟩
    · exact readGroups_cases place rest

theorem readTokens_eq_ok_iff (place : Text) (index : Nat) (items : List Document)
    (tokens : List TokenSpec) : readTokens place index items = .ok tokens ↔
      List.Forall₂ Document.DescribesToken items tokens := by
  cases items with
  | nil =>
    rw [readTokens, List.forall₂_nil_left_iff]
    exact ⟨fun read => by cases read; rfl, fun none => by rw [none]⟩
  | cons raw rest =>
    rw [readTokens]
    simp only [except_bind_eq_ok_iff, readToken_eq_ok_iff _ raw, readTokens_eq_ok_iff _ _ rest,
      List.forall₂_cons_left_iff, Except.ok.injEq]
    constructor
    · rintro ⟨token, named, others, each, rfl⟩
      exact ⟨token, others, named, each, rfl⟩
    · rintro ⟨token, others, named, each, rfl⟩
      exact ⟨token, named, others, each, rfl⟩

end

/-! ## Rules -/

theorem popCount?_eq_some_iff {action : Text} {count : Number} : popCount? action = some count ↔
    (action = Text.ofString "#pop" ∧ count = .ofNat 1) ∨
    ∃ digits, action = "#pop:" ++ digits ∧ digits ≠ [] ∧ (∀ u ∈ digits, u.isDigit = true) ∧
      count = .ofNat (Text.decimal digits) := by
  unfold popCount?
  constructor
  · intro counts
    split at counts
    · next once =>
      cases counts
      exact .inl ⟨once, rfl⟩
    split at counts
    · next many =>
      obtain ⟨digits, rfl⟩ := List.isPrefixOf_iff_prefix.1 many
      dsimp only at counts
      split at counts
      · next fine =>
        cases counts
        simp only [Bool.and_eq_true, Bool.not_eq_true', List.all_eq_true] at fine
        exact .inr ⟨digits, rfl, List.isEmpty_eq_false_iff.1 fine.1, fine.2, rfl⟩
      · cases counts
    · cases counts
  · rintro (⟨rfl, rfl⟩ | ⟨digits, rfl, filled, decimal, rfl⟩)
    · rw [if_pos rfl]
    · have behind : (Text.ofString "#pop:" ++ digits).drop 5 = digits := rfl
      rw [if_neg, if_pos (List.isPrefixOf_iff_prefix.2 (List.prefix_append _ _))]
      · dsimp only
        rw [behind, if_pos]
        simpa [filled] using decimal
      · intro same
        cases same

variable {pattern action : Text} {token : TokenSpec} {rule : Rule}

theorem actionRule?_eq_some_iff : actionRule? pattern token action = some rule ↔
    Document.ActionMakes pattern token action rule := by
  unfold actionRule?
  constructor
  · intro made
    split at made
    · next pushes =>
      cases made
      rw [pushes]
      exact .push
    split at made
    · next count counts =>
      cases made
      obtain ⟨rfl, rfl⟩ | ⟨digits, rfl, filled, decimal, rfl⟩ := popCount?_eq_some_iff.1 counts
      · exact .pop
      · exact .popMany filled decimal
    split at made
    · cases made
    · next plain =>
      cases made
      exact .nested fun marked => plain (List.isPrefixOf_iff_prefix.2 marked)
  · intro makes
    cases makes with
    | push => rw [if_pos rfl]
    | pop => rw [if_neg nofun, popCount?_eq_some_iff.2 (.inl ⟨rfl, rfl⟩)]
    | @popMany digits filled decimal =>
      rw [if_neg, popCount?_eq_some_iff.2 (.inr ⟨digits, rfl, filled, decimal, rfl⟩)]
      intro same
      cases same
    | nested plain =>
      have marked (word : Text) : action ≠ "#" ++ word := by
        rintro rfl
        exact plain (List.prefix_append _ _)
      have stays : popCount? action = none := by
        refine Option.eq_none_iff_forall_ne_some.2 fun count counts => ?_
        obtain ⟨once, -⟩ | ⟨digits, many, -⟩ := popCount?_eq_some_iff.1 counts
        · exact marked "pop" once
        · exact marked ("pop:" ++ digits) many
      have pushes : ¬ action = Text.ofString "#push" := marked "push"
      rw [if_neg pushes, stays]
      dsimp only
      rw [if_neg fun inside => plain (List.isPrefixOf_iff_prefix.1 inside)]

theorem objectRule?_eq_some_iff :
    objectRule? fields = some rule ↔ (Document.object fields).DescribesRule rule := by
  rw [objectRule?, field?, field?]
  constructor
  · intro found
    split at found
    · next included =>
      cases found
      exact .included included
    · next entered stays =>
      cases found
      exact .entered stays entered
    · cases found
  · intro described
    cases described with
    | included included => rw [included]
    | entered stays entered =>
      rw [entered]
      split
      · next included => exact absurd included (stays _)
      · next same _ =>
        cases same
        rfl
      · next none => exact absurd rfl (none _)

/-- A rule is read of a document just if the document describes it. -/
theorem readRule_eq_ok_iff (place : Text) :
    readRule place raw = .ok rule ↔ raw.DescribesRule rule := by
  unfold readRule
  dsimp only
  constructor
  · intro read
    split at read
    · cases read
      exact .target _
    · split at read
      · next found =>
        cases read
        exact objectRule?_eq_some_iff.1 found
      · cases read
    · obtain ⟨token, named, read⟩ := except_bind_eq_ok_iff.1 read
      cases read
      exact .literal ((readToken_eq_ok_iff _ _ _).1 named)
    · obtain ⟨token, named, read⟩ := except_bind_eq_ok_iff.1 read
      split at read
      · next made =>
        cases read
        obtain ⟨action, spelled, made⟩ := Option.bind_eq_some_iff.1 made
        rw [Document.text?_eq_some_iff.1 spelled]
        exact .acting ((readToken_eq_ok_iff _ _ _).1 named) (actionRule?_eq_some_iff.1 made)
      · cases read
    · cases read
  · intro described
    cases described with
    | target => rfl
    | included found =>
      dsimp only
      rw [objectRule?_eq_some_iff.2 (.included found)]
    | entered stays found =>
      dsimp only
      rw [objectRule?_eq_some_iff.2 (.entered stays found)]
    | literal named =>
      exact except_bind_eq_ok_iff.2 ⟨_, (readToken_eq_ok_iff _ _ _).2 named, rfl⟩
    | acting named makes =>
      refine except_bind_eq_ok_iff.2 ⟨_, (readToken_eq_ok_iff _ _ _).2 named, ?_⟩
      rw [Document.text?, Option.bind_some, actionRule?_eq_some_iff.2 makes]

/-! ## States -/

theorem readRules_eq_ok_iff (state : Text) (index : Nat) {items : List Document}
    {rules : List Rule} : readRules state index items = .ok rules ↔
      List.Forall₂ Document.DescribesRule items rules := by
  induction items generalizing index rules with
  | nil =>
    rw [readRules, List.forall₂_nil_left_iff, Except.ok.injEq]
    exact eq_comm
  | cons raw items ih =>
    rw [readRules]
    simp only [except_bind_eq_ok_iff, except_mapError_eq_ok_iff, readRule_eq_ok_iff, ih,
      List.forall₂_cons_left_iff, Except.ok.injEq]
    constructor
    · rintro ⟨rule, described, rest, others, rfl⟩
      exact ⟨rule, rest, described, others, rfl⟩
    · rintro ⟨rule, rest, described, others, rfl⟩
      exact ⟨rule, described, rest, others, rfl⟩

/-- The rules of a state, with its name. -/
def readState (state : Text × Document) : Except GrammarError (Text × List Rule) := do
  let rules ← readRules state.1 0 (state.2.items?.getD [])
  .ok (state.1, rules)

theorem readState_eq_ok_iff {state : Text × Document} {items : List Document}
    (listed : state.2 = .list items) (entry : Text × List Rule) : readState state = .ok entry ↔
      entry.1 = state.1 ∧ List.Forall₂ Document.DescribesRule items entry.2 := by
  obtain ⟨name, rules⟩ := entry
  simp only [readState, listed, Document.items?, Option.getD_some, except_bind_eq_ok_iff,
    readRules_eq_ok_iff, Except.ok.injEq, Prod.mk.injEq]
  constructor
  · rintro ⟨_, each, rfl, rfl⟩
    exact ⟨rfl, each⟩
  · rintro ⟨rfl, each⟩
    exact ⟨_, each, rfl, rfl⟩

variable {states : Table Text Document} {graph : Graph}

theorem mapM_readState_eq_ok_iff (lists : ∀ state ∈ states, ∃ items, state.2 = .list items) :
    states.mapM readState = .ok graph ↔ Document.DescribesGraph states graph := by
  rw [mapM_eq_ok_iff, Document.DescribesGraph]
  induction states generalizing graph with
  | nil => rw [List.forall₂_nil_left_iff, List.forall₂_nil_left_iff]
  | cons state states ih =>
    obtain ⟨⟨items, listed⟩, lists⟩ := List.forall_mem_cons.1 lists
    simp only [List.forall₂_cons_left_iff, ih lists, readState_eq_ok_iff listed, listed,
      Document.list.injEq, exists_eq_left']

/-- A graph is read of states that are lists just if they describe it, and the check on its
references passes. -/
theorem readGraph_eq_ok_iff (lists : ∀ state ∈ states, ∃ items, state.2 = .list items) :
    readGraph states = .ok graph ↔
      Document.DescribesGraph states graph ∧ referenceError? graph = none := by
  unfold readGraph
  show (states.mapM readState >>= _) = _ ↔ _
  rw [except_bind_eq_ok_iff]
  simp only [mapM_readState_eq_ok_iff lists]
  constructor
  · rintro ⟨read, described, checked⟩
    split at checked
    · cases checked
    · next passed =>
      cases checked
      exact ⟨described, passed⟩
  · rintro ⟨described, passed⟩
    exact ⟨graph, described, by rw [passed]⟩

theorem stateProblems_eq_nil_iff : stateProblems fields = [] ↔
    ∃ states, Table.get? fields "tokens" = some (.object states) ∧
      (∀ state ∈ states, ∃ items, state.2 = .list items) ∧
      Table.has states rootState = true := by
  have found (states : Table Text Document) :
      (field? fields "tokens").bind Document.fields? = some states ↔
        Table.get? fields "tokens" = some (.object states) := by
    simp only [field?, Option.bind_eq_some_iff, Document.fields?_eq_some_iff, exists_eq_right]
  unfold stateProblems
  simp only [← found]
  cases (field? fields "tokens").bind Document.fields? with
  | none => simp
  | some states =>
    simp only [List.append_eq_nil_iff, List.filterMap_eq_nil_iff, Option.some.injEq,
      exists_eq_left']
    refine and_congr (forall₂_congr fun state _ => ?_) ?_
    · simp only [← Document.items?_eq_some_iff]
      cases state.2.items? <;> simp
    · cases Table.has states rootState <;> simp

/-- What a field that may be missing holds as a list of texts. -/
def HoldsTexts (fields : Table Text Document) (key : Text) (texts : List Text) : Prop :=
  (Table.get? fields key = none ∧ texts = []) ∨
    Table.get? fields key = some (.list (texts.map .text))

theorem optionalTexts_eq_iff {key : Text} {texts : List Text} :
    optionalTexts fields key = (texts, []) ↔ HoldsTexts fields key texts := by
  rw [optionalTexts, HoldsTexts, field?]
  cases Table.get? fields key with
  | none => simp [eq_comm]
  | some value =>
    rw [Option.some.injEq, ← Document.texts?_eq_some_iff]
    dsimp only
    cases value.texts? <;> simp

theorem name?_eq_some_iff {name : Text} : name? fields = some name ↔
    Table.get? fields "name" = some (.text name) ∧ Text.trim name ≠ [] := by
  rw [name?, field?]
  split
  · next found =>
    rw [found, Option.some.injEq, Document.text.injEq]
    split
    · next blank =>
      refine ⟨nofun, ?_⟩
      rintro ⟨rfl, solid⟩
      exact absurd (List.isEmpty_iff.1 blank) solid
    · next solid =>
      rw [Option.some.injEq]
      refine ⟨?_, And.left⟩
      rintro rfl
      exact ⟨rfl, fun blank => solid (List.isEmpty_iff.2 blank)⟩
  · next missing => exact ⟨nofun, fun found => absurd found.1 (missing _)⟩

end Entry

/-! ## Languages -/

/-- What an object says of a language: its name, its lists of texts and its states, among them one to
start in and all that its rules are checked for. -/
structure Document.DescribesLanguage (fields : Table Text Document) (language : Language) :
    Prop where
  name : Table.get? fields "name" = some (text language.name)
  solid : Text.trim language.name ≠ []
  aliases : Entry.HoldsTexts fields "aliases" language.aliases
  filenames : Entry.HoldsTexts fields "filenames" language.filenames
  aliasFilenames : Entry.HoldsTexts fields "aliasFilenames" language.aliasFilenames
  states : ∃ states, Table.get? fields "tokens" = some (object states) ∧
    Table.has states rootState = true ∧ DescribesGraph states language.graph
  closed : Entry.referenceError? language.graph = none

namespace Document.DescribesGraph

variable {states : Table Text Document} {graph : Graph}

/-- The states that describe a graph are lists. -/
theorem lists (described : DescribesGraph states graph) :
    ∀ state ∈ states, ∃ items, state.2 = list items := by
  induction described with
  | nil => exact nofun
  | cons here _ ih =>
    obtain ⟨-, items, listed, -⟩ := here
    exact List.forall_mem_cons.2 ⟨⟨items, listed⟩, ih⟩

theorem keys_eq (described : DescribesGraph states graph) :
    Table.keys graph = Table.keys states := by
  induction described with
  | nil => rfl
  | cons here _ ih => exact congrArg₂ List.cons here.1 ih

end Document.DescribesGraph

/-- A language is loaded from a document just if it is an object that describes the language. -/
theorem Language.ofDocument_eq_ok_iff {file : Text} {raw : Document} {language : Language} :
    ofDocument file raw = .ok language ↔ language.sourceFile = some file ∧
      ∃ fields, raw = .object fields ∧ Document.DescribesLanguage fields language := by
  constructor
  · intro loaded
    unfold ofDocument at loaded
    split at loaded
    · cases loaded
    next fields opened =>
    dsimp only at loaded
    split at loaded
    · next name states named listed fine =>
      simp only [List.append_eq_nil_iff] at fine
      obtain ⟨⟨⟨⟨-, aliases⟩, filenames⟩, aliasFilenames⟩, fine⟩ := fine
      obtain ⟨own, found, lists, root⟩ := Entry.stateProblems_eq_nil_iff.1 fine
      obtain rfl : own = states := by
        rw [Entry.field?, found] at listed
        exact Option.some.inj listed
      obtain ⟨called, solid⟩ := Entry.name?_eq_some_iff.1 named
      split at loaded
      · next graph read =>
        cases loaded
        obtain ⟨described, closed⟩ := (Entry.readGraph_eq_ok_iff lists).1 read
        refine ⟨rfl, fields, Document.fields?_eq_some_iff.1 opened, ?_⟩
        exact {
          name := called
          solid := solid
          aliases := Entry.optionalTexts_eq_iff.1 (Prod.ext rfl aliases)
          filenames := Entry.optionalTexts_eq_iff.1 (Prod.ext rfl filenames)
          aliasFilenames := Entry.optionalTexts_eq_iff.1 (Prod.ext rfl aliasFilenames)
          states := ⟨own, found, root, described⟩
          closed := closed }
      · cases loaded
    · cases loaded
  · rintro ⟨source, fields, rfl, described⟩
    obtain ⟨states, found, root, graph⟩ := described.states
    have read := (Entry.readGraph_eq_ok_iff graph.lists).2 ⟨graph, described.closed⟩
    have fine := Entry.stateProblems_eq_nil_iff.2 ⟨states, found, graph.lists, root⟩
    have named := Entry.name?_eq_some_iff.2 ⟨described.name, described.solid⟩
    unfold ofDocument
    simp only [Document.fields?, named, Entry.optionalTexts_eq_iff.2 described.aliases,
      Entry.optionalTexts_eq_iff.2 described.filenames,
      Entry.optionalTexts_eq_iff.2 described.aliasFilenames, fine, Entry.field?, found,
      Option.bind_some, Option.isSome_some, if_true, List.append_nil, read, ← source]

end Highlight
