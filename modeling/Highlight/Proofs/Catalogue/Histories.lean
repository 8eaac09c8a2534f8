import Highlight.Proofs.Catalogue.Registry

/-!
# Registries after a history of calls

`Registry.add` is called for one language after the other, and a call that fails is passed over
(`Registry.ofHistory`). The registry then holds the languages of the calls that succeeded, in order
(`Registry.taken`). It may be kept as an index of two tables, where a name belongs to one language
only and an alias to the first that claims it: `Index.Mirrors` is kept by every call, whether it
succeeds or not, and such an index answers as the registry does.
-/

namespace Highlight

namespace Registry

variable {registry : Registry} {language : Language}

/-- What a call of `add` leaves: the registry as it was if the call fails. -/
def attempt (registry : Registry) (language : Language) : Registry :=
  match registry.add language with
  | .ok next => next
  | .error _ => registry

/-- The registry after a history of calls. -/
def ofHistory (history : List Language) : Registry := history.foldl attempt empty

/-- The languages of the calls that succeed, one after the other. -/
def takenFrom (registry : Registry) : List Language → List Language
  | [] => []
  | language :: rest =>
    match registry.add language with
    | .ok next => language :: takenFrom next rest
    | .error _ => takenFrom registry rest

/-- The languages of the calls of a history that succeed. -/
def taken (history : List Language) : List Language := takenFrom empty history

/-- A call fails on the language that has the name. -/
theorem add_eq_error_iff (distinct : Distinct registry.languages) {e : CatalogueError} :
    registry.add language = .error e ↔ ∃ earlier ∈ registry.languages,
      Text.lower earlier.name = Text.lower language.name ∧ e = alreadyDefined language earlier := by
  unfold add
  cases found : registry.get? language.name with
  | none =>
    refine ⟨nofun, ?_⟩
    rintro ⟨earlier, listed, same, -⟩
    exact absurd same (get?_eq_none_iff.1 found earlier listed)
  | some existing =>
    constructor
    · intro failed
      obtain ⟨listed, same⟩ := (get?_eq_some_iff distinct).1 found
      exact ⟨existing, listed, same, (Except.error.inj failed).symm⟩
    · rintro ⟨earlier, listed, same, rfl⟩
      rw [(get?_eq_some_iff distinct).2 ⟨listed, same⟩] at found
      cases found
      rfl

theorem foldl_attempt (distinct : Distinct registry.languages) (history : List Language) :
    (history.foldl attempt registry).languages = registry.languages ++ takenFrom registry history ∧
      Distinct (history.foldl attempt registry).languages := by
  induction history generalizing registry with
  | nil => exact ⟨(List.append_nil _).symm, distinct⟩
  | cons language rest ih =>
    rw [List.foldl_cons, attempt, takenFrom]
    cases added : registry.add language with
    | error e => exact ih distinct
    | ok next =>
      obtain ⟨rfl, free⟩ := add_eq_ok_iff.1 added
      have next : Distinct (Registry.mk (registry.languages ++ [language])).languages :=
        (distinct_concat distinct).2 free
      obtain ⟨holds, apart⟩ := ih next
      exact ⟨holds.trans (List.append_assoc _ _ _), apart⟩

theorem distinct_empty : Distinct empty.languages := List.nodup_nil

theorem languages_ofHistory (history : List Language) :
    (ofHistory history).languages = taken history :=
  (foldl_attempt distinct_empty history).1

theorem distinct_ofHistory (history : List Language) : Distinct (ofHistory history).languages :=
  (foldl_attempt distinct_empty history).2

end Registry

/-! ## Two tables -/

/-- A registry as two tables over names and aliases in lower case: the language of a name, and the
first language with an alias. -/
structure Index where
  byName : Table Text Language
  byAlias : Table Text Language

namespace Index

def empty : Index := ⟨[], []⟩

/-- An alias of a language, unless another language has claimed it. -/
def claim (language : Language) (byAlias : Table Text Language) (a : Text) : Table Text Language :=
  if Table.has byAlias (Text.lower a) then byAlias
  else Table.set byAlias (Text.lower a) language

/-- Enters a language and its aliases. The call fails before anything is changed. -/
def add (language : Language) : ExceptT CatalogueError (StateM Index) Unit := do
  let index ← get
  match Table.get? index.byName (Text.lower language.name) with
  | some existing => throw (Registry.alreadyDefined language existing)
  | none =>
    set { index with byName := Table.set index.byName (Text.lower language.name) language }
    language.aliases.forM fun a =>
      modify fun index => { index with byAlias := claim language index.byAlias a }

def get? (index : Index) (name : Text) : Option Language :=
  Table.get? index.byName (Text.lower name)

def resolve (index : Index) (name : Text) : Option Language :=
  match index.get? name with
  | some language => some language
  | none => Table.get? index.byAlias (Text.lower name)

/-- The index after a history of calls. -/
def ofHistory (history : List Language) : Index :=
  history.foldl (fun index language => ((add language).run.run index).2) empty

variable {index : Index} {registry : Registry} {language : Language}

theorem run_add (index : Index) (language : Language) : (add language).run.run index =
    match Table.get? index.byName (Text.lower language.name) with
    | some existing => (.error (Registry.alreadyDefined language existing), index)
    | none => (.ok (), ⟨Table.set index.byName (Text.lower language.name) language,
        language.aliases.foldl (claim language) index.byAlias⟩) := by
  have claims (aliases : List Text) (index : Index) :
      ((aliases.forM fun a => modify fun index =>
        { index with byAlias := claim language index.byAlias a } :
          ExceptT CatalogueError (StateM Index) Unit).run.run index) =
        (.ok (), { index with byAlias := aliases.foldl (claim language) index.byAlias }) := by
    induction aliases generalizing index with
    | nil => rfl
    | cons a aliases ih => exact ih _
  unfold add
  change (match Table.get? index.byName (Text.lower language.name) with
    | some existing => _
    | none => _ : ExceptT CatalogueError (StateM Index) Unit).run.run index = _
  cases Table.get? index.byName (Text.lower language.name) with
  | some existing => rfl
  | none => exact claims _ _

/-- The first claim to an alias is the one that stands. -/
theorem get?_claims (aliases : List Text) (byAlias : Table Text Language) (key : Text) :
    Table.get? (aliases.foldl (claim language) byAlias) key =
      (Table.get? byAlias key).or
        (if aliases.any (fun a => Text.lower a = key) then some language else none) := by
  induction aliases generalizing byAlias with
  | nil => exact (Option.or_none).symm
  | cons a aliases ih =>
    rw [List.foldl_cons, ih, List.any_cons, claim]
    by_cases here : Text.lower a = key
    · subst here
      cases held : Table.get? byAlias (Text.lower a) with
      | some first => simp [Table.has, held]
      | none => simp [Table.has, held, Table.get?_set]
    · split
      · simp [here]
      · rw [Table.get?_set, if_neg here]
        simp [here]

/-- The index keeps the languages of the registry in order under their names, and under each alias
the earliest language that has it. -/
structure Mirrors (index : Index) (registry : Registry) : Prop where
  byName : index.byName = registry.languages.map fun language => (Text.lower language.name, language)
  byAlias : ∀ key, Table.get? index.byAlias key =
    registry.languages.find? fun language => language.aliases.any fun a => Text.lower a = key

theorem Mirrors.get? (mirrors : index.Mirrors registry) (name : Text) :
    index.get? name = registry.get? name := by
  unfold Index.get? Registry.get?
  rw [mirrors.byName]
  induction registry.languages with
  | nil => rfl
  | cons language languages ih =>
    rw [List.map_cons, Table.get?, List.find?_cons, ih]
    by_cases here : Text.lower language.name = Text.lower name <;> simp [here]

theorem Mirrors.resolve (mirrors : index.Mirrors registry) (name : Text) :
    index.resolve name = registry.resolve name := by
  unfold Index.resolve Registry.resolve
  rw [mirrors.get?, mirrors.byAlias]
  rfl

theorem Mirrors.languages (mirrors : index.Mirrors registry) :
    Table.values index.byName = registry.languages := by
  rw [Table.values, mirrors.byName, List.map_map]
  exact List.map_id _

/-- A call does to the index what it does to the registry. -/
theorem Mirrors.add (mirrors : index.Mirrors registry) (language : Language) :
    ((Index.add language).run.run index).1 = (registry.add language).map (fun _ => ()) ∧
      ((Index.add language).run.run index).2.Mirrors (registry.attempt language) := by
  have found := mirrors.get? language.name
  unfold Index.get? at found
  rw [run_add, found, Registry.attempt, Registry.add]
  cases named : registry.get? language.name with
  | some existing => exact ⟨rfl, mirrors⟩
  | none =>
    rw [named] at found
    refine ⟨rfl, ?_, fun key => ?_⟩
    · -- A name that is free goes to the end of the first table, as the language does in the list.
      have fresh : Table.set index.byName (Text.lower language.name) language =
          index.byName ++ [(Text.lower language.name, language)] :=
        Table.set_of_not_mem (Table.get?_eq_none_iff.1 found) language
      dsimp only
      rw [fresh, mirrors.byName, List.map_append, List.map_singleton]
    · dsimp only
      rw [get?_claims, mirrors.byAlias, List.find?_append, List.find?_singleton]

/-- The index answers as the registry does, and so do calls of `add`. -/
structure Agrees (index : Index) (registry : Registry) : Prop where
  list : Table.values index.byName = registry.languages
  get? : ∀ name, index.get? name = registry.get? name
  resolve : ∀ name, index.resolve name = registry.resolve name
  add : ∀ language, ((Index.add language).run.run index).1 =
    (registry.add language).map fun _ => ()

theorem Mirrors.agrees (mirrors : index.Mirrors registry) : index.Agrees registry where
  list := mirrors.languages
  get? := mirrors.get?
  resolve := mirrors.resolve
  add language := (mirrors.add language).1

/-- An index is kept as the registry is over a whole history. -/
theorem mirrors_ofHistory (history : List Language) :
    (ofHistory history).Mirrors (Registry.ofHistory history) := by
  have step (history : List Language) : ∀ (index : Index) (registry : Registry),
      index.Mirrors registry →
      (history.foldl (fun index language => ((Index.add language).run.run index).2) index).Mirrors
        (history.foldl Registry.attempt registry) := by
    induction history with
    | nil => exact fun _ _ mirrors => mirrors
    | cons language rest ih => exact fun _ _ mirrors => ih _ _ (mirrors.add language).2
  exact step history _ _ ⟨rfl, fun _ => rfl⟩

end Index

namespace Registry

/-- What a registry answers that holds the languages of a list. -/
structure Answers (registry : Registry) (languages : List Language) : Prop where
  list : registry.languages = languages
  size : registry.size = languages.length
  single : ∀ first ∈ languages, ∀ second ∈ languages,
    Text.lower first.name = Text.lower second.name → first = second
  get? : ∀ name language, registry.get? name = some language ↔
    language ∈ languages ∧ Text.lower language.name = Text.lower name
  has : ∀ name, registry.has name = true ↔
    ∃ language ∈ languages, Text.lower language.name = Text.lower name
  resolve : ∀ name language, registry.resolve name = some language ↔
    registry.get? name = some language ∨
      registry.get? name = none ∧ EarliestAlias languages name language
  select : ∀ names, registry.Selects names (registry.select names)

theorem answers_of_distinct {registry : Registry} (distinct : Distinct registry.languages) :
    registry.Answers registry.languages where
  list := rfl
  size := rfl
  single _ first _ second same := distinct.eq_of_lower first second same
  get? _ _ := get?_eq_some_iff distinct
  has name := by
    rw [has, Option.isSome_iff_exists]
    simp only [get?_eq_some_iff distinct]
  resolve _ _ := resolve_eq_some_iff
  select := select_selects distinct

/-- A call that fails after some history, and only such a call, finds the name with a language that
was added before. It leaves no trace in what comes later. After every history the registry answers
from the languages that were added, in order, and so does the index that is kept of them. -/
theorem history_answers :
    (∀ (before : List Language) (language : Language) (e : CatalogueError),
      (ofHistory before).add language = .error e ↔ ∃ earlier ∈ taken before,
        Text.lower earlier.name = Text.lower language.name ∧
          e = alreadyDefined language earlier) ∧
    (∀ (before after : List Language) (language : Language) (e : CatalogueError),
      (ofHistory before).add language = .error e →
        ofHistory (before ++ language :: after) = ofHistory (before ++ after) ∧
        taken (before ++ language :: after) = taken (before ++ after)) ∧
    ∀ history, (ofHistory history).Answers (taken history) ∧
      (Index.ofHistory history).Agrees (ofHistory history) := by
  refine ⟨fun before language e => ?_, fun before after language e failed => ?_, fun history => ?_⟩
  · rw [← languages_ofHistory]
    exact add_eq_error_iff (distinct_ofHistory before)
  · have same : ofHistory (before ++ language :: after) = ofHistory (before ++ after) := by
      unfold ofHistory at failed ⊢
      rw [List.foldl_append, List.foldl_append, List.foldl_cons, attempt, failed]
    refine ⟨same, ?_⟩
    rw [← languages_ofHistory, ← languages_ofHistory, same]
  · refine ⟨?_, (Index.mirrors_ofHistory history).agrees⟩
    rw [← languages_ofHistory]
    exact answers_of_distinct (distinct_ofHistory history)

/-- A language that has nothing but a name and aliases. -/
def spoken (name : Text) (aliases : List Text) : Language where
  name := name
  aliases := aliases
  filenames := []
  aliasFilenames := []
  graph := [("root", [])]
  sourceFile := none

/-- The third call fails and claims no alias. A name is found in front of an older alias, and of two
languages with one alias the older one. -/
theorem history_answers_dialects :
    let scheme := spoken "Scheme" ["scm", "lisp"]
    let lisp := spoken "Lisp" ["cl"]
    let again := spoken "SCHEME" ["ss"]
    let racket := spoken "Racket" ["scm", "ss"]
    (ofHistory [scheme, lisp]).add again = .error (alreadyDefined again scheme) ∧
    ofHistory [scheme, lisp, again, racket] = ofHistory [scheme, lisp, racket] ∧
    (ofHistory [scheme, lisp, racket]).resolve "LISP" = some lisp ∧
    (ofHistory [scheme, lisp, racket]).resolve "Scm" = some scheme ∧
    ((ofHistory [scheme, lisp, racket]).select ["rkt", "scm"]).missing = ["rkt"] := by
  intro scheme lisp again racket
  have held : scheme ∈ taken [scheme, lisp] := List.mem_cons_self
  have failed : (ofHistory [scheme, lisp]).add again = .error (alreadyDefined again scheme) :=
    (history_answers.1 _ _ _).2 ⟨scheme, held, by decide +kernel, rfl⟩
  have all : taken [scheme, lisp, racket] = [scheme, lisp, racket] := rfl
  have answers := (history_answers.2.2 [scheme, lisp, racket]).1
  rw [all] at answers
  refine ⟨failed, (history_answers.2.1 _ [racket] _ _ failed).1, ?_, ?_, ?_⟩
  · exact (answers.resolve _ _).2 (.inl ((answers.get? _ _).2 ⟨by simp, by decide +kernel⟩))
  · have alias_of : HasAlias scheme "Scm" := ⟨"scm", List.mem_cons_self, by decide +kernel⟩
    exact (answers.resolve _ _).2 (.inr ⟨rfl, [], [lisp, racket], rfl, alias_of, nofun⟩)
  · exact (answers.select _).missing

end Registry

end Highlight
