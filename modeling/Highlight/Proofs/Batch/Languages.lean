import Highlight.Proofs.Batch.Jobs
import Highlight.Proofs.Catalogue.LookupTable

/-!
# Batches of languages

What a language becomes does not depend on the other languages of its batch. So the report, the
files and the lookup table are told from what each language becomes alone, for all languages that
the batch comes to (`Batch.languages_accounted`): the failed ones leave an error in the report and
nothing else. A language whose compilation breaks down does not count as failed. It ends the job, and
there is no report (`Batch.languages_unreported`).
-/

namespace Highlight

namespace Batch

variable {registry : Registry} {languages : List Language} {place : Workplace}

/-- What is made of the languages that can be compiled. -/
def compiled (registry : Registry) (limits : Limits) (languages : List Language) :
    List CompiledLanguage :=
  languages.filterMap fun language => (language.compile limits registry.get?).toOption

/-- The languages that cannot be compiled, and why. -/
def refused (registry : Registry) (limits : Limits) (languages : List Language) :
    List (Text × GrammarError) :=
  languages.filterMap fun language =>
    (failure? (language.compile limits registry.get?)).map (language.name, ·)

/-- The error of a language whose compilation breaks down. -/
def broken? (registry : Registry) (limits : Limits) (languages : List Language) :
    Option GrammarError :=
  languages.findSome? fun language =>
    (failure? (language.compile limits registry.get?)).filter (·.fault.isBreakdown)

/-- The lookup table of languages, each with its file. -/
def tableOf (made : List CompiledLanguage) : LookupTable :=
  LookupTable.addAll [] (made.map fun language => (language.language, language.fileName))

/-- Where a compiled language is written. -/
def fileOf (directory : Text) (made : CompiledLanguage) : Text := Path.join directory made.fileName

theorem products_languagePlan (registry : Registry) (limits : Limits) (list : List Language) :
    (languagePlan registry limits).products list =
      (compiled registry limits list).map languageProduct := by
  unfold Plan.products compiled
  rw [List.map_filterMap]
  congr 1
  funext language
  change ((language.compile limits registry.get?).map languageProduct).toOption = _
  cases language.compile limits registry.get? <;> rfl

theorem failures_languagePlan (registry : Registry) (limits : Limits) (list : List Language) :
    (languagePlan registry limits).failures list = refused registry limits list := by
  unfold Plan.failures refused
  congr 1
  funext language
  change (failure? ((language.compile limits registry.get?).map languageProduct)).map _ = _
  rw [failure?_map]
  rfl

theorem breakdown?_languagePlan (registry : Registry) (limits : Limits) (list : List Language) :
    (languagePlan registry limits).breakdown? list = broken? registry limits list := by
  unfold Plan.breakdown? broken?
  congr 1
  funext language
  change (failure? ((language.compile limits registry.get?).map languageProduct)).filter _ = _
  rw [failure?_map]
  rfl

theorem writes_languagePlan (registry : Registry) (limits : Limits) (directory : Text)
    (list : List Language) :
    (languagePlan registry limits).writes directory list =
      (compiled registry limits list).map fun made => (fileOf directory made, made.source) := by
  unfold Plan.writes
  rw [products_languagePlan, List.flatMap_map]
  exact List.map_eq_flatMap.symm

theorem account_languagePlan (registry : Registry) (limits : Limits) (directory : Text)
    (list : List Language) :
    (languagePlan registry limits).account directory empty list =
      match broken? registry limits list with
      | some e => .error (.grammar e.report)
      | none => .ok ⟨(compiled registry limits list).map (fileOf directory),
          refused registry limits list, tableOf (compiled registry limits list)⟩ := by
  unfold Plan.account
  rw [breakdown?_languagePlan, failures_languagePlan, products_languagePlan, writes_languagePlan]
  cases broken? registry limits list with
  | some e => rfl
  | none =>
    dsimp only [empty]
    rw [List.map_map, List.nil_append, List.nil_append, List.foldl_map, tableOf, LookupTable.addAll,
      List.foldl_map]
    rfl

/-- A language is never written where the lookup table is. -/
theorem keyOf_fileOf_ne (directory : Text) (made : CompiledLanguage) :
    FileTree.keyOf (fileOf directory made) ≠ FileTree.keyOf (Path.join directory "lang.map") := by
  have plain : Path.slash ∉ Text.ofString ".lang" := by decide
  obtain ⟨before, front, ends⟩ := Path.exists_parts_append plain (by decide)
    ((Text.lower made.language.name).map fun u => if u = unit ' ' then unit '-' else u)
  have last : front ++ Text.ofString ".lang" = (front ++ Text.ofString ".lan") ++ [unit 'g'] := by
    rw [List.append_assoc]
    rfl
  have leads (other : Text) (differs : other.getLast? ≠ some (unit 'g')) :
      front ++ Text.ofString ".lang" ≠ other := by
    rintro rfl
    rw [last, List.getLast?_concat] at differs
    exact differs rfl
  obtain ⟨above, here⟩ := FileTree.exists_keyOf_join (leads _ (by decide)) (leads _ (by decide))
    ends directory
  have parts : Path.parts (Text.ofString "lang.map") = [] ++ [Text.ofString "lang.map"] := by decide
  obtain ⟨above', there⟩ := FileTree.exists_keyOf_join (by decide) (by decide) parts directory
  intro same
  rw [fileOf, CompiledLanguage.fileName, Definition.fileName, here, there, last,
    Text.wellFormed_append_plain (by decide)] at same
  have same := congrArg List.getLast? (List.append_inj' same rfl).2
  rw [List.getLast?_singleton, List.getLast?_singleton] at same
  have same := congrArg List.getLast? (Option.some.inj same)
  rw [List.getLast?_concat] at same
  exact absurd same (by decide)

/-- The table is empty only if nothing was made. -/
theorem isEmpty_tableOf (made : List CompiledLanguage) : (tableOf made).isEmpty = made.isEmpty := by
  rw [Bool.eq_iff_iff, List.isEmpty_iff, List.isEmpty_iff, tableOf, LookupTable.addAll_eq_nil_iff,
    List.map_eq_nil_iff]

/-- The last language that claims a key keeps it. -/
theorem get?_tableOf (made : List CompiledLanguage) (key : Text) :
    Table.get? (tableOf made) key =
      (made.reverse.find? fun language => key ∈ LookupTable.claimed language.language).map
        CompiledLanguage.fileName := by
  rw [tableOf, LookupTable.get?_addAll, ← List.map_reverse, List.find?_map, Option.map_map]
  exact Option.or_none

theorem written?_tableWrites (directory file : Text) (table : LookupTable) (key : List Text) :
    FileTree.written? (tableWrites directory file table) key =
      if key = FileTree.keyOf (Path.join directory file) ∧ table.isEmpty = false then
        some (.file table.render.wellFormed) else none := by
  unfold tableWrites
  cases table.isEmpty with
  | true =>
    rw [if_pos rfl, if_neg fun all => nomatch all.2]
    rfl
  | false =>
    rw [if_neg nofun, FileTree.written?, List.reverse_singleton, List.find?_singleton]
    by_cases here : FileTree.keyOf (Path.join directory file) = key
    · rw [if_pos (decide_eq_true here), if_pos ⟨here.symm, rfl⟩]
      rfl
    · rw [if_neg (by simpa using here), if_neg fun all => here all.1.symm]
      rfl

theorem written?_compiled (directory : Text) (made : List CompiledLanguage) (key : List Text) :
    FileTree.written? (made.map fun language => (fileOf directory language, language.source)) key =
      (made.reverse.find? fun language => FileTree.keyOf (fileOf directory language) = key).map
        fun language => .file language.source.wellFormed := by
  rw [FileTree.written?, ← List.map_reverse, List.find?_map, Option.map_map]
  rfl

/-- The languages that a batch comes to. -/
def tried (registry : Registry) (options : BatchOptions) (languages : List Language) :
    List Language :=
  (languagePlan registry options.limits).tried options.failFast languages

/-- The language can be compiled. -/
def succeeds (registry : Registry) (limits : Limits) (language : Language) : Bool :=
  (language.compile limits registry.get?).isOk

theorem ends_languagePlan (registry : Registry) (limits : Limits) (language : Language) :
    (languagePlan registry limits).ends true language = !succeeds registry limits language := by
  have make : (languagePlan registry limits).make language =
      (language.compile limits registry.get?).map languageProduct := rfl
  unfold Plan.ends succeeds
  rw [make]
  cases language.compile limits registry.get? <;> rfl

/-- A batch that ends at the first failure comes to the languages before it and to that one. -/
theorem tried_failFast (fast : options.failFast = true) (list : List Language) :
    tried registry options list = list.takeWhile (succeeds registry options.limits) ++
      (list.dropWhile (succeeds registry options.limits)).take 1 := by
  unfold tried Plan.tried
  rw [fast]
  simp only [ends_languagePlan, Bool.not_not]

theorem languages_cases {list : List Language}
    {result : Except Failure (Batch GrammarError × Option Text)} {last : Workplace}
    (ran : (Batch.languages registry options list).run.run place = (result, last))
    (allowed : ∀ e, result ≠ .error (.file e)) :
    ∃ base, place.tree.makeDirectory options.outDir = .ok base ∧
      match broken? registry options.limits (tried registry options list) with
      | some e => result = .error (.grammar e.report) ∧
        base.writeAll ((compiled registry options.limits (tried registry options list)).map
          fun made => (fileOf options.outDir made, made.source)) = .ok last.tree
      | none => result =
          .ok (⟨(compiled registry options.limits (tried registry options list)).map
              (fileOf options.outDir), refused registry options.limits (tried registry options list),
              tableOf (compiled registry options.limits (tried registry options list))⟩,
            if compiled registry options.limits (tried registry options list) = [] then none
            else some (Path.join options.outDir "lang.map")) ∧
        base.writeAll ((compiled registry options.limits (tried registry options list)).map
            (fun made => (fileOf options.outDir made, made.source)) ++
          tableWrites options.outDir "lang.map"
            (tableOf (compiled registry options.limits (tried registry options list)))) =
          .ok last.tree := by
  have goes := run_cases (languagePlan registry options.limits) options list place
  have reached : (languagePlan registry options.limits).tried options.failFast list =
    tried registry options list := rfl
  have job : run (languagePlan registry options.limits) options list =
    Batch.languages registry options list := rfl
  rw [job, ran, reached, account_languagePlan, writes_languagePlan] at goes
  obtain ⟨e, broken⟩ | ⟨base, made, does⟩ := goes
  · exact absurd broken (allowed e)
  · refine ⟨base, made, ?_⟩
    cases broken : broken? registry options.limits (tried registry options list) with
    | some e =>
      rw [broken] at does
      exact does
    | none =>
      rw [broken] at does
      obtain ⟨gives, wrote⟩ := does
      refine ⟨gives.trans ?_, wrote⟩
      simp only [isEmpty_tableOf, List.isEmpty_iff]
      rfl

/-- What a batch of languages leaves, told from what each language that it came to becomes alone. -/
structure Accounted (registry : Registry) (options : BatchOptions) (reached : List Language)
    (before : FileTree) (result : Except Failure (Batch GrammarError × Option Text))
    (after : FileTree) : Prop where
  /-- Without a breakdown the report has the files of those that succeed and the errors of the
  others, in order, and the lookup table if any succeeds. A breakdown ends the job. -/
  report : result = match broken? registry options.limits reached with
    | some e => .error (.grammar e.report)
    | none => .ok (⟨(compiled registry options.limits reached).map (fileOf options.outDir),
        refused registry options.limits reached, tableOf (compiled registry options.limits reached)⟩,
        if compiled registry options.limits reached = [] then none
        else some (Path.join options.outDir "lang.map"))
  /-- Apart from the directories above the files, nothing changes but the lookup table and the files
  of the languages that succeed, each of which holds the text of the last one written there. -/
  files : ∃ base, before.makeDirectory options.outDir = .ok base ∧ before.Adds base ∧ ∀ key,
    after.get? key =
      if key = FileTree.keyOf (Path.join options.outDir "lang.map") ∧
          broken? registry options.limits reached = none ∧
          compiled registry options.limits reached ≠ [] then
        some (.file (tableOf (compiled registry options.limits reached)).render.wellFormed)
      else (((compiled registry options.limits reached).reverse.find? fun language =>
          FileTree.keyOf (fileOf options.outDir language) = key).map fun language =>
            .file language.source.wellFormed).or (base.get? key)
  /-- No language is written over by the lookup table. -/
  apart : ∀ language ∈ compiled registry options.limits reached,
    FileTree.keyOf (fileOf options.outDir language) ≠
      FileTree.keyOf (Path.join options.outDir "lang.map")
  /-- The lookup table gives each key to the last language that succeeds and claims it. -/
  keys : ∀ key, Table.get? (tableOf (compiled registry options.limits reached)) key =
    ((compiled registry options.limits reached).reverse.find? fun language =>
      key ∈ LookupTable.claimed language.language).map CompiledLanguage.fileName

namespace Accounted

variable {reached : List Language} {before after : FileTree}
  {result : Except Failure (Batch GrammarError × Option Text)}

theorem report_of_made (accounted : Accounted registry options reached before result after)
    (sound : broken? registry options.limits reached = none)
    (made : compiled registry options.limits reached ≠ []) :
    result = .ok (⟨(compiled registry options.limits reached).map (fileOf options.outDir),
      refused registry options.limits reached, tableOf (compiled registry options.limits reached)⟩,
      some (Path.join options.outDir "lang.map")) := by
  have report := accounted.report
  rw [sound] at report
  dsimp only at report
  rwa [if_neg made] at report

/-- What stands where languages are written is the text of the last one of them. -/
theorem get?_of_made (accounted : Accounted registry options reached before result after)
    {key : List Text} {language : CompiledLanguage}
    (last : (compiled registry options.limits reached).reverse.find? (fun language =>
      FileTree.keyOf (fileOf options.outDir language) = key) = some language) :
    after.get? key = some (.file language.source.wellFormed) := by
  obtain ⟨base, -, -, files⟩ := accounted.files
  have made := List.mem_reverse.1 (List.mem_of_find?_eq_some last)
  have here : FileTree.keyOf (fileOf options.outDir language) = key := by
    simpa using List.find?_some last
  rw [files, if_neg fun all => accounted.apart language made (here.trans all.1), last]
  rfl

end Accounted

/-- What a batch of languages does is told from what each language becomes alone. -/
theorem languages_accounted {list : List Language}
    {result : Except Failure (Batch GrammarError × Option Text)} {last : Workplace}
    (ran : (Batch.languages registry options list).run.run place = (result, last))
    (allowed : ∀ e, result ≠ .error (.file e)) :
    Accounted registry options (tried registry options list) place.tree result last.tree ∧
    (options.failFast = true →
      tried registry options list = list.takeWhile (succeeds registry options.limits) ++
        (list.dropWhile (succeeds registry options.limits)).take 1) ∧
    (options.failFast = false → broken? registry options.limits (tried registry options list) = none →
      tried registry options list = list) ∧
    Batch.languages registry options (tried registry options list) =
      Batch.languages registry options list := by
  refine ⟨?_, fun fast => tried_failFast fast list, fun slow sound => ?_, ?_⟩
  · obtain ⟨base, made, does⟩ := languages_cases ran allowed
    refine ⟨?_, ⟨base, made, FileTree.adds_of_makeDirectory made, fun key => ?_⟩,
      fun language _ => keyOf_fileOf_ne _ language, get?_tableOf _⟩
    · cases broken : broken? registry options.limits (tried registry options list) with
      | some e =>
        rw [broken] at does
        exact does.1
      | none =>
        rw [broken] at does
        exact does.1
    · cases broken : broken? registry options.limits (tried registry options list) with
      | some e =>
        rw [broken] at does
        rw [FileTree.get?_writeAll does.2, written?_compiled, if_neg (fun all => nomatch all.2.1)]
      | none =>
        rw [broken] at does
        rw [FileTree.get?_writeAll does.2, FileTree.written?_append, written?_compiled,
          written?_tableWrites]
        simp only [isEmpty_tableOf, List.isEmpty_eq_false_iff, true_and]
        split
        · rfl
        · rw [Option.none_or]
  · unfold tried
    rw [slow]
    apply Plan.tried_eq_self
    rw [breakdown?_languagePlan, ← sound, tried, slow]
  · unfold Batch.languages run
    simp only [tried, runFrom_tried]

/-- A language without anything but a name, a file name and the rules of its root state. -/
def rooted (name : Text) (rules : List Rule) : Language where
  name := name
  aliases := []
  filenames := ["*.tiny"]
  aliasFilenames := []
  graph := [("root", rules)]
  sourceFile := none

/-- Languages of which the second one cannot be compiled, and the third one takes the file and the
keys of the first. -/
def mixed : List Language := [
  rooted "Tiny Lang" [.literal "foo" (.literal "Key")],
  rooted "Broken" [.literal "(?<=a)b" (.literal "T")],
  rooted "tiny lang" [.literal "bar" (.literal "Key")]]

/-- How a batch is run in a directory of its own. -/
def outOptions (failFast : Bool) (limits : Limits) : BatchOptions :=
  ⟨"/out", failFast, .plain, limits⟩

/-- The batch goes on behind the language that fails, and ends at it if it is to end at the first
failure. -/
theorem languages_accounted_mixed :
    (∃ batch last, (Batch.languages ⟨mixed⟩ (outOptions false .standard) mixed).run.run
        ⟨.empty, []⟩ = (.ok (batch, some "/out/lang.map"), last) ∧
      batch.written = ["/out/tiny-lang.lang", "/out/tiny-lang.lang"] ∧
      batch.failures.map Prod.fst = ["Broken"] ∧
      last.tree.get? ["out", "tiny-lang.lang"] =
        some (.file "# autogenerated from the tiny lang lexer grammar\nKey = 'bar'\n")) ∧
    ∃ batch last, (Batch.languages ⟨mixed⟩ (outOptions true .standard) mixed).run.run
        ⟨.empty, []⟩ = (.ok (batch, some "/out/lang.map"), last) ∧
      batch.written = ["/out/tiny-lang.lang"] ∧ batch.failures.map Prod.fst = ["Broken"] ∧
      last.tree.get? ["out", "tiny-lang.lang"] =
        some (.file "# autogenerated from the Tiny Lang lexer grammar\nKey = 'foo'\n") := by
  have goes (options : BatchOptions) (written : List Text) (text : Text)
      (gives : ((Batch.languages ⟨mixed⟩ options mixed).run.run ⟨.empty, []⟩).1.toOption.isSome =
        true)
      (sound : (broken? ⟨mixed⟩ options.limits (tried ⟨mixed⟩ options mixed)).isNone = true)
      (table : Path.join options.outDir "lang.map" = "/out/lang.map")
      (files : (compiled ⟨mixed⟩ options.limits (tried ⟨mixed⟩ options mixed)).map
        (fileOf options.outDir) = written)
      (failed : (refused ⟨mixed⟩ options.limits (tried ⟨mixed⟩ options mixed)).map Prod.fst =
        ["Broken"])
      (holds : ((compiled ⟨mixed⟩ options.limits (tried ⟨mixed⟩ options mixed)).reverse.find?
        fun language => FileTree.keyOf (fileOf options.outDir language) =
          ["out", "tiny-lang.lang"]).map (·.source.wellFormed) = some text) :
      ∃ batch last, (Batch.languages ⟨mixed⟩ options mixed).run.run ⟨.empty, []⟩ =
          (.ok (batch, some "/out/lang.map"), last) ∧
        batch.written = written ∧ batch.failures.map Prod.fst = ["Broken"] ∧
        last.tree.get? ["out", "tiny-lang.lang"] = some (.file text) := by
    rcases ran : (Batch.languages ⟨mixed⟩ options mixed).run.run ⟨.empty, []⟩ with ⟨result, last⟩
    have allowed : ∀ e, result ≠ .error (.file e) := by
      rintro e rfl
      rw [ran] at gives
      cases gives
    have accounted := (languages_accounted ran allowed).1
    obtain ⟨language, found, rfl⟩ := Option.map_eq_some_iff.1 holds
    have made := List.mem_reverse.1 (List.mem_of_find?_eq_some found)
    have report := accounted.report_of_made (Option.isNone_iff_eq_none.1 sound)
      (List.ne_nil_of_mem made)
    rw [table] at report
    subst report
    exact ⟨_, last, rfl, files, failed, accounted.get?_of_made found⟩
  constructor
  · exact goes (outOptions false .standard) _ _ (by decide +kernel) (by decide +kernel) (by decide)
      (by decide +kernel) (by decide +kernel) (by decide +kernel)
  · exact goes (outOptions true .standard) _ _ (by decide +kernel) (by decide +kernel) (by decide)
      (by decide +kernel) (by decide +kernel) (by decide +kernel)

/-- A language whose samples are longer than a text can be. -/
def lengthy : Language :=
  rooted "lengthy" [.literal "($\x7b4294967296\x7d)" (.compound [.dynamic ⟨"this", none⟩])]

/-- The batch of a language that breaks down gives no report, although the files allow everything. -/
theorem languages_unreported :
    ∃ failure last, (Batch.languages ⟨[lengthy]⟩
        (outOptions false { Limits.standard with expansionLimit := .integer 4294967296 })
        [lengthy]).run.run ⟨.empty, []⟩ = (.error failure, last) ∧
      (∀ e, failure ≠ .file e) ∧ succeeds ⟨[lengthy]⟩
        { Limits.standard with expansionLimit := .integer 4294967296 } lengthy = false := by
  have breaks : (match ((Batch.languages ⟨[lengthy]⟩
      (outOptions false { Limits.standard with expansionLimit := .integer 4294967296 })
      [lengthy]).run.run ⟨.empty, []⟩).1 with
    | .error (.grammar _) => true
    | _ => false) = true := by
    decide +kernel
  have fails : succeeds ⟨[lengthy]⟩
      { Limits.standard with expansionLimit := .integer 4294967296 } lengthy = false := by
    decide +kernel
  rcases ran : (Batch.languages ⟨[lengthy]⟩
    (outOptions false { Limits.standard with expansionLimit := .integer 4294967296 })
    [lengthy]).run.run ⟨.empty, []⟩ with ⟨result, last⟩
  rw [ran] at breaks
  split at breaks
  · next report broken =>
    subst broken
    exact ⟨_, last, rfl, nofun, fails⟩
  · cases breaks

end Batch

end Highlight
