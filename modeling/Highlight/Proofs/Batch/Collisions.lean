import Highlight.Proofs.Batch.Languages
import Highlight.Proofs.Catalogue.Registry
import Highlight.Proofs.Compilation.EmittedPatterns
import Highlight.Proofs.Files.Paths

/-!
# Languages that share a file

A registry takes no two languages whose names differ in letter case only
(`Registry.ofLanguages_eq_ok_iff`). The file of a language is named more coarsely, with hyphens for
blanks, so two languages of a registry may still share one. After a batch each file holds the
definition of the last language that it belongs to (`Batch.get?_fileKey`): a language that shares its
file with no other one finds its own there, whatever becomes of the rest (`Batch.languages_held`).
-/

namespace Highlight

namespace Batch

variable {registry : Registry} {options : BatchOptions} {list : List Language}
  {place last : Workplace} {batch : Batch GrammarError} {file? : Option Text} {language : Language}
  {made : CompiledLanguage}

/-- Where the file of a language is kept. -/
def fileKey (directory : Text) (language : Language) : List Text :=
  FileTree.keyOf (Path.join directory (Definition.fileName language.name))

theorem fileKey_language (compiles : language.compile options.limits registry.get? = .ok made)
    (directory : Text) : FileTree.keyOf (fileOf directory made) = fileKey directory language := by
  rw [← (Language.compile_eq_ok_iff.1 compiles).1]
  rfl

/-- The languages whose files are asked for, and what each of them holds after the batch: the
definition of the last language that is written there. -/
theorem get?_fileKey (ran : (Batch.languages registry options list).run.run place =
      (.ok (batch, file?), last))
    (reached : language ∈ tried registry options list)
    (compiles : language.compile options.limits registry.get? = .ok made) :
    ∃ holder ∈ tried registry options list, ∃ held,
      holder.compile options.limits registry.get? = .ok held ∧
      fileKey options.outDir holder = fileKey options.outDir language ∧
      last.tree.get? (fileKey options.outDir language) = some (.file held.source.wellFormed) := by
  obtain ⟨base, -, does⟩ := languages_cases ran nofun
  cases broken : broken? registry options.limits (tried registry options list) with
  | some e =>
    rw [broken] at does
    cases does.1
  | none =>
    rw [broken] at does
    obtain ⟨-, wrote⟩ := does
    have here := fileKey_language compiles options.outDir
    have own : made ∈ compiled registry options.limits (tried registry options list) :=
      List.mem_filterMap.2 ⟨language, reached, by rw [compiles]; rfl⟩
    obtain ⟨held, found⟩ : ∃ held, (compiled registry options.limits
        (tried registry options list)).reverse.find? (fun made =>
          FileTree.keyOf (fileOf options.outDir made) = fileKey options.outDir language) =
        some held := by
      rw [← Option.isSome_iff_exists, List.find?_isSome]
      exact ⟨made, List.mem_reverse.2 own, decide_eq_true here⟩
    have written := List.mem_reverse.1 (List.mem_of_find?_eq_some found)
    obtain ⟨holder, listed, makes⟩ := List.mem_filterMap.1 written
    have makes := eq_ok_of_toOption makes
    refine ⟨holder, listed, held, makes, ?_, ?_⟩
    · rw [← fileKey_language makes]
      simpa using List.find?_some found
    · rw [FileTree.get?_writeAll wrote, FileTree.written?_append, written?_compiled,
        written?_tableWrites, if_neg fun all => keyOf_fileOf_ne _ made (here.trans all.1), found]
      rfl

theorem languages_report (ran : (Batch.languages registry options list).run.run place =
      (.ok (batch, file?), last)) :
    broken? registry options.limits (tried registry options list) = none ∧
      batch.failures = refused registry options.limits (tried registry options list) := by
  obtain ⟨base, -, does⟩ := languages_cases ran nofun
  cases broken : broken? registry options.limits (tried registry options list) with
  | some e =>
    rw [broken] at does
    cases does.1
  | none =>
    rw [broken] at does
    cases does.1
    exact ⟨rfl, rfl⟩

/-- The languages that are reported are those that cannot be compiled. -/
theorem not_mem_refused_iff {languages : List Language} (distinct : Registry.Distinct languages)
    {limits : Limits} {reached : List Language} (part : reached ⊆ languages)
    (listed : language ∈ reached) :
    language.name ∉ (refused registry limits reached).map Prod.fst ↔
      ∃ made, language.compile limits registry.get? = .ok made := by
  constructor
  · intro absent
    cases compiles : language.compile limits registry.get? with
    | ok made => exact ⟨made, rfl⟩
    | error e =>
      refine absurd (List.mem_map.2 ⟨(language.name, e), ?_, rfl⟩) absent
      exact List.mem_filterMap.2 ⟨language, listed, by rw [compiles]; rfl⟩
  · rintro ⟨made, compiles⟩ present
    obtain ⟨failure, failed, named⟩ := List.mem_map.1 present
    obtain ⟨other, reached, fails⟩ := List.mem_filterMap.1 failed
    obtain ⟨e, fails, rfl⟩ := Option.map_eq_some_iff.1 fails
    have same := distinct.eq_of_lower (part reached) (part listed) (congrArg Text.lower named)
    rw [same, compiles] at fails
    cases fails

/-- A language that a batch over its registry does not report finds its own definition in its file,
if no other language that is not reported shares the file. In any case the file holds the whole
definition of such a language, one of another name in case it is another one. -/
theorem languages_held (accepted : Registry.ofLanguages list = .ok registry)
    (ran : (Batch.languages registry options registry.languages).run.run place =
      (.ok (batch, file?), last)) :
    (options.failFast = false →
      tried registry options registry.languages = registry.languages) ∧
    ∀ language ∈ tried registry options registry.languages,
      language.name ∉ batch.failures.map Prod.fst →
      ∃ made, language.compile options.limits registry.get? = .ok made ∧
        ((∀ other ∈ registry.languages, other.name ∉ batch.failures.map Prod.fst →
            fileKey options.outDir other = fileKey options.outDir language → other = language) →
          last.tree.get? (fileKey options.outDir language) =
            some (.file made.source.wellFormed)) ∧
        ∃ holder ∈ tried registry options registry.languages, ∃ held,
          holder.name ∉ batch.failures.map Prod.fst ∧
          holder.compile options.limits registry.get? = .ok held ∧
          fileKey options.outDir holder = fileKey options.outDir language ∧
          last.tree.get? (fileKey options.outDir language) =
            some (.file held.source.wellFormed) ∧
          (holder = language ∨ Text.lower holder.name ≠ Text.lower language.name) := by
  obtain ⟨rfl, distinct⟩ := Registry.ofLanguages_eq_ok_iff.1 accepted
  obtain ⟨sound, report⟩ := languages_report ran
  have part : tried ⟨list⟩ options list ⊆ list := fun _ => Plan.mem_of_mem_tried
  refine ⟨fun slow => ?_, fun language reached absent => ?_⟩
  · unfold tried at sound ⊢
    rw [← breakdown?_languagePlan] at sound
    rw [slow] at sound ⊢
    exact Plan.tried_eq_self sound
  · rw [report] at absent
    obtain ⟨made, compiles⟩ := (not_mem_refused_iff distinct part reached).1 absent
    obtain ⟨holder, listed, held, makes, same, stands⟩ := get?_fileKey ran reached compiles
    have unreported := (not_mem_refused_iff distinct part listed).2 ⟨held, makes⟩
    rw [← report] at unreported
    refine ⟨made, compiles, fun alone => ?_, holder, listed, held, unreported, makes, same, stands, ?_⟩
    · rw [alone holder (part listed) unreported same, compiles] at makes
      cases makes
      exact stands
    · by_cases own : Text.lower holder.name = Text.lower language.name
      · exact .inl (distinct.eq_of_lower (part listed) (part reached) own)
      · exact .inr own

/-- What a report says of files and failures, and the lookup table. -/
def summary (report : Batch GrammarError × Option Text) : List Text × List Text × Option Text :=
  (report.1.written, report.1.failures.map Prod.fst, report.2)

theorem exists_report (job : Job (Batch GrammarError × Option Text)) (place : Workplace)
    (files failed : List Text) (table : Option Text)
    (gives : (job.run.run place).1.toOption.map summary = some (files, failed, table)) :
    ∃ batch, job.run.run place = (.ok (batch, table), (job.run.run place).2) ∧
      batch.written = files ∧ batch.failures.map Prod.fst = failed := by
  obtain ⟨⟨batch, file?⟩, ok, same⟩ := Option.map_eq_some_iff.1 gives
  cases same
  exact ⟨batch, Prod.ext (eq_ok_of_toOption ok) rfl, rfl, rfl⟩

/-- Languages of which two share a file, and the first of these cannot be compiled. -/
def apart : List Language := [
  rooted "Tiny Lang" [.literal "foo" (.literal "Key")],
  rooted "Broken-Lang" [.literal "(?<=a)b" (.literal "T")],
  rooted "broken lang" [.literal "bar" (.literal "Key")]]

/-- A language that cannot be compiled does not take the file of another one. -/
theorem languages_held_apart : Registry.ofLanguages apart = .ok ⟨apart⟩ ∧ ∃ batch last made,
    (Batch.languages ⟨apart⟩ (outOptions false .standard) apart).run.run ⟨.empty, []⟩ =
      (.ok (batch, some "/out/lang.map"), last) ∧
    batch.failures.map Prod.fst = ["Broken-Lang"] ∧
    (rooted "broken lang" [.literal "bar" (.literal "Key")]).compile .standard
      (Registry.get? ⟨apart⟩) = .ok made ∧
    last.tree.get? ["out", "broken-lang.lang"] = some (.file made.source.wellFormed) := by
  have accepted : Registry.ofLanguages apart = .ok ⟨apart⟩ :=
    Registry.ofLanguages_eq_ok_iff.2 ⟨rfl, by decide +kernel⟩
  obtain ⟨batch, ran, -, failed⟩ := exists_report
    (Batch.languages ⟨apart⟩ (outOptions false .standard) apart) ⟨.empty, []⟩
    ["/out/tiny-lang.lang", "/out/broken-lang.lang"] ["Broken-Lang"] (some "/out/lang.map")
    (by decide +kernel)
  obtain ⟨all, held⟩ := languages_held accepted ran
  have listed : rooted "broken lang" [.literal "bar" (.literal "Key")] ∈ apart := by
    simp [apart]
  obtain ⟨made, compiles, own, -⟩ := held _ (by rw [all rfl]; exact listed) (by rw [failed]; decide)
  refine ⟨accepted, batch, _, made, ran, failed, compiles, own fun other among absent same => ?_⟩
  rw [failed] at absent
  obtain rfl | rfl | rfl : other = _ ∨ other = _ ∨ other = _ := by simpa [apart] using among
  · exact absurd same (by decide +kernel)
  · exact absurd absent (by decide)
  · rfl

/-- Two languages of different names, which a registry takes together and which share a file. -/
def twins : List Language := [
  rooted "tiny lang" [.literal "foo" (.literal "Key")],
  rooted "tiny-lang" [.literal "bar" (.literal "Key")]]

/-- Both languages are reported as written, and the file holds only the second one. -/
theorem languages_overwritten :
    Registry.ofLanguages twins = .ok ⟨twins⟩ ∧ ∃ batch last,
      (Batch.languages ⟨twins⟩ (outOptions false .standard) twins).run.run ⟨.empty, []⟩ =
        (.ok (batch, some "/out/lang.map"), last) ∧
      batch.failures.map Prod.fst = [] ∧
      batch.written = ["/out/tiny-lang.lang", "/out/tiny-lang.lang"] ∧
      ∃ language ∈ twins, ∃ made,
        language.compile .standard (Registry.get? ⟨twins⟩) = .ok made ∧
        made.source = "# autogenerated from the tiny lang lexer grammar\nKey = 'foo'\n" ∧
        last.tree.get? (fileKey "/out" language) =
          some (.file "# autogenerated from the tiny-lang lexer grammar\nKey = 'bar'\n") := by
  obtain ⟨batch, ran, written, failed⟩ := exists_report
    (Batch.languages ⟨twins⟩ (outOptions false .standard) twins) ⟨.empty, []⟩
    ["/out/tiny-lang.lang", "/out/tiny-lang.lang"] [] (some "/out/lang.map") (by decide +kernel)
  obtain ⟨made, compiles, source⟩ := Option.map_eq_some_iff.1 (show
    (((rooted "tiny lang" [.literal "foo" (.literal "Key")]).compile .standard
      (Registry.get? ⟨twins⟩)).toOption.map CompiledLanguage.source) =
        some "# autogenerated from the tiny lang lexer grammar\nKey = 'foo'\n" by decide +kernel)
  exact ⟨Registry.ofLanguages_eq_ok_iff.2 ⟨rfl, by decide +kernel⟩, batch, _, ran, failed, written,
    _, List.mem_cons_self, made, eq_ok_of_toOption compiles, source, by decide +kernel⟩

end Batch

end Highlight
