import Highlight.Proofs.Batch.Confinement
import Highlight.Proofs.Command.Stages
import Highlight.Proofs.Files.Plain

/-!
# Running again

A run reads documents only: its configuration, and the languages and styles of its catalogue. It
writes none (`Command.Found.changes_spare`), whatever names the catalogue gives its outputs, and the
directories that it makes lie on the way to its output directory. So a second run with the same
arguments finds what the first one found (`Command.finds_again`), and then it makes the same changes
over what they have left. `Command.run_again` is the whole run; of the searches it assumes what
`FileTree.Searched` says.
-/

namespace Highlight

namespace Command

open FileTree (Change)

variable {env : Environment} {config : Config} {options : BatchOptions}

/-! ## Outputs -/

theorem changes_spare_of_plan {α ε : Type} {plan : Plan α ε} {items : List α}
    (names : ∀ item ∈ items, ∀ product, plan.make item = .ok product → ∀ file ∈ product.files,
      FileTree.isDocument (FileTree.keyOf (Path.join options.outDir file.1)) = false)
    (table : FileTree.isDocument (FileTree.keyOf (Path.join options.outDir plan.tableFile)) = false) :
    ∀ change ∈ plan.changes options items, change.Spares ∧
      ∀ path, change = .directory path → path = options.outDir := by
  intro change listed
  obtain rfl | ⟨name, text, rfl, named | ⟨item, among, product, makes, own⟩⟩ :=
    Plan.changes_cases listed
  · exact ⟨trivial, fun path same => (Change.directory.inj same).symm⟩
  · exact ⟨named ▸ table, nofun⟩
  · exact ⟨names item among product makes _ own, nofun⟩

theorem changes_spare (found : Found) : ∀ change ∈ found.changes env config options,
    change.Spares ∧ ∀ path, change = .directory path → path = options.outDir := by
  intro change listed
  obtain language | style := List.mem_append.1 listed
  · refine changes_spare_of_plan (fun language among product makes file held => ?_) ?_ _ language
    · obtain ⟨compiled, compiles, rfl⟩ := except_map_eq_ok_iff.1 makes
      rw [List.mem_singleton.1 held]
      exact FileTree.isDocument_join _ ".lan" (by decide) (by decide) (by decide) (by decide) _
    · exact FileTree.isDocument_join [] "lang.ma" (by decide) (by decide)
        (by decide) (by decide) _
  · cases styles : found.styles with
    | none =>
      rw [styles] at style
      cases style
    | some loaded =>
      rw [styles] at style
      refine changes_spare_of_plan (fun style among product makes file held => ?_) ?_ _ style
      · obtain ⟨compiled, compiles, rfl⟩ := except_map_eq_ok_iff.1 makes
        obtain sheet | map := List.mem_pair.1 held
        · rw [sheet]
          exact FileTree.isDocument_join _ ".styl" (by decide) (by decide) (by decide)
            (by decide) _
        · rw [map]
          exact FileTree.isDocument_join _ "_esc256.outlan" (by decide) (by decide)
            (by decide) (by decide) _
      · exact FileTree.isDocument_join [] "outlang.ma" (by decide) (by decide)
          (by decide) (by decide) _

/-! ## Inputs -/

variable {tree tree' : FileTree} {catalogue : Text}

theorem document_languages : Text.ofString ".json" <:+ Registry.files.ending := by decide

theorem document_styles : Text.ofString ".json" <:+ Style.files.ending := by decide

/-- The files that a search found are read as before. -/
theorem read_found {pattern : FilePattern} {found : List Text} (grows : tree.Grows tree')
    (named : Text.ofString ".json" <:+ pattern.ending)
    (searched : tree.Searched catalogue pattern)
    (gives : tree.discover catalogue pattern = .ok found) :
    ∀ path ∈ found, tree'.read path = tree.read path := by
  intro path listed
  obtain ⟨below, name, leads, ends⟩ := searched.named found gives path listed
  refine grows.read ?_ (searched.held found gives path listed)
  rw [leads]
  exact FileTree.isDocument_append (named.trans ends)

/-- Languages are loaded as before from a directory that was there. -/
theorem load_grown (grows : tree.Grows tree')
    (there : tree.find (FileTree.slashed catalogue) = .ok .directory)
    (searched : tree.Searched catalogue Registry.files) :
    Registry.load tree' catalogue Registry.files = Registry.load tree catalogue Registry.files := by
  unfold Registry.load
  rw [grows.discover document_languages there]
  cases gives : tree.discover catalogue Registry.files with
  | error e => rfl
  | ok found =>
    have reads := read_found grows document_languages searched gives
    refine congrArg Except.ok (List.foldl_ext _ _ _ fun loaded path listed => ?_)
    unfold Registry.Loaded.load Registry.withFile
    rw [reads path listed]

/-- Styles are loaded as before from a directory that was there. -/
theorem loadStyles_grown (grows : tree.Grows tree')
    (there : tree.find (FileTree.slashed catalogue) = .ok .directory)
    (searched : tree.Searched catalogue Style.files) :
    Style.load tree' catalogue = Style.load tree catalogue := by
  unfold Style.load
  rw [grows.discover document_styles there]
  cases gives : tree.discover catalogue Style.files with
  | error e => rfl
  | ok found =>
    have reads := read_found grows document_styles searched gives
    refine congrArg Except.ok (List.foldl_ext _ _ _ fun loaded path listed => ?_)
    unfold Style.Loaded.load Style.ofFile
    rw [reads path listed]

theorem standardFile_name : Path.IsFileName Layer.standardFile := by decide

theorem standardFile_wellFormed : Layer.standardFile.wellFormed = Layer.standardFile := by decide

theorem isDocument_standardFile (directory : Text) :
    FileTree.isDocument (FileTree.keyOf (Path.join directory Layer.standardFile)) = true := by
  rw [FileTree.keyOf_join standardFile_name, FileTree.isDocument, List.getLast?_concat]
  decide

/-- The configuration file that is read when no other is named stays as it is, unless its place
becomes a directory. -/
theorem settings_grown {options : Options} (standard : options.configPath = none)
    (grows : tree.Grows tree')
    (vacant : tree.get? (FileTree.keyOf (Path.join env.directory Layer.standardFile)) = none →
      tree'.get? (FileTree.keyOf (Path.join env.directory Layer.standardFile)) = none) :
    settings env options tree' = settings env options tree := by
  obtain ⟨absolute, parts⟩ := standardFile_name.exists_parts_join env.directory
  have direct := FileTree.direct_of_parts parts
  have document := isDocument_standardFile env.directory
  set file := Path.join env.directory Layer.standardFile with given
  have load : Layer.load? tree' env.directory none = Layer.load? tree env.directory none := by
    unfold Layer.load?
    dsimp only
    rw [show Layer.fileOf env.directory none = file from rfl]
    obtain same | ⟨left, right⟩ := grows.find_document direct document vacant
    · rw [FileTree.has, FileTree.has, FileTree.read, FileTree.read, same]
    · rw [left, right]
      rfl
  unfold settings
  rw [standard, load]

/-- Nothing is found in a catalogue that was missing, once only directories have been made. -/
theorem found_nothing (connected : tree.Connected)
    (missing : tree.find (FileTree.slashed (catalogueOf env config)) = .error .notFound)
    (same : tree'.files = tree.files) {pattern : FilePattern} {found : List Text}
    (gives : tree'.discover (catalogueOf env config) pattern = .ok found)
    (named : ∀ path ∈ found, ∃ below name, FileTree.keyOf path =
      FileTree.keyOf (catalogueOf env config) ++ (below ++ [name]) ∧ pattern.ending <:+ name) :
    found = [] := by
  by_cases backslash : unit '\\' ∈ catalogueOf env config
  · rw [List.eq_nil_iff_forall_not_mem]
    intro path listed
    obtain ⟨-, rfl⟩ | ⟨-, all⟩ := FileTree.discover_eq_ok_iff.1 gives
    · cases listed
    · obtain ⟨below, name, leads, -⟩ := named path listed
      rw [all, Text.sort, List.mem_mergeSort] at listed
      obtain ⟨parts, -, rfl⟩ := List.mem_map.1 listed
      exact FileTree.keyOf_slashed_ne backslash _ leads
  · have plain := FileTree.slashed_eq_self backslash
    rw [plain] at missing
    exact connected.discover_made plain (FileTree.direct_resolve _ _) missing same gives

theorem select_empty (names : List Text) : (Registry.empty.select names).languages = [] := by
  have none (selection : Registry.Selection) (names : List Text) :
      (names.foldl Registry.empty.request selection).languages = selection.languages := by
    induction names generalizing selection with
    | nil => rfl
    | cons name names ih => exact ih _
  exact none _ names

theorem languagesStage_empty (env : Environment) (config : Config) (options : BatchOptions) :
    (languagesStage env config options ⟨.empty, []⟩).changes = [.directory options.outDir] := by
  have nothing : (selection config Registry.empty).languages = [] := by
    unfold selection
    split
    · rfl
    · exact select_empty _
  unfold languagesStage
  dsimp only
  rw [nothing]
  rfl

theorem stylesStage_empty (config : Config) (options : BatchOptions) :
    (stylesStage config options ⟨[], []⟩).changes = [.directory options.outDir] := by
  have nothing : selectStyles config [] = [] := by
    unfold selectStyles
    dsimp only
    split <;> rfl
  unfold stylesStage
  dsimp only
  rw [nothing]
  rfl

/-! ## The second run -/

/-- What is assumed of the searches of a run. -/
structure CatalogueSearched (env : Environment) (config : Config) (tree : FileTree) : Prop where
  languages : tree.Searched (catalogueOf env config) Registry.files
  styles : tree.Searched (catalogueOf env config) Style.files

theorem load_eq_ok_iff {loaded : Registry.Loaded} :
    Registry.load tree catalogue Registry.files = .ok loaded ↔ ∃ found,
      tree.discover catalogue Registry.files = .ok found ∧
        loaded = found.foldl (Registry.Loaded.load tree) ⟨.empty, []⟩ := except_map_eq_ok_iff

theorem loadStyles_eq_ok_iff {loaded : Style.Loaded} :
    Style.load tree catalogue = .ok loaded ↔ ∃ found,
      tree.discover catalogue Style.files = .ok found ∧
        loaded = found.foldl (Style.Loaded.load tree) ⟨[], []⟩ := except_map_eq_ok_iff

variable {noStyles : Bool} {after : FileTree} {found : Found}

/-- A catalogue that was there is found again as it was. -/
theorem finds_again_there (connected : tree.Connected)
    (there : tree.find (FileTree.slashed (catalogueOf env config)) = .ok .directory)
    (searched : CatalogueSearched env config tree)
    (finds : Finds env config noStyles options tree found)
    (done : tree.applyAll (found.changes env config options) = .ok after) :
    Finds env config noStyles options after found := by
  have spares : ∀ change ∈ found.changes env config options, change.Spares :=
    fun change listed => (changes_spare found change listed).1
  obtain ⟨again, redone, -⟩ := FileTree.applyAll_again connected done
  obtain ⟨loads, between, problems, made, counted, styles⟩ := finds
  rw [Found.changes, FileTree.applyAll_append] at redone
  obtain ⟨middle, remade, -⟩ := except_bind_eq_ok_iff.1 redone
  have spares' : ∀ change ∈ (languagesStage env config options found.languages).changes,
      change.Spares := fun change listed => spares change (List.mem_append_left _ listed)
  have grows := FileTree.Grows.of_applyAll spares done
  have grows' := grows.trans (FileTree.Grows.of_applyAll spares' remade)
  have early := FileTree.Grows.of_applyAll spares' made
  refine ⟨(load_grown grows there searched.languages).trans loads, middle, problems, remade, counted,
    ?_⟩
  rwa [loadStyles_grown grows' there searched.styles, ← loadStyles_grown early there searched.styles]

/-- There are no languages in a catalogue that is missing. -/
theorem languages_missing {loaded : Registry.Loaded}
    (missing : tree.find (FileTree.slashed catalogue) = .error .notFound)
    (loads : Registry.load tree catalogue Registry.files = .ok loaded) : loaded = ⟨.empty, []⟩ := by
  obtain ⟨list, gives, same⟩ := load_eq_ok_iff.1 loads
  obtain ⟨-, rfl⟩ | ⟨there, -⟩ := FileTree.discover_eq_ok_iff.1 gives
  · exact same
  · rw [missing] at there
    cases there

/-- There are no styles in a catalogue that was missing when the languages were loaded. -/
theorem styles_missing {loaded : Style.Loaded} (connected : tree.Connected)
    (missing : tree.find (FileTree.slashed (catalogueOf env config)) = .error .notFound)
    (same : tree'.files = tree.files) (grows : tree'.Grows after)
    (searched : CatalogueSearched env config after)
    (loads : Style.load tree' (catalogueOf env config) = .ok loaded) : loaded = ⟨[], []⟩ := by
  obtain ⟨list, gives, rfl⟩ := loadStyles_eq_ok_iff.1 loads
  have none : list = [] := by
    refine found_nothing connected missing same gives ?_
    obtain ⟨-, rfl⟩ | ⟨there, -⟩ := FileTree.discover_eq_ok_iff.1 gives
    · exact nofun
    · exact searched.styles.named _ ((grows.discover document_styles there).trans gives)
  rw [none]
  rfl

/-- A catalogue that was missing is still empty. -/
theorem finds_again_missing (connected : tree.Connected)
    (missing : tree.find (FileTree.slashed (catalogueOf env config)) = .error .notFound)
    (searched : CatalogueSearched env config after)
    (finds : Finds env config noStyles options tree found)
    (done : tree.applyAll (found.changes env config options) = .ok after) :
    Finds env config noStyles options after found := by
  obtain ⟨loads, between, problems, made, counted, styles⟩ := finds
  have nothing := languages_missing missing loads
  have spares : ∀ change ∈ found.styles.elim [] fun styles =>
      (stylesStage config options styles).changes, change.Spares := fun change listed =>
    (changes_spare found change (List.mem_append_right
      (languagesStage env config options found.languages).changes listed)).1
  rw [Found.changes, FileTree.applyAll_append, made] at done
  have grows := FileTree.Grows.of_applyAll spares done
  rw [nothing, languagesStage_empty, FileTree.applyAll_singleton] at made
  have same := FileTree.files_makeDirectory made
  have stays : between.makeDirectory options.outDir = .ok between :=
    FileTree.makeDirectory_there (FileTree.makeDirectory_eq_ok made).1 (connected.makeDirectory made).2
  -- Styles are found nowhere either, so the second stage has nothing to do.
  have ends : after = between := by
    by_cases left : leavesStyles config noStyles problems = true
    · rw [if_pos left] at styles
      rw [styles] at done
      cases done
      rfl
    · rw [if_neg left] at styles
      obtain ⟨loaded, loads', chosen⟩ := styles
      rw [chosen, styles_missing connected missing same grows searched loads'] at done
      change between.applyAll (stylesStage config options ⟨[], []⟩).changes = .ok after at done
      rw [stylesStage_empty, FileTree.applyAll_singleton] at done
      exact Except.ok.inj (done.symm.trans stays)
  subst ends
  have none : after.discover (catalogueOf env config) Registry.files = .ok [] := by
    by_cases there : after.find (FileTree.slashed (catalogueOf env config)) = .ok .directory
    · obtain ⟨list, gives⟩ := FileTree.exists_discover Registry.files there
      rw [gives, found_nothing connected missing same gives (searched.languages.named _ gives)]
    · exact searched.languages.missing there
  refine ⟨?_, after, problems, ?_, counted, styles⟩
  · rw [nothing]
    exact load_eq_ok_iff.2 ⟨[], none, rfl⟩
  · rw [nothing, languagesStage_empty, FileTree.applyAll_singleton]
    exact stays

/-- What a run finds in its catalogue, it finds again. -/
theorem finds_again (connected : tree.Connected) (searched : CatalogueSearched env config tree)
    (searched' : CatalogueSearched env config after)
    (finds : Finds env config noStyles options tree found)
    (done : tree.applyAll (found.changes env config options) = .ok after) :
    Finds env config noStyles options after found := by
  obtain ⟨list, gives, -⟩ := load_eq_ok_iff.1 finds.languages
  obtain ⟨missing, -⟩ | ⟨there, -⟩ := FileTree.discover_eq_ok_iff.1 gives
  · exact finds_again_missing connected missing searched' finds done
  · exact finds_again_there connected there searched finds done

/-! ## Arguments -/

theorem configPath_withValue {start next : Options} {flag : Flag} {value : Text}
    (other : flag ≠ .config) (made : start.withValue flag value = .ok next) :
    next.configPath = start.configPath := by
  cases flag with
  | config => exact absurd rfl other
  | maxDepth =>
    obtain ⟨count, -, rfl⟩ := except_map_eq_ok_iff.1 made
    rfl
  | _ =>
    cases made
    rfl

theorem configPath_withDirectory {start next : Options} {argument : Text}
    (made : start.withDirectory argument = .ok next) : next.configPath = start.configPath := by
  unfold Options.withDirectory at made
  split at made
  · cases made
  · split at made <;> cases made
    rfl

theorem eq_config_of_flag {argument : Text} (flag : Flag.ofArgument? argument = some .config) :
    argument = Text.ofString "--config" := by
  have only : ∀ entry ∈ Flag.spellings, entry.2 = .config → entry.1 = Text.ofString "--config" := by
    decide
  exact only _ (Table.mem_of_get? flag) rfl

/-- Only one flag names a configuration file. -/
theorem configPath_of_readFrom {start read : Options} {arguments : List Text}
    (absent : Text.ofString "--config" ∉ arguments) (reads : start.readFrom arguments = .ok read) :
    read.configPath = start.configPath := by
  fun_induction Options.readFrom start arguments with
  | case1 start =>
    cases reads
    rfl
  | case2 start argument rest plain ih =>
    obtain ⟨next, takes, reads⟩ := except_bind_eq_ok_iff.1 reads
    rw [ih next (fun listed => absent (List.mem_cons_of_mem _ listed)) reads,
      configPath_withDirectory takes]
  | case3 start argument flag spells takes value rest valued ih =>
    obtain ⟨next, takes, reads⟩ := except_bind_eq_ok_iff.1 reads
    rw [List.mem_cons, List.mem_cons, not_or, not_or] at absent
    obtain ⟨here, -, later⟩ := absent
    rw [ih next later reads, configPath_withValue ?_ takes]
    rintro rfl
    exact here (eq_config_of_flag spells).symm
  | case4 start argument flag spells takes value rest valued => cases reads
  | case5 start argument flag spells takes => cases reads
  | case6 start argument rest flag spells alone ih =>
    rw [ih (fun listed => absent (List.mem_cons_of_mem _ listed)) reads]
    cases flag <;> rfl

/-- The configuration of a run that works on its catalogue. -/
def workConfig? (env : Environment) (arguments : List Text) (tree : FileTree) : Option Config :=
  match Options.ofArguments arguments with
  | .error _ => none
  | .ok options =>
    if options.help || options.listConfig then none
    else (settings env options tree).toOption.map Config.ofSettings

/-- A run on what another one left has the same exit code, prints and tells the same, and leaves every
file as it is. -/
structure Repeats (first again : Outcome) : Prop where
  result : again.result = first.result
  printed : again.printed = first.printed
  lines : again.lines = first.lines
  files : ∀ key, again.tree.get? key = first.tree.get? key

/-- Nothing takes the place of a configuration file that is missing. -/
theorem vacant_of_changes (done : tree.applyAll (found.changes env config options) = .ok after)
    (outside : Layer.standardFile ∉ FileTree.keyOf options.outDir)
    (vacant : tree.get? (FileTree.keyOf (Path.join env.directory Layer.standardFile)) = none) :
    after.get? (FileTree.keyOf (Path.join env.directory Layer.standardFile)) = none := by
  have spares : ∀ change ∈ found.changes env config options,
      change.Spares ∧ ∀ path, change = .directory path → path = options.outDir := changes_spare found
  have grows := FileTree.Grows.of_applyAll (fun change listed => (spares change listed).1) done
  have leads := FileTree.keyOf_join standardFile_name env.directory
  rcases stands : after.get? (FileTree.keyOf (Path.join env.directory Layer.standardFile))
    with _ | _ | text
  · rfl
  · obtain there | ⟨path, listed, above⟩ := FileTree.directory_of_applyAll done stands
    · rw [vacant] at there
      cases there
    · rw [(spares _ listed).2 path rfl, leads] at above
      refine absurd (above.subset (List.mem_append_right _ List.mem_cons_self)) ?_
      rwa [standardFile_wellFormed]
  · have there := (grows.text _ text (isDocument_standardFile env.directory)).1 stands
    rw [vacant] at there
    cases there

/-- A run that has worked on its catalogue does so again. -/
theorem runWith_again {options : Options} {made : Settings} (works : options.help = false)
    (configured : settings env options tree = .ok made) (listed : options.listConfig = false)
    (unnamed : options.configPath = none) (connected : tree.Connected)
    (outside : Layer.standardFile ∉
      FileTree.keyOf (Path.resolve env.directory (Config.ofSettings made).outDir))
    (searched : CatalogueSearched env (.ofSettings made) tree)
    (searched' : CatalogueSearched env (.ofSettings made) (runWith env options tree).tree) {code : Nat}
    (returns : (runWith env options tree).result = .ok code) :
    Repeats (runWith env options tree) (runWith env options (runWith env options tree).tree) := by
  rcases ran : runWith env options tree with ⟨result, printed, lines, after⟩
  rw [ran] at returns searched'
  cases returns
  obtain ⟨found, count, finds, done, counted, rfl, rfl, rfl⟩ :=
    (runWith_eq_iff works configured listed).1 ran
  have grows := FileTree.Grows.of_applyAll
    (fun change listed => (changes_spare found change listed).1) done
  have configured' : settings env options after = .ok made := by
    rw [settings_grown unnamed grows (vacant_of_changes done outside), configured]
  obtain ⟨again, redone, same⟩ := FileTree.applyAll_again connected done
  have finds' := finds_again connected searched searched' finds done
  rw [(runWith_eq_iff works configured' listed).2
    ⟨found, count, finds', redone, counted, rfl, rfl, rfl⟩]
  exact ⟨rfl, rfl, rfl, same⟩

/-- A run that returns can be made again: it tells the same and changes nothing. -/
theorem run_again {arguments : List Text} {code : Nat} (connected : tree.Connected)
    (standard : Text.ofString "--config" ∉ arguments)
    (outside : ∀ config, workConfig? env arguments tree = some config →
      Layer.standardFile ∉ FileTree.keyOf (Path.resolve env.directory config.outDir))
    (searched : ∀ config, workConfig? env arguments tree = some config →
      CatalogueSearched env config tree ∧
        CatalogueSearched env config (run env arguments tree).tree)
    (returns : (run env arguments tree).result = .ok code) :
    Repeats (run env arguments tree) (run env arguments (run env arguments tree).tree) := by
  have idle (stays : (run env arguments tree).tree = tree) :
      Repeats (run env arguments tree) (run env arguments (run env arguments tree).tree) := by
    rw [stays]
    exact ⟨rfl, rfl, rfl, fun key => rfl⟩
  unfold workConfig? at outside searched
  unfold run at idle returns searched ⊢
  cases accepted : Options.ofArguments arguments with
  | error e =>
    rw [accepted] at idle
    exact idle rfl
  | ok options =>
    rw [accepted] at idle outside searched returns
    dsimp only at idle outside searched returns ⊢
    cases help : options.help with
    | true => exact idle (by rw [runWith_of_help help]; rfl)
    | false =>
      cases configured : settings env options tree with
      | error e => exact idle (by rw [runWith_of_refused help configured]; rfl)
      | ok made =>
        cases listing : options.listConfig with
        | true => exact idle (by rw [runWith_of_listing help configured listing]; rfl)
        | false =>
          rw [help, listing, configured] at outside searched
          obtain ⟨early, late⟩ := searched _ rfl
          exact runWith_again help configured listing (configPath_of_readFrom standard accepted)
            connected (outside _ rfl) early late returns

/-! ## A run over its own catalogue -/

/-- A catalogue with a language and a style. -/
def mixedTree : FileTree :=
  ⟨[(["work"], .directory), (["work", "catalogue"], .directory),
    (["work", "catalogue", "tiny.lexer.json"],
      .file "\x7b\"name\":\"Tiny Lang\",\"tokens\":\x7b\"root\":[]\x7d\x7d"),
    (["work", "catalogue", "night.style.json"],
      .file "\x7b\"name\":\"Night\",\"styles\":\x7b\"Comment\":\"#000080\"\x7d\x7d")]⟩

/-- The run that writes its outputs among the documents of the catalogue. -/
def mixedRun (tree : FileTree) : Outcome :=
  run ⟨"/work", false⟩ ["--out", "catalogue"] tree

/-- What the run leaves. -/
def mixedKeys : List (List Text) := [
  ["work"], ["work", "catalogue"], ["work", "catalogue", "tiny.lexer.json"],
  ["work", "catalogue", "night.style.json"], ["work", "catalogue", "tiny-lang.lang"],
  ["work", "catalogue", "lang.map"], ["work", "catalogue", "night.style"],
  ["work", "catalogue", "night_esc256.outlang"], ["work", "catalogue", "outlang.map"]]

/-- The run that writes its outputs among the documents of its catalogue can be made again. -/
theorem run_again_mixed :
    (mixedRun mixedTree).result = .ok 0 ∧
      Table.keys (mixedRun mixedTree).tree.items = mixedKeys ∧
      Repeats (mixedRun mixedTree) (mixedRun (mixedRun mixedTree).tree) := by
  have returns : (mixedRun mixedTree).result = .ok 0 := eq_ok_of_toOption (by decide +kernel)
  have keys : Table.keys (mixedRun mixedTree).tree.items = mixedKeys := by decide +kernel
  have connected : mixedTree.Connected := .of_items (by decide +kernel)
  have places : (workConfig? ⟨"/work", false⟩ ["--out", "catalogue"] mixedTree).map
      (fun config => (config.catalogueDir, config.outDir)) =
        some (Text.ofString "./catalogue", Text.ofString "catalogue") := by decide +kernel
  have before : mixedTree.Plain := ⟨by decide +kernel, by decide +kernel⟩
  have after : (mixedRun mixedTree).tree.Plain :=
    ⟨keys ▸ by decide +kernel, keys ▸ by decide +kernel⟩
  have there : mixedTree.find "/work/catalogue" = .ok .directory := by decide +kernel
  have still : (mixedRun mixedTree).tree.find "/work/catalogue" = .ok .directory := by decide +kernel
  refine ⟨returns, keys, run_again connected (by decide) ?_ ?_ returns⟩
  · intro config works
    obtain ⟨-, out⟩ := Prod.mk.inj (Option.some.inj ((congrArg _ works).symm.trans places))
    rw [out]
    decide
  · intro config works
    obtain ⟨catalogue, -⟩ := Prod.mk.inj (Option.some.inj ((congrArg _ works).symm.trans places))
    have leads : catalogueOf ⟨"/work", false⟩ config = Text.ofString "/work/catalogue" := by
      rw [catalogueOf, catalogue]
      decide
    constructor <;> constructor <;> rw [leads]
    · exact .of_plain before (by decide) there
    · exact .of_plain before (by decide) there
    · exact .of_plain after (by decide) still
    · exact .of_plain after (by decide) still

end Command

end Highlight
