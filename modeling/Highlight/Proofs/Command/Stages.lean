import Highlight.Command.Run
import Highlight.Proofs.Batch.Jobs

/-!
# The stages of a run

A run loads and makes the languages, and then the styles. Once its part of the catalogue is loaded, a
stage does one row of changes, tells one row of messages and counts its problems
(`Command.does_languagesOf`, `Command.does_stylesOf`). So a whole run is told by what it finds in the
catalogue (`Command.Finds`): `Command.work_eq_ok_iff` gives its changes, its log and its problems.
-/

namespace Highlight

open FileTree (Change)

namespace Job.Does

variable {α : Type}

/-- Telling a row of errors. -/
theorem tellEach (list : List α) (text : α → Text) :
    Does (list.forM fun a => Job.tell .error (text a)) []
      (list.map fun a => ⟨.error, text a⟩) (.ok ⟨⟩) := by
  induction list with
  | nil => exact .pure _
  | cons a list ih => exact (Does.tell _ _).after ih

/-- A batch, and behind it a part that changes nothing. -/
theorem batch {ε : Type} (plan : Plan α ε) (options : BatchOptions) (items : List α)
    {next : Batch ε → Job Nat} {notes : Batch ε → List Message} {count : Batch ε → Nat}
    (rest : ∀ done, Does (next done) [] (notes done) (.ok (count done))) :
    Does (Batch.run plan options items >>= fun result => next result.1)
      (plan.changes options items)
      (plan.log options items ++ (plan.accounted options items).toOption.elim [] notes)
      ((plan.accounted options items).map count) := by
  have goes := Batch.does_run plan options items
  unfold Plan.outcome at goes
  cases done : plan.accounted options items with
  | error failure =>
    rw [done] at goes
    rw [Except.toOption, Option.elim_none, List.append_nil]
    exact goes.failing
  | ok batch =>
    rw [done] at goes
    rw [← List.append_nil (plan.changes options items)]
    exact goes.bind (rest batch)

end Job.Does

/-- What a stage of a run does once its part of the catalogue is loaded. -/
structure Stage where
  changes : List FileTree.Change
  messages : List Message
  /-- The number of problems, or the failure that ends the run. -/
  problems : Except Failure Nat

namespace Command

open Job

variable {env : Environment} {config : Config} {options : BatchOptions}

/-! ## Languages -/

/-- What is told of the files that could not be loaded. -/
def loadNotes (paint : Paint) (failures : List (Text × Failure)) : List Message :=
  failures.map fun failure => ⟨.error, failure.1 ++ ": " ++ failure.2.render paint⟩

/-- What is told of the names that no language answers to. -/
def missingNotes (missing : List Text) : List Message :=
  missing.map fun name => ⟨.error, "No language named '" ++ name ++ "' in the catalogue"⟩

/-- What is told of the number of items that were generated. -/
def countNote (generated total : Nat) (items : Text) : Message :=
  ⟨.success,
    "Generated " ++ Text.ofNat generated ++ " of " ++ Text.ofNat total ++ " " ++ items ++ "(s)"⟩

/-- The language files that could not be loaded, each by its path from the working directory. -/
def unloadedLanguages (env : Environment) (loaded : Registry.Loaded) : List (Text × Failure) :=
  loaded.failures.map fun (file, e) => (Path.relative env.directory file, .ofLoadError e)

/-- The languages that are asked for, and the names that none answers to. -/
def selection (config : Config) (registry : Registry) : Registry.Selection :=
  if config.languages.isEmpty then ⟨registry.languages, []⟩ else registry.select config.languages

/-- How the languages that were loaded are made. -/
def languageBatch (options : BatchOptions) (loaded : Registry.Loaded) : Plan Language GrammarError :=
  Batch.languagePlan loaded.registry options.limits

/-- The languages stage once the catalogue is loaded. -/
def languagesOf (env : Environment) (config : Config) (options : BatchOptions)
    (loaded : Registry.Loaded) : Job Nat := do
  tellFailures options.paint (unloadedLanguages env loaded)
  let (languages, missing) ← selectLanguages config loaded.registry
  let (batch, _) ← Batch.languages loaded.registry options languages
  tellCount batch.written.length languages.length "language"
  pure (loaded.failures.length + missing + batch.failures.length)

theorem runLanguages_eq (env : Environment) (config : Config) (catalogue : Text)
    (options : BatchOptions) : runLanguages env config catalogue options =
      (Job.reading fun tree => Registry.load tree catalogue Registry.files) >>=
        languagesOf env config options := rfl

theorem does_selectLanguages (config : Config) (registry : Registry) :
    Does (selectLanguages config registry) [] (missingNotes (selection config registry).missing)
      (.ok ((selection config registry).languages, (selection config registry).missing.length)) := by
  unfold selectLanguages selection
  by_cases all : config.languages.isEmpty = true
  · rw [if_pos all, if_pos all]
    exact .pure _
  · rw [if_neg all, if_neg all]
    exact (Does.tellEach _ _).ending (.pure _)

theorem does_tellCount (generated total : Nat) (items : Text) :
    Does (tellCount generated total items) [] [countNote generated total items] (.ok ⟨⟩) :=
  Does.tell _ _

/-- What the languages stage does once the catalogue is loaded. -/
def languagesStage (env : Environment) (config : Config) (options : BatchOptions)
    (loaded : Registry.Loaded) : Stage :=
  let chosen := selection config loaded.registry
  let accounted := (languageBatch options loaded).accounted options chosen.languages
  { changes := (languageBatch options loaded).changes options chosen.languages
    messages := loadNotes options.paint (unloadedLanguages env loaded) ++
      (missingNotes chosen.missing ++ ((languageBatch options loaded).log options chosen.languages ++
        accounted.toOption.elim [] fun batch =>
          [countNote batch.written.length chosen.languages.length "language"]))
    problems := accounted.map fun batch =>
      loaded.failures.length + chosen.missing.length + batch.failures.length }

theorem does_languagesOf (env : Environment) (config : Config) (options : BatchOptions)
    (loaded : Registry.Loaded) :
    Does (languagesOf env config options loaded)
      (languagesStage env config options loaded).changes
      (languagesStage env config options loaded).messages
      (languagesStage env config options loaded).problems := by
  unfold languagesOf languagesStage
  generalize selected : selection config loaded.registry = chosen
  have selects := does_selectLanguages config loaded.registry
  rw [selected] at selects
  refine (Does.tellEach _ _).after (selects.after ?_)
  have rest (batch : Batch GrammarError) : Does (do
        tellCount batch.written.length chosen.languages.length "language"
        pure (loaded.failures.length + chosen.missing.length + batch.failures.length)) []
      [countNote batch.written.length chosen.languages.length "language"]
      (.ok (loaded.failures.length + chosen.missing.length + batch.failures.length)) :=
    (does_tellCount _ _ _).ending (.pure _)
  exact Does.batch (languageBatch options loaded) options chosen.languages rest

/-! ## Styles -/

/-- The style files that could not be loaded. -/
def unloadedStyles (loaded : Style.Loaded) : List (Text × Failure) :=
  loaded.failures.map fun (name, e) => (name, .ofLoadError e)

/-- What is told of the number of styles that were generated, if there are any. -/
def styleNotes (styles : List Style) (batch : Batch StyleError) : List Message :=
  if styles.isEmpty then []
  else [countNote (styles.length - batch.failures.length) styles.length "style"]

/-- The styles stage once the catalogue is loaded. -/
def stylesOf (config : Config) (options : BatchOptions) (loaded : Style.Loaded) : Job Nat := do
  tellFailures options.paint (unloadedStyles loaded)
  let styles := selectStyles config loaded.styles
  let (batch, _) ← Batch.styles options styles
  if !styles.isEmpty then
    tellCount (styles.length - batch.failures.length) styles.length "style"
  pure (loaded.failures.length + batch.failures.length)

theorem runStyles_eq (config : Config) (catalogue : Text) (options : BatchOptions) :
    runStyles config catalogue options =
      (Job.reading fun tree => Style.load tree catalogue) >>= stylesOf config options := rfl

/-- What the styles stage does once the catalogue is loaded. -/
def stylesStage (config : Config) (options : BatchOptions) (loaded : Style.Loaded) : Stage :=
  let styles := selectStyles config loaded.styles
  let accounted := Batch.stylePlan.accounted options styles
  { changes := Batch.stylePlan.changes options styles
    messages := loadNotes options.paint (unloadedStyles loaded) ++
      (Batch.stylePlan.log options styles ++ accounted.toOption.elim [] (styleNotes styles))
    problems := accounted.map fun batch => loaded.failures.length + batch.failures.length }

theorem does_stylesOf (config : Config) (options : BatchOptions) (loaded : Style.Loaded) :
    Does (stylesOf config options loaded) (stylesStage config options loaded).changes
      (stylesStage config options loaded).messages (stylesStage config options loaded).problems := by
  unfold stylesOf stylesStage
  generalize selectStyles config loaded.styles = styles
  refine (Does.tellEach _ _).after ?_
  have rest (batch : Batch StyleError) : Does (do
        if !styles.isEmpty then
          tellCount (styles.length - batch.failures.length) styles.length "style"
        pure (loaded.failures.length + batch.failures.length)) [] (styleNotes styles batch)
      (.ok (loaded.failures.length + batch.failures.length)) := by
    unfold styleNotes
    cases styles.isEmpty with
    | true => exact .pure _
    | false => exact (does_tellCount _ _ _).ending (.pure _)
  exact Does.batch Batch.stylePlan options styles rest

/-! ## Whole runs -/

/-- Where the catalogue of a run is. -/
def catalogueOf (env : Environment) (config : Config) : Text :=
  Path.resolve env.directory config.catalogueDir

/-- How the batches of a run are done. -/
def batchOptions (env : Environment) (config : Config) (paint : Paint) : BatchOptions :=
  ⟨Path.resolve env.directory config.outDir, config.failFast, paint, config.limits⟩

/-- What is told before the stages. -/
def heading (env : Environment) (config : Config) (options : BatchOptions) : List Message :=
  [⟨.debug, "Catalogue: " ++ catalogueOf env config⟩, ⟨.debug, "Output: " ++ options.outDir⟩]

/-- The styles are left out. -/
def leavesStyles (config : Config) (noStyles : Bool) (problems : Nat) : Bool :=
  noStyles || (config.failFast && problems != 0)

/-- What a run finds in its catalogue. There are no styles where they are left out. -/
structure Found where
  languages : Registry.Loaded
  styles : Option Style.Loaded

namespace Found

variable (env config options) (found : Found)

def changes : List Change :=
  (languagesStage env config options found.languages).changes ++
    found.styles.elim [] fun styles => (stylesStage config options styles).changes

def messages : List Message :=
  heading env config options ++ ((languagesStage env config options found.languages).messages ++
    found.styles.elim [] fun styles => (stylesStage config options styles).messages)

def problems : Except Failure Nat :=
  (languagesStage env config options found.languages).problems >>= fun problems =>
    found.styles.elim (.ok problems) fun styles =>
      (stylesStage config options styles).problems.map (problems + ·)

end Found

/-- What a run that starts on some files finds in its catalogue. The styles are looked for when the
languages have been made. -/
structure Finds (env : Environment) (config : Config) (noStyles : Bool) (options : BatchOptions)
    (tree : FileTree) (found : Found) : Prop where
  languages : Registry.load tree (catalogueOf env config) Registry.files = .ok found.languages
  styles : ∃ between problems,
    tree.applyAll (languagesStage env config options found.languages).changes = .ok between ∧
      (languagesStage env config options found.languages).problems = .ok problems ∧
      if leavesStyles config noStyles problems then found.styles = none
      else ∃ styles, Style.load between (catalogueOf env config) = .ok styles ∧
        found.styles = some styles

theorem runLanguages_eq_ok_iff {catalogue : Text} {place last : Workplace} {problems : Nat} :
    (runLanguages env config catalogue options).run.run place = (.ok problems, last) ↔
      ∃ loaded, Registry.load place.tree catalogue Registry.files = .ok loaded ∧
        (languagesStage env config options loaded).problems = .ok problems ∧ ∃ tree,
          place.tree.applyAll (languagesStage env config options loaded).changes = .ok tree ∧
          last = ⟨tree, place.messages ++ (languagesStage env config options loaded).messages⟩ := by
  rw [runLanguages_eq, run_bind_eq_ok_iff]
  constructor
  · rintro ⟨loaded, between, read, goes⟩
    obtain ⟨loads, rfl⟩ := run_reading_eq_ok_iff.1 read
    exact ⟨loaded, loads, (does_languagesOf ..).run_eq_ok_iff.1 goes⟩
  · rintro ⟨loaded, loads, goes⟩
    exact ⟨loaded, place, run_reading_eq_ok_iff.2 ⟨loads, rfl⟩,
      (does_languagesOf ..).run_eq_ok_iff.2 goes⟩

theorem runStyles_eq_ok_iff {catalogue : Text} {place last : Workplace} {problems : Nat} :
    (runStyles config catalogue options).run.run place = (.ok problems, last) ↔
      ∃ loaded, Style.load place.tree catalogue = .ok loaded ∧
        (stylesStage config options loaded).problems = .ok problems ∧ ∃ tree,
          place.tree.applyAll (stylesStage config options loaded).changes = .ok tree ∧
          last = ⟨tree, place.messages ++ (stylesStage config options loaded).messages⟩ := by
  rw [runStyles_eq, run_bind_eq_ok_iff]
  constructor
  · rintro ⟨loaded, between, read, goes⟩
    obtain ⟨loads, rfl⟩ := run_reading_eq_ok_iff.1 read
    exact ⟨loaded, loads, (does_stylesOf ..).run_eq_ok_iff.1 goes⟩
  · rintro ⟨loaded, loads, goes⟩
    exact ⟨loaded, place, run_reading_eq_ok_iff.2 ⟨loads, rfl⟩,
      (does_stylesOf ..).run_eq_ok_iff.2 goes⟩

/-- A run gets through if the files allow the changes of what it finds, and there is no breakdown. -/
theorem work_eq_ok_iff {noStyles : Bool} {paint : Paint} {tree after : FileTree}
    {messages : List Message} {problems : Nat} :
    (work env config noStyles paint).run.run ⟨tree, []⟩ = (.ok problems, ⟨after, messages⟩) ↔
      ∃ found, Finds env config noStyles (batchOptions env config paint) tree found ∧
        tree.applyAll (found.changes env config (batchOptions env config paint)) = .ok after ∧
        found.problems env config (batchOptions env config paint) = .ok problems ∧
        messages = found.messages env config (batchOptions env config paint) := by
  set options := batchOptions env config paint with given
  have starts : (work env config noStyles paint).run.run ⟨tree, []⟩ =
      (runLanguages env config (catalogueOf env config) options >>= fun problems =>
        if leavesStyles config noStyles problems then pure problems
        else runStyles config (catalogueOf env config) options >>= fun more =>
          pure (problems + more)).run.run ⟨tree, heading env config options⟩ := rfl
  rw [starts, run_bind_eq_ok_iff]
  constructor
  · rintro ⟨count, between, first, rest⟩
    obtain ⟨languages, loads, counts, middle, made, rfl⟩ := runLanguages_eq_ok_iff.1 first
    by_cases left : leavesStyles config noStyles count = true
    · rw [if_pos left] at rest
      cases rest
      refine ⟨⟨languages, none⟩, ⟨loads, after, problems, made, counts, if_pos left ▸ rfl⟩,
        ?_, ?_, ?_⟩
      · rw [Found.changes, Option.elim_none, List.append_nil]
        exact made
      · rw [Found.problems, counts]
        rfl
      · rw [Found.messages, Option.elim_none, List.append_nil]
    · rw [if_neg left] at rest
      obtain ⟨more, further, second, ends⟩ := run_bind_eq_ok_iff.1 rest
      cases ends
      obtain ⟨styles, loads', counts', final, made', last⟩ := runStyles_eq_ok_iff.1 second
      cases last
      refine ⟨⟨languages, some styles⟩, ⟨loads, middle, count, made, counts, ?_⟩, ?_, ?_, ?_⟩
      · rw [if_neg left]
        exact ⟨styles, loads', rfl⟩
      · rw [Found.changes, FileTree.applyAll_append, made]
        exact made'
      · rw [Found.problems, counts]
        exact congrArg (Except.map (count + ·)) counts'
      · exact List.append_assoc _ _ _
  · rintro ⟨⟨languages, styles⟩, ⟨loads, middle, count, made, counts, finds⟩, does, all, rfl⟩
    refine ⟨count, _, runLanguages_eq_ok_iff.2 ⟨languages, loads, counts, middle, made, rfl⟩, ?_⟩
    dsimp only at made finds
    rw [Found.changes, FileTree.applyAll_append, made] at does
    rw [Found.problems, counts] at all
    by_cases left : leavesStyles config noStyles count = true
    · rw [if_pos left] at finds ⊢
      subst finds
      cases does
      cases all
      rw [Found.messages, Option.elim_none, List.append_nil]
      rfl
    · rw [if_neg left] at finds ⊢
      obtain ⟨styles, loads', rfl⟩ := finds
      obtain ⟨more, counts', same⟩ := except_map_eq_ok_iff.1 all
      refine run_bind_eq_ok_iff.2 ⟨more, _, runStyles_eq_ok_iff.2 ⟨styles, loads', counts', after,
        does, rfl⟩, ?_⟩
      rw [Found.messages, Option.elim_some, same, ← List.append_assoc]
      rfl

theorem runWith_of_help {options : Options} (asked : options.help = true) (tree : FileTree) :
    runWith env options tree = shown (Help.render ⟨options.color && env.terminal⟩) tree := by
  unfold runWith
  dsimp only
  rw [if_pos asked]

theorem runWith_of_refused {options : Options} {tree : FileTree} {e : ConfigError}
    (works : options.help = false) (refuses : settings env options tree = .error e) :
    runWith env options tree = refused ⟨⟨options.color && env.terminal⟩, options.verbose⟩
      (Failure.render ⟨options.color && env.terminal⟩ (.config e)) tree := by
  unfold runWith
  dsimp only
  rw [works, if_neg nofun, refuses]

theorem runWith_of_listing {options : Options} {tree : FileTree} {made : Settings}
    (works : options.help = false) (configured : settings env options tree = .ok made)
    (asked : options.listConfig = true) :
    runWith env options tree = shown made.render tree := by
  unfold runWith
  dsimp only
  rw [works, if_neg nofun, configured]
  exact if_pos asked

/-- A run that works on its catalogue and returns is told by what it finds there. -/
theorem runWith_eq_iff {options : Options} {tree after : FileTree} {made : Settings} {code : Nat}
    {printed : List Text} {lines : List (Stream × Text)} (works : options.help = false)
    (configured : settings env options tree = .ok made) (listed : options.listConfig = false) :
    runWith env options tree = ⟨.ok code, printed, lines, after⟩ ↔ ∃ found count,
      Finds env (.ofSettings made) options.noStyles
        (batchOptions env (.ofSettings made) ⟨options.color && env.terminal⟩) tree found ∧
      tree.applyAll (found.changes env (.ofSettings made)
        (batchOptions env (.ofSettings made) ⟨options.color && env.terminal⟩)) = .ok after ∧
      found.problems env (.ofSettings made)
        (batchOptions env (.ofSettings made) ⟨options.color && env.terminal⟩) = .ok count ∧
      code = codeOf count ∧ printed = [] ∧
      lines = (Logger.mk ⟨options.color && env.terminal⟩ options.verbose).lines
        (found.messages env (.ofSettings made)
          (batchOptions env (.ofSettings made) ⟨options.color && env.terminal⟩)) := by
  unfold runWith
  dsimp only
  rw [works, if_neg nofun, configured, listed]
  dsimp only
  rw [if_neg nofun]
  have get (worked : Except Failure Nat × Workplace) :
      Outcome.mk (worked.1.map codeOf) [] (Logger.lines ⟨⟨options.color && env.terminal⟩,
        options.verbose⟩ worked.2.messages) worked.2.tree = ⟨.ok code, printed, lines, after⟩ ↔
      ∃ count messages, worked = (.ok count, ⟨after, messages⟩) ∧ code = codeOf count ∧
        printed = [] ∧ lines = (Logger.mk ⟨options.color && env.terminal⟩ options.verbose).lines
          messages := by
    obtain ⟨result, last, messages⟩ := worked
    rw [Outcome.mk.injEq, except_map_eq_ok_iff]
    constructor
    · rintro ⟨⟨count, rfl, rfl⟩, rfl, rfl, rfl⟩
      exact ⟨count, messages, rfl, rfl, rfl, rfl⟩
    · rintro ⟨count, told, same, rfl, rfl, rfl⟩
      cases same
      exact ⟨⟨count, rfl, rfl⟩, rfl, rfl, rfl⟩
  refine (get _).trans ⟨?_, ?_⟩
  · rintro ⟨count, messages, worked, rest⟩
    obtain ⟨found, finds, does, counted, rfl⟩ := work_eq_ok_iff.1 worked
    exact ⟨found, count, finds, does, counted, rest⟩
  · rintro ⟨found, count, finds, does, counted, rest⟩
    exact ⟨count, _, work_eq_ok_iff.2 ⟨found, finds, does, counted, rfl⟩, rest⟩

end Command

end Highlight
