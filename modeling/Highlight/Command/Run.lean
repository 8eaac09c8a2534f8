import Highlight.Batch
import Highlight.Catalogue.Loading
import Highlight.Command.Help
import Highlight.Command.Options

/-!
# A run of the command

The whole command as a function of its arguments and the files it finds: it reads the options and
the configuration, loads the catalogue, generates the languages and then the styles. Every problem
is told on the error stream and counted, and the count decides the exit code. A file error or a
breakdown ends the run where it is met.
-/

namespace Highlight

/-- Where a command is run. -/
structure Environment where
  /-- The working directory, an absolute path. -/
  directory : Text
  /-- The output goes to a terminal, which can show colours. -/
  terminal : Bool
  deriving DecidableEq, Repr

/-- What a run comes to. -/
structure Outcome where
  /-- The exit code, or the failure that ended the run. -/
  result : Except Failure Nat
  /-- What was asked for on the command line: help or the configuration. -/
  printed : List Text
  /-- The lines of the log. -/
  lines : List (Stream × Text)
  /-- The files afterwards. -/
  tree : FileTree

namespace Outcome

/-- The exit code of the process. -/
def code (outcome : Outcome) : Nat :=
  match outcome.result with
  | .ok code => code
  | .error _ => 1

/-- Everything that is written, with the failure that ended the run last. -/
def transcript (outcome : Outcome) : List (Stream × Text) :=
  let ending : List (Stream × Text) := match outcome.result with
    | .ok _ => []
    | .error e => (Logger.mk .plain false).lines [⟨.error, e.render .plain⟩]
  outcome.printed.map (fun text => (.output, text)) ++ outcome.lines ++ ending

end Outcome

namespace Command

/-- Tells the files that could not be loaded. -/
def tellFailures (paint : Paint) (failures : List (Text × Failure)) : Job Unit :=
  failures.forM fun (name, failure) =>
    Job.tell .error (name ++ ": " ++ failure.render paint)

/-- The languages that a configuration selects, and the number of names that none answers to. -/
def selectLanguages (config : Config) (registry : Registry) : Job (List Language × Nat) := do
  if config.languages.isEmpty then pure (registry.languages, 0)
  else
    let selection := registry.select config.languages
    selection.missing.forM fun name =>
      Job.tell .error ("No language named '" ++ name ++ "' in the catalogue")
    pure (selection.languages, selection.missing.length)

/-- The styles that a configuration selects, without regard to case. -/
def selectStyles (config : Config) (styles : List Style) : List Style :=
  let wanted := config.styles.map Text.lower
  if wanted.isEmpty then styles
  else styles.filter fun style => wanted.contains (Text.lower style.name)

/-- Tells how many of the items were generated. -/
def tellCount (generated total : Nat) (items : Text) : Job Unit :=
  Job.tell .success
    ("Generated " ++ Text.ofNat generated ++ " of " ++ Text.ofNat total ++ " " ++ items ++ "(s)")

/-- Loads and generates the languages and gives the number of problems. -/
def runLanguages (env : Environment) (config : Config) (catalogue : Text)
    (options : BatchOptions) : Job Nat := do
  let loaded ← Job.reading fun tree => Registry.load tree catalogue Registry.files
  tellFailures options.paint
    (loaded.failures.map fun (file, e) =>
      (Path.relative env.directory file, Failure.ofLoadError e))
  let (languages, missing) ← selectLanguages config loaded.registry
  let (batch, _) ← Batch.languages loaded.registry options languages
  tellCount batch.written.length languages.length "language"
  pure (loaded.failures.length + missing + batch.failures.length)

/-- Loads and generates the styles and gives the number of problems. -/
def runStyles (config : Config) (catalogue : Text) (options : BatchOptions) : Job Nat := do
  let loaded ← Job.reading fun tree => Style.load tree catalogue
  tellFailures options.paint
    (loaded.failures.map fun (name, e) => (name, Failure.ofLoadError e))
  let styles := selectStyles config loaded.styles
  let (batch, _) ← Batch.styles options styles
  if !styles.isEmpty then
    tellCount (styles.length - batch.failures.length) styles.length "style"
  pure (loaded.failures.length + batch.failures.length)

/-- Generates what a configuration asks for and gives the number of problems. After a failure, a
run that is to end at the first one leaves the styles out. -/
def work (env : Environment) (config : Config) (noStyles : Bool) (paint : Paint) : Job Nat := do
  let catalogue := Path.resolve env.directory config.catalogueDir
  let outDir := Path.resolve env.directory config.outDir
  Job.tell .debug ("Catalogue: " ++ catalogue)
  Job.tell .debug ("Output: " ++ outDir)
  let options : BatchOptions := ⟨outDir, config.failFast, paint, config.limits⟩
  let problems ← runLanguages env config catalogue options
  if noStyles || (config.failFast && problems != 0) then pure problems
  else
    let more ← runStyles config catalogue options
    pure (problems + more)

/-- The exit code for a number of problems. -/
def codeOf (problems : Nat) : Nat := if problems = 0 then 0 else 1

/-- The settings of a run: options over file over standard. -/
def settings (env : Environment) (options : Options) (tree : FileTree) :
    Except ConfigError Settings :=
  (Layer.load? tree env.directory options.configPath).map fun file =>
    Settings.ofLayers (file.toList ++ [options.layer])

/-- The configuration file that a run may read. -/
def configFile? (env : Environment) (arguments : List Text) : Option Text :=
  (Options.ofArguments arguments).toOption.map fun options =>
    Layer.fileOf env.directory options.configPath

/-- The directories that a run reads and writes, once its configuration file is there. The
catalogue is searched under its path with slashes only. -/
def directories (env : Environment) (arguments : List Text) (tree : FileTree) : List Text :=
  match Options.ofArguments arguments with
  | .error _ => []
  | .ok options =>
    match settings env options tree with
    | .error _ => []
    | .ok settings =>
      let config := Config.ofSettings settings
      let catalogue := Path.resolve env.directory config.catalogueDir
      [catalogue, FileTree.slashed catalogue, Path.resolve env.directory config.outDir]

/-- A run that ends before any work, having written one message. -/
def refused (logger : Logger) (text : Text) (tree : FileTree) : Outcome :=
  ⟨.ok 1, [], logger.lines [⟨.error, text⟩], tree⟩

/-- A run that prints what was asked for. -/
def shown (text : Text) (tree : FileTree) : Outcome := ⟨.ok 0, [text], [], tree⟩

/-- A run with options that have been read. -/
def runWith (env : Environment) (options : Options) (tree : FileTree) : Outcome :=
  let paint : Paint := ⟨options.color && env.terminal⟩
  let logger : Logger := ⟨paint, options.verbose⟩
  if options.help then shown (Help.render paint) tree
  else match settings env options tree with
    | .error e => refused logger (Failure.render paint (.config e)) tree
    | .ok settings =>
      if options.listConfig then shown settings.render tree
      else
        let job := work env (.ofSettings settings) options.noStyles paint
        let (result, place) := job.run ⟨tree, []⟩
        ⟨result.map codeOf, [], logger.lines place.messages, place.tree⟩

/-- A run of the command. -/
def run (env : Environment) (arguments : List Text) (tree : FileTree) : Outcome :=
  match Options.ofArguments arguments with
  | .error e => refused ⟨.plain, false⟩ (e.message ++ " (see --help)") tree
  | .ok options => runWith env options tree

end Command

end Highlight
