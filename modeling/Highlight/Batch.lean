import Highlight.Catalogue.LookupTable
import Highlight.Catalogue.Registry
import Highlight.Job
import Highlight.Compilation.Body

/-!
# Batches

A batch makes the files of a list of languages or styles in one directory, and after them one
lookup table of all that succeeded. An item that fails is told and counted and leaves nothing
behind; the rest go on, unless the batch is to end at the first failure. A breakdown is no failure
of an item: it ends the whole job.
-/

namespace Highlight

/-- What one item of a batch becomes. -/
structure Product where
  /-- Names and texts of its files, in the order of writing. -/
  files : List (Text × Text)
  /-- What the log adds to the note on each file; without it there is no note. -/
  remark : Option Text
  /-- Its keys in the lookup table, each with its file. -/
  enter : LookupTable → LookupTable

/-- How the items of a batch are made. -/
structure Plan (α ε : Type) where
  /-- What an item is called. -/
  title : Text
  name : α → Text
  make : α → Except ε Product
  /-- The failure as others see it. -/
  failure : ε → Failure
  /-- The failure leaves nothing to go on with. -/
  isFatal : ε → Bool
  /-- The file of the lookup table. -/
  tableFile : Text

/-- What a batch has done. -/
structure Batch (ε : Type) where
  /-- The files in the order of writing. -/
  written : List Text
  /-- The items that failed, and why. -/
  failures : List (Text × ε)
  /-- The lookup table of the items that succeeded. -/
  table : LookupTable
  deriving Repr

/-- Where and how a batch is run. -/
structure BatchOptions where
  outDir : Text
  /-- Ends the batch at the first failure. -/
  failFast : Bool
  paint : Paint
  limits : Limits
  deriving Repr

namespace Batch

variable {α ε : Type}

def empty : Batch ε := ⟨[], [], []⟩

/-- Writes the files of a product and gives their paths. -/
def deliver (directory : Text) (product : Product) : Job (List Text) :=
  product.files.mapM fun (name, text) => do
    let file := Path.join directory name
    Job.write file text
    match product.remark with
    | some remark => Job.tell .debug ("Wrote " ++ file ++ remark)
    | none => pure ()
    pure file

/-- Makes the items in order. -/
def runFrom (plan : Plan α ε) (options : BatchOptions) (done : Batch ε) : List α → Job (Batch ε)
  | [] => pure done
  | item :: rest => do
    Job.tell .info ("Generating " ++ plan.title ++ " " ++ plan.name item)
    match plan.make item with
    | .error e =>
      if plan.isFatal e then throw (plan.failure e)
      Job.tell .error ((plan.failure e).render options.paint)
      let done := { done with failures := done.failures ++ [(plan.name item, e)] }
      if options.failFast then pure done else runFrom plan options done rest
    | .ok product =>
      let files ← deliver options.outDir product
      runFrom plan options
        { done with written := done.written ++ files, table := product.enter done.table } rest

/-- Writes the lookup table, unless it is empty, and gives its path. -/
def writeTable (directory file : Text) (table : LookupTable) : Job (Option Text) := do
  if table.isEmpty then pure none
  else
    let file := Path.join directory file
    Job.write file table.render
    Job.tell .debug ("Wrote " ++ file)
    pure (some file)

/-- Runs a batch. The path that comes with it is that of the lookup table, if one is written. -/
def run (plan : Plan α ε) (options : BatchOptions) (items : List α) :
    Job (Batch ε × Option Text) := do
  Job.makeDirectory options.outDir
  let done ← runFrom plan options empty items
  let tableFile ← writeTable options.outDir plan.tableFile done.table
  pure (done, tableFile)

/-- The definition file of a language, and its keys. -/
def languageProduct (compiled : CompiledLanguage) : Product where
  files := [(compiled.fileName, compiled.source)]
  remark := some (" (" ++ Text.ofNat compiled.statements.length ++ " lines)")
  enter := fun table => table.add compiled.language compiled.fileName

/-- How languages are made, with the languages of a registry at hand. -/
def languagePlan (registry : Registry) (limits : Limits) : Plan Language GrammarError where
  title := "lexer"
  name := Language.name
  make := fun language => (language.compile limits registry.get?).map languageProduct
  failure := fun e => .grammar e.report
  isFatal := fun e => e.fault.isBreakdown
  tableFile := "lang.map"

/-- Makes the definition files of languages. -/
def languages (registry : Registry) (options : BatchOptions) (languages : List Language) :
    Job (Batch GrammarError × Option Text) :=
  run (languagePlan registry options.limits) options languages

/-- The two files of a style, and its key. -/
def styleProduct (compiled : Style.Compiled) : Product where
  files := [(Style.sheetFile compiled.style.name, compiled.sheet),
    (Style.colorMapFile compiled.style.name, compiled.colorMap)]
  remark := none
  enter := fun table =>
    Table.set table (Style.colorMapKey compiled.style.name) (Style.colorMapFile compiled.style.name)

/-- How styles are made. -/
def stylePlan : Plan Style StyleError where
  title := "style"
  name := Style.name
  make := fun style => style.compile.map styleProduct
  failure := fun e => .style e.report
  isFatal := fun _ => false
  tableFile := "outlang.map"

/-- Makes the files of styles. -/
def styles (options : BatchOptions) (styles : List Style) : Job (Batch StyleError × Option Text) :=
  run stylePlan options styles

end Batch

end Highlight
