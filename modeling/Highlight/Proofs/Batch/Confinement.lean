import Highlight.Proofs.Batch.Languages
import Highlight.Proofs.Compilation.EmittedPatterns
import Highlight.Proofs.Files.Paths
import Highlight.Proofs.Text.Units

/-!
# Where a batch writes

The file names of a batch come from the names of its languages and styles, which may be any text
that is not blank. As long as none of these names holds a slash, a batch writes directly inside its
directory and nowhere else, however it ends (`Batch.batches_confined`). A name that holds one can
lead out of the directory (`Batch.languages_escape`).
-/

namespace Highlight

namespace FileTree

variable {directory : Text} {changes : List Change} {tree tree' : FileTree}

/-- The change makes the directory, or a file directly inside of it. -/
def Change.Within (directory : Text) : Change → Prop
  | .directory path => path = directory
  | .file path _ => ∃ name, keyOf path = keyOf directory ++ [name]

/-- Changes in a directory leave everything else as it was, apart from directories that are added. -/
theorem get?_of_within (within : ∀ change ∈ changes, change.Within directory)
    (done : tree.applyAll changes = .ok tree') {key : List Text}
    (outside : ∀ name, key ≠ keyOf directory ++ [name]) :
    tree'.get? key = tree.get? key ∨
      tree.get? key = none ∧ tree'.get? key = some .directory := by
  induction changes generalizing tree with
  | nil =>
    cases done
    exact .inl rfl
  | cons change changes ih =>
    obtain ⟨here, rest⟩ := List.forall_mem_cons.1 within
    obtain ⟨between, first, second⟩ := except_bind_eq_ok_iff.1 done
    have later := ih rest second
    have step : between.get? key = tree.get? key ∨
        tree.get? key = none ∧ between.get? key = some .directory := by
      cases change with
      | directory path => exact adds_of_makeDirectory first key
      | file path text =>
        obtain ⟨name, leads⟩ := here
        have other : keyOf path ≠ key := fun same => outside name (same.symm.trans leads)
        exact .inl ((get?_write first key).trans (if_neg other))
    obtain same | ⟨none, made⟩ := step
    · rwa [same] at later
    · rw [made] at later
      obtain kept | ⟨absent, -⟩ := later
      · exact .inr ⟨none, kept⟩
      · cases absent

end FileTree

namespace Job

variable {α : Type}

/-- Whatever the files are, all that a job changes is one directory and the files directly inside. -/
structure Confined (directory : Text) (job : Job α) : Prop where
  /-- It makes the directory and writes files directly inside. -/
  changes : ∀ place : Workplace, ∃ changes : List FileTree.Change,
    (∀ change ∈ changes, change.Within directory) ∧
    place.tree.applyAll changes = .ok (job.run.run place).2.tree
  /-- Everything else stays, and all that is added to it is directories. -/
  others : ∀ (place : Workplace) (key : List Text), (∀ name, key ≠ FileTree.keyOf directory ++ [name]) →
    (job.run.run place).2.tree.get? key = place.tree.get? key ∨
      place.tree.get? key = none ∧ (job.run.run place).2.tree.get? key = some .directory

/-- A job makes the first ones of its changes, up to one that the files do not allow. -/
theorem Does.exists_prefix {job : Job α} {changes : List FileTree.Change} {messages : List Message}
    {result : Except Failure α} (does : Does job changes messages result) (place : Workplace) :
    ∃ made, made <+: changes ∧ place.tree.applyAll made = .ok (job.run.run place).2.tree := by
  cases all : place.tree.applyAll changes with
  | error e => exact (does.refused place e all).2
  | ok tree =>
    refine ⟨changes, List.prefix_rfl, ?_⟩
    rw [does.allowed place tree all]
    exact all

theorem Does.confined {job : Job α} {changes : List FileTree.Change} {messages : List Message}
    {result : Except Failure α} {directory : Text} (does : Does job changes messages result)
    (within : ∀ change ∈ changes, change.Within directory) : Confined directory job where
  changes place := by
    obtain ⟨made, front, done⟩ := does.exists_prefix place
    exact ⟨made, fun change listed => within change (front.subset listed), done⟩
  others place key outside := by
    obtain ⟨made, front, done⟩ := does.exists_prefix place
    exact FileTree.get?_of_within (fun change listed => within change (front.subset listed)) done
      outside

end Job

theorem Style.compile_style {style : Style} {compiled : Style.Compiled}
    (compiles : style.compile = .ok compiled) : compiled.style = style := by
  unfold compile at compiles
  dsimp only at compiles
  split at compiles
  · cases compiles
  · obtain ⟨sheet, -, made⟩ := except_bind_eq_ok_iff.1 compiles
    cases made
    rfl

namespace Batch

variable {α ε : Type} {plan : Plan α ε} {options : BatchOptions} {items : List α}

/-- A batch whose files all have file names writes directly inside its directory. -/
theorem run_confined (names : ∀ item ∈ items, ∀ product, plan.make item = .ok product →
      ∀ file ∈ product.files, Path.IsFileName file.1)
    (tableName : Path.IsFileName plan.tableFile) :
    Job.Confined options.outDir (run plan options items) := by
  refine (does_run plan options items).confined fun change listed => ?_
  obtain rfl | ⟨name, text, rfl, table | ⟨item, among, product, makes, own⟩⟩ :=
    Plan.changes_cases listed
  · rfl
  · exact ⟨_, FileTree.keyOf_join (table ▸ tableName) _⟩
  · exact ⟨_, FileTree.keyOf_join (names item among product makes _ own) _⟩

/-- The definition file of a language whose name holds no slash. -/
theorem isFileName_fileName {name : Text} (plain : Path.slash ∉ name) :
    Path.IsFileName (Definition.fileName name) := by
  refine .append (u := unit 'g') ?_ (by decide) (by decide)
  rw [List.mem_append, not_or]
  refine ⟨fun inside => ?_, by decide⟩
  obtain ⟨u, held, slash⟩ := List.mem_map.1 inside
  split at slash
  · exact absurd slash (by decide)
  · rw [slash] at held
    exact Text.slash_not_mem_lower plain held

/-- The files of a style whose name holds no slash. -/
theorem isFileName_style {name ending : Text} {u : CodeUnit} (plain : Path.slash ∉ name)
    (plain' : Path.slash ∉ ending) (ends : ending.getLast? = some u) (letter : u ≠ unit '.') :
    Path.IsFileName (Text.lower name ++ ending) := by
  refine .append ?_ ends letter
  rw [List.mem_append, not_or]
  exact ⟨Text.slash_not_mem_lower plain, plain'⟩

theorem isFileName_langMap : Path.IsFileName "lang.map" :=
  ⟨by decide, by decide, by decide, by decide⟩

theorem isFileName_outlangMap : Path.IsFileName "outlang.map" :=
  ⟨by decide, by decide, by decide, by decide⟩

/-- As long as no name of a language or a style holds a slash, batches write directly inside their
directory and nowhere else, whatever the files are and however they end. -/
theorem batches_confined {registry : Registry} {languages : List Language} {styles : List Style}
    (options : BatchOptions) (plainLanguages : ∀ language ∈ languages, Path.slash ∉ language.name)
    (plainStyles : ∀ style ∈ styles, Path.slash ∉ style.name) :
    Job.Confined options.outDir (Batch.languages registry options languages) ∧
      Job.Confined options.outDir (Batch.styles options styles) := by
  constructor
  · refine run_confined (fun language listed product made file held => ?_) isFileName_langMap
    obtain ⟨compiled, compiles, rfl⟩ := except_map_eq_ok_iff.1 made
    obtain ⟨rfl, -⟩ := Language.compile_eq_ok_iff.1 compiles
    rw [List.mem_singleton.1 held]
    exact isFileName_fileName (plainLanguages _ listed)
  · refine run_confined (fun style listed product made file held => ?_) isFileName_outlangMap
    obtain ⟨compiled, compiles, rfl⟩ := except_map_eq_ok_iff.1 made
    have plain := plainStyles _ listed
    rw [← Style.compile_style compiles] at plain
    obtain sheet | map := List.mem_pair.1 held
    · rw [sheet]
      exact isFileName_style (u := unit 'e') plain (by decide) (by decide) (by decide)
    · rw [map]
      exact isFileName_style (u := unit 'g') plain (by decide) (by decide) (by decide)

/-- A style with one colour. -/
def nightSky : Style := ⟨"Night Sky", [("Comment", "#000080")], none⟩

/-- The files of batches whose names hold blanks, but no slash. -/
theorem batches_confined_mixed :
    (Job.Confined "/out" (Batch.languages ⟨mixed⟩ (outOptions false .standard) mixed) ∧
      Job.Confined "/out" (Batch.styles (outOptions false .standard) [nightSky])) ∧
    (((Batch.styles (outOptions false .standard) [nightSky]).run.run ⟨.empty, []⟩).2.tree.items.map
      fun entry => FileTree.pathOf entry.1) =
        ["/out", "/out/night sky.style", "/out/night sky_esc256.outlang", "/out/outlang.map"] := by
  refine ⟨batches_confined (outOptions false .standard) ?_ ?_, by decide +kernel⟩
  · decide
  · decide

/-- The document of a language whose name leads up. -/
def climbingDocument : Document :=
  .object [("name", .text "../climbing"), ("tokens", .object [("root", .list [])])]

/-- The language of the document. -/
def climbing : Language where
  name := "../climbing"
  aliases := []
  filenames := []
  aliasFilenames := []
  graph := [("root", [])]
  sourceFile := some "climbing.lexer.json"

/-- A style whose name leads up, from a document. -/
def climbingStyle : Style := ⟨"../climbing", [("Comment", "#000080")], some "climbing.style.json"⟩

/-- What stands at a key is a file. -/
def holdsFile (tree : FileTree) (key : List Text) : Bool :=
  match tree.get? key with
  | some (.file _) => true
  | _ => false

/-- A job that leaves a file at the top is not confined to a directory below. -/
theorem not_confined_of_file {α : Type} {job : Job α} {file : Text}
    (left : holdsFile (job.run.run ⟨.empty, []⟩).2.tree [file] = true) :
    ¬Job.Confined "/out" job := by
  intro confined
  have outside (name : Text) : [file] ≠ FileTree.keyOf "/out" ++ [name] := by
    have out : FileTree.keyOf "/out" = [Text.ofString "out"] := by decide
    rw [out]
    exact fun same => nomatch congrArg List.length same
  unfold holdsFile at left
  obtain same | ⟨-, made⟩ := confined.others ⟨.empty, []⟩ [file] outside
  · rw [same] at left
    cases left
  · rw [made] at left
    cases left

/-- Names that hold a slash are accepted, and lead the files out of the directory. -/
theorem languages_escape :
    Language.ofDocument "climbing.lexer.json" climbingDocument = .ok climbing ∧
    Registry.empty.add climbing = .ok ⟨[climbing]⟩ ∧
    ((Batch.languages ⟨[climbing]⟩ (outOptions false .standard) [climbing]).run.run
      ⟨.empty, []⟩).2.tree.get? ["climbing.lang"] =
        some (.file "# autogenerated from the ../climbing lexer grammar\n") ∧
    ¬Job.Confined "/out" (Batch.languages ⟨[climbing]⟩ (outOptions false .standard) [climbing]) ∧
    Style.ofDocument "climbing.style.json" (.object [("name", .text "../climbing"),
      ("styles", .object [("Comment", .text "#000080")])]) = .ok climbingStyle ∧
    ¬Job.Confined "/out" (Batch.styles (outOptions false .standard) [climbingStyle]) := by
  have written : ((Batch.languages ⟨[climbing]⟩ (outOptions false .standard) [climbing]).run.run
      ⟨.empty, []⟩).2.tree.get? ["climbing.lang"] =
        some (.file "# autogenerated from the ../climbing lexer grammar\n") := by
    decide +kernel
  have drawn : holdsFile ((Batch.styles (outOptions false .standard) [climbingStyle]).run.run
      ⟨.empty, []⟩).2.tree ["climbing.style"] = true := by
    decide +kernel
  exact ⟨rfl, rfl, written, not_confined_of_file (by rw [holdsFile, written]), rfl,
    not_confined_of_file drawn⟩

end Batch

end Highlight
