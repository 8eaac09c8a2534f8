import Highlight.Document.Printer
import Highlight.Document.Reader
import Highlight.FileTree
import Highlight.Fault
import Highlight.Compilation.Session

/-!
# Configuration

The settings of a run. Each setting admits documents of one kind. A layer makes some of the
settings, and of several layers the last one that makes a setting decides it; where none does, the
standard value holds. A configuration file is a layer, and all its problems are reported together.
Settings are kept under their names, so that a layer may also hold fields that are no settings of
this program.
-/

namespace Highlight

/-- What can be set. -/
inductive Setting where
  | catalogueDir
  | outDir
  /-- Names or aliases of the languages to generate; all of them if none is named. -/
  | languages
  /-- Names of the styles to generate; all of them if none is named. -/
  | styles
  | maxDepth
  | maxCandidates
  | expansionLimit
  | failFast
  deriving DecidableEq, Repr

/-- Kinds of settings. -/
inductive SettingKind where
  | path | names | count | switch
  deriving DecidableEq, Repr

namespace SettingKind

/-- What a document of another kind is told. -/
def requirement : SettingKind → Text
  | path => "must be a string"
  | names => "must be a string or string[]"
  | count => "must be a positive integer"
  | switch => "must be a boolean"

/-- The value that a document stands for, if it is of the kind. A single name stands for the list
of it. -/
def admit? : SettingKind → Document → Option Document
  | path, .text t => some (.text t)
  | names, .text t => some (.list [.text t])
  | names, .list items => if (Document.list items).texts?.isSome then some (.list items) else none
  | count, .number n =>
    if n.isInteger && (Number.finite 0 0).lt n then some (.number n) else none
  | switch, .bool b => some (.bool b)
  | _, _ => none

end SettingKind

namespace Setting

/-- The settings in the order in which they are checked and shown. -/
def all : List Setting :=
  [catalogueDir, outDir, languages, styles, maxDepth, maxCandidates, expansionLimit, failFast]

/-- The field that holds a setting. -/
def name : Setting → Text
  | catalogueDir => "catalogueDir"
  | outDir => "outDir"
  | languages => "languages"
  | styles => "styles"
  | maxDepth => "maxDepth"
  | maxCandidates => "maxCandidates"
  | expansionLimit => "expansionLimit"
  | failFast => "failFast"

def kind : Setting → SettingKind
  | catalogueDir | outDir => .path
  | languages | styles => .names
  | maxDepth | maxCandidates | expansionLimit => .count
  | failFast => .switch

/-- The value that holds where no layer makes the setting. -/
def standard : Setting → Document
  | catalogueDir => .text "./catalogue"
  | outDir => .text "./share/lang"
  | languages | styles => .list []
  | maxDepth => .number Limits.standard.maxDepth
  | maxCandidates => .number Limits.standard.maxCandidates
  | expansionLimit => .number Limits.standard.expansionLimit
  | failFast => .bool false

end Setting

/-- A configuration that does not hold. -/
structure ConfigError where
  file : Text
  problems : List Text
  deriving DecidableEq, Repr

namespace ConfigError

def message (e : ConfigError) : Text :=
  CatalogueError.problemList ("Invalid " ++ Path.base e.file) e.problems

end ConfigError

/-- The settings that one source makes, by their names. -/
abbrev Layer := Table Text Document

namespace Layer

/-- The layer of the settings that have a value. -/
def ofValues (value? : Setting → Option Document) : Layer :=
  Setting.all.filterMap fun setting => (value? setting).map fun value => (setting.name, value)

/-- The settings that fields make, as far as they are admitted. -/
def ofFields (fields : Table Text Document) : Layer :=
  ofValues fun setting => (Table.get? fields setting.name).bind setting.kind.admit?

/-- The problem with a field, if it is there and not admitted. -/
def problem? (fields : Table Text Document) (setting : Setting) : Option Text :=
  match Table.get? fields setting.name with
  | none => none
  | some value =>
    match setting.kind.admit? value with
    | some _ => none
    | none => some (setting.name ++ " " ++ setting.kind.requirement)

/-- The layer that the document of a file describes. -/
def ofDocument (file : Text) (raw : Document) : Except ConfigError Layer :=
  match raw.fields? with
  | none => .error ⟨file, ["configuration must be a JSON object"]⟩
  | some fields =>
    match Setting.all.filterMap (problem? fields) with
    | [] => .ok (ofFields fields)
    | problems => .error ⟨file, problems⟩

/-- The name of the configuration file that is read when no other is named. -/
def standardFile : Text := "transpile.config.json"

/-- The configuration file of a run. An empty path names none. -/
def fileOf (directory : Text) : Option Text → Text
  | none | some [] => Path.join directory standardFile
  | some path => Path.resolve directory path

/-- A configuration file is named. -/
def isNamed : Option Text → Bool
  | none | some [] => false
  | some _ => true

/-- The layer of the configuration file of a run. Only a file that is named has to be there. -/
def load? (tree : FileTree) (directory : Text) (path : Option Text) :
    Except ConfigError (Option Layer) :=
  let file := fileOf directory path
  if !tree.has file then
    if isNamed path then .error ⟨file, ["file does not exist"]⟩ else .ok none
  else
    match (tree.read file).toOption.bind Document.read? with
    | none => .error ⟨file, ["invalid JSON: the text is no document"]⟩
    | some raw => (ofDocument file raw).map some

end Layer

/-- The values of all settings, by their names. -/
abbrev Settings := Table Text Document

namespace Settings

/-- The settings where no layer makes any. -/
def standard : Settings := Setting.all.map fun setting => (setting.name, setting.standard)

/-- The settings after one more layer. -/
def withLayer (settings : Settings) (layer : Layer) : Settings :=
  layer.foldl (fun settings (name, value) => Table.set settings name value) settings

/-- What the layers make of the settings, the last layer first. -/
def ofLayers (layers : List Layer) : Settings := layers.foldl withLayer standard

/-- The value of a setting. -/
def get (settings : Settings) (setting : Setting) : Document :=
  (Table.get? settings setting.name).getD setting.standard

/-- The settings as they are shown. -/
def render (settings : Settings) : Text := (Document.object settings).printIndented 0

end Settings

/-- The settings of a run as values. -/
structure Config where
  catalogueDir : Text
  outDir : Text
  languages : List Text
  styles : List Text
  limits : Limits
  failFast : Bool
  deriving Repr

namespace Config

/-- A number as it is, zero for any other document. -/
def countOf : Document → Number
  | .number n => n
  | _ => .integer 0

/-- Values of the settings. Every admitted document is one of its setting's kind. -/
def ofSettings (settings : Settings) : Config where
  catalogueDir := (settings.get .catalogueDir).text?.getD []
  outDir := (settings.get .outDir).text?.getD []
  languages := (settings.get .languages).texts?.getD []
  styles := (settings.get .styles).texts?.getD []
  limits := ⟨countOf (settings.get .maxDepth), countOf (settings.get .maxCandidates),
    countOf (settings.get .expansionLimit)⟩
  failFast := match settings.get .failFast with
    | .bool b => b
    | _ => false

end Config

end Highlight
