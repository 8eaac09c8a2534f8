import Highlight.Catalogue.Entry
import Highlight.Text.Case

/-!
# The registry of languages

The languages of a catalogue in the order in which they came. No two of them have one name, letter
case apart. A name that no language has may still be an alias, and of several languages with that
alias the earliest one answers to it.
-/

namespace Highlight

/-- The languages of a catalogue, in order. -/
structure Registry where
  languages : List Language
  deriving Repr

namespace Registry

def empty : Registry := ⟨[]⟩

/-- The language of a name, without regard to case. -/
def get? (registry : Registry) (name : Text) : Option Language :=
  registry.languages.find? fun language => Text.lower language.name = Text.lower name

def has (registry : Registry) (name : Text) : Bool := (registry.get? name).isSome

def size (registry : Registry) : Nat := registry.languages.length

/-- The earliest language with an alias, without regard to case. -/
def byAlias? (registry : Registry) (name : Text) : Option Language :=
  registry.languages.find? fun language =>
    language.aliases.any fun a => Text.lower a = Text.lower name

/-- The language of a name, or else of an alias. -/
def resolve (registry : Registry) (name : Text) : Option Language :=
  match registry.get? name with
  | some language => some language
  | none => registry.byAlias? name

/-- The error for a second language of one name. -/
def alreadyDefined (language existing : Language) : CatalogueError :=
  let place : Text := match existing.sourceFile with
    | none | some [] => []
    | some file => " in " ++ file
  ⟨language.sourceFile.getD language.name,
    ["language '" ++ language.name ++ "' is already defined" ++ place]⟩

/-- The registry with one more language, unless its name is taken. -/
def add (registry : Registry) (language : Language) : Except CatalogueError Registry :=
  match registry.get? language.name with
  | some existing => .error (alreadyDefined language existing)
  | none => .ok ⟨registry.languages ++ [language]⟩

/-- What a list of requested names selects. -/
structure Selection where
  /-- The languages asked for, each once, in the order of the first request. -/
  languages : List Language
  /-- The names that nothing answers to, as often as they were asked for. -/
  missing : List Text

/-- The selection with one more request. -/
def request (registry : Registry) (selection : Selection) (name : Text) : Selection :=
  match registry.resolve name with
  | none => { selection with missing := selection.missing ++ [name] }
  | some language =>
    if selection.languages.any (·.name = language.name) then selection
    else { selection with languages := selection.languages ++ [language] }

/-- Splits requested names and aliases into languages and names that nothing answers to. -/
def select (registry : Registry) (names : List Text) : Selection :=
  names.foldl registry.request ⟨[], []⟩

/-- Adds every language that can be added and drops the others. -/
def ofLanguages (languages : List Language) : Except CatalogueError Registry :=
  languages.foldlM add empty

end Registry

end Highlight
