import Highlight.Language
import Highlight.Text.Case

/-!
# The lookup table

The table by which the destination finds the definition of a language: from names, aliases and file
extensions to definition files. Every key is entered as it is and in lower case, and the last
language to claim a key keeps it.
-/

namespace Highlight

/-- From lookup keys to definition files. -/
abbrev LookupTable := Table Text Text

namespace LookupTable

/-- What stands behind the last dot of a file name pattern, or all of it. -/
def extensionOf (glob : Text) : Text := Text.afterLast (unit '.') glob

/-- The keys by which a language is found. -/
def keysOf (language : Language) : List Text :=
  language.name :: language.aliases ++
    (language.filenames ++ language.aliasFilenames).map extensionOf

/-- Enters a key as it is and in lower case. -/
def enter (table : LookupTable) (key file : Text) : LookupTable :=
  Table.set (Table.set table key file) (Text.lower key) file

/-- Enters all keys of a language. -/
def add (table : LookupTable) (language : Language) (file : Text) : LookupTable :=
  (keysOf language).foldl (fun table key => enter table key file) table

/-- One key a line, in the order of code units. -/
def render (table : LookupTable) : Text :=
  let lines := (Text.sort (Table.keys table)).map fun key =>
    key ++ " = " ++ (Table.get? table key).getD []
  Text.lines lines ++ "\n"

end LookupTable

end Highlight
