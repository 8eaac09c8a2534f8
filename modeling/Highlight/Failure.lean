import Highlight.Config
import Highlight.Report
import Highlight.Style.Sheet

/-!
# Failures

Everything that can go wrong in a run, under one type, and the two texts that it has: the named
form, and the form that the user reads. They differ where a failure has a snippet of a pattern, and
where the message alone says what it is about.
-/

namespace Highlight

/-- What can go wrong in a run. -/
inductive Failure where
  | grammar (report : Report)
  | catalogue (e : CatalogueError)
  | config (e : ConfigError)
  | style (report : StyleReport)
  | lexer (report : LexerReport)
  | usage (message : Text)
  | file (e : FileError)
  /-- Anything else that has a message. -/
  | other (message : Text)
  /-- Anything else, by its text. -/
  | value (text : Text)
  deriving Repr

namespace Failure

/-- A message behind the name of its kind. -/
def named (name message : Text) : Text :=
  if message.isEmpty then name else name ++ ": " ++ message

/-- The failure behind the name of its kind. -/
def toText : Failure → Text
  | grammar report => report.toText
  | catalogue e => named "CatalogueError" e.message
  | config e => named "ConfigError" e.message
  | style report => report.toText
  | lexer report => report.toText
  | usage message => named "UsageError" message
  | file e => named e.name e.message
  | other message => named "Error" message
  | value text => text

/-- The failure as the user reads it. -/
def render (paint : Paint) : Failure → Text
  | grammar report => report.render paint
  | catalogue e => e.message
  | failure => failure.toText

/-- The failure to read a file that should hold a grammar. -/
def unreadableGrammar (path : Text) (e : FileError) : Failure :=
  .other ("Failed to read grammar file " ++ path ++ ": " ++ e.message)

/-- The failure to load an entry of the catalogue. -/
def ofLoadError : LoadError → Failure
  | .catalogue e => .catalogue e
  | .grammar e => .grammar e.report
  | .file e => .file e

end Failure

end Highlight
