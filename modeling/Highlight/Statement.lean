import Highlight.Dialect
import Highlight.Text.Case

/-!
# Statements of a language definition

A compiled language is a list of statements, each one line of the destination's definition file.
A statement binds tokens to what patterns match, and may open a block, close one, or leave the
current state. `Statement.depth` says how many blocks it stands in.
-/

namespace Highlight

/-- What gives text a token. -/
inductive Binding where
  /-- Everything that the pattern matches. -/
  | single (token : TokenType) (pattern : Text)
  /-- The end of a line. -/
  | lineEnd (token : TokenType)
  /-- From what the pattern matches to the end of the line. -/
  | lineStart (token : TokenType) (lead : Text)
  /-- One token for each group of the pattern. -/
  | groups (tokens : List TokenType) (pattern : Text)
  /-- A region between two delimiters, which may hold such regions itself. -/
  | region (token : TokenType) (entering leaving : Text) (multiline : Bool)
  deriving DecidableEq, Repr

/-- A line of a language definition. -/
inductive Statement where
  | comment (depth : Nat) (text : Text)
  | rule (depth : Nat) (binding : Binding)
  /-- Leaves as many states as `count` says. -/
  | leave (depth : Nat) (binding : Binding) (count : Number)
  | blockStart (depth : Nat) (binding : Binding)
  | blockEnd (depth : Nat)
  deriving DecidableEq, Repr

namespace Binding

/-- A pattern between single quotes. -/
def quoted (pattern : Text) : Text := "'" ++ Dialect.quoteSafe pattern ++ "'"

/-- The binding as it stands in a definition. -/
def render : Binding → Text
  | single token pattern => Dialect.ruleName token ++ " = " ++ quoted pattern
  | lineEnd token => Dialect.ruleName token ++ " = '$'"
  | lineStart token lead => Dialect.ruleName token ++ " start " ++ quoted lead
  | groups tokens pattern =>
    "(" ++ Text.join "," (tokens.map Dialect.ruleName) ++ ") = `" ++ pattern ++ "`"
  | region token entering leaving multiline =>
    let flags : Text := if multiline then "multiline nested" else "nested"
    Dialect.ruleName token ++ " delim " ++ quoted entering ++ " " ++ quoted leaving ++ " " ++ flags

end Binding

namespace Statement

/-- The blocks around a statement. -/
def depth : Statement → Nat
  | comment depth _ | rule depth _ | leave depth _ _ | blockStart depth _ | blockEnd depth => depth

/-- The blanks in front of a statement. -/
def indent (depth : Nat) : Text := Text.fill (2 * depth) (unit ' ')

/-- The statement without the blanks in front. -/
def body : Statement → Text
  | comment _ text => "# " ++ text
  | rule _ binding => binding.render
  | leave _ binding count =>
    let times : Text := if (Number.finite 1 0).lt count then " " ++ count.toText else []
    binding.render ++ " exit" ++ times
  | blockStart _ binding => "state " ++ binding.render ++ " begin"
  | blockEnd _ => "end"

/-- The statement as a line, without its line feed. -/
def render (statement : Statement) : Text := indent statement.depth ++ statement.body

end Statement

namespace Definition

/-- The first line of the definition of a language. -/
def header (name : Text) : Text := "# autogenerated from the " ++ name ++ " lexer grammar"

/-- The definition of a language: its header and one line for each statement. -/
def render (name : Text) (statements : List Statement) : Text :=
  Text.lines (header name :: statements.map Statement.render) ++ "\n"

/-- The file that holds the definition of a language. -/
def fileName (name : Text) : Text :=
  ((Text.lower name).map fun u => if u = unit ' ' then unit '-' else u) ++ ".lang"

end Definition

end Highlight
