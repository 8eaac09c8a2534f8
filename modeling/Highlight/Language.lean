import Highlight.Document.Basic

/-!
# Languages

A language is described by a lexer grammar: a graph of states, each with an ordered list of rules.
A rule matches a pattern, names the token for what it matched, and may move to another state.
-/

namespace Highlight

/-- Type of a token in dotted form, such as `Token.Name.Function`. -/
abbrev TokenType := Text

namespace TokenType

/-- Text that no rule names more closely. -/
def text : TokenType := "Token.Text"

/-- Text that no rule matches. -/
def error : TokenType := "Token.Error"

end TokenType

/-- Names a lexer to run over a sample. -/
structure LexerRef where
  /-- The name of a language, or `this` for the one at hand. -/
  lexer : Text
  /-- The state to start in; the root state if none is given. -/
  state : Option Text
  deriving DecidableEq, Repr

/-- The word that stands for the language at hand. -/
def LexerRef.this : Text := "this"

/-- How the matched text is named. -/
inductive TokenSpec where
  | literal (token : TokenType)
  /-- One item for each group of the pattern. -/
  | compound (items : List TokenSpec)
  /-- The token that another lexer gives to the text. -/
  | dynamic (ref : LexerRef)
  deriving Repr, Inhabited

/-- A rule of a state. -/
inductive Rule where
  /-- Stays in the state. -/
  | literal (pattern : Text) (token : TokenSpec)
  /-- Enters another state. -/
  | nested (pattern : Text) (token : TokenSpec) (target : Text)
  /-- Stands for the rules of another state. -/
  | splice (target : Text)
  /-- Enters its own state once more. -/
  | push (pattern : Text) (token : TokenSpec)
  /-- Leaves the state, and `count - 1` more. -/
  | pop (pattern : Text) (token : TokenSpec) (count : Number)
  /-- A rule of no known kind, kept as it came, which may lack a pattern and a token. A lexer runs
  it, but it cannot be compiled. -/
  | unknown (raw : Document) (pattern : Option Text) (token : Option TokenSpec)
  deriving Repr, Inhabited

namespace Rule

/-- The pattern of a rule that has one. -/
def pattern? : Rule → Option Text
  | literal pattern _ | nested pattern _ _ | push pattern _ | pop pattern _ _ => some pattern
  | unknown _ pattern _ => pattern
  | splice _ => none

/-- The token of a rule that has one. -/
def token? : Rule → Option TokenSpec
  | literal _ token | nested _ token _ | push _ token | pop _ token _ => some token
  | unknown _ _ token => token
  | splice _ => none

def isPush : Rule → Bool
  | push .. => true
  | _ => false

def isPop : Rule → Bool
  | pop .. => true
  | _ => false

end Rule

/-- The rules of each state, in the order of the states. -/
abbrev Graph := Table Text (List Rule)

/-- The state in which a language starts. -/
def rootState : Text := "root"

/-- A language of the catalogue. -/
structure Language where
  name : Text
  aliases : List Text
  filenames : List Text
  aliasFilenames : List Text
  graph : Graph
  sourceFile : Option Text
  deriving Repr, Inhabited

end Highlight
