import Highlight.Document.Printer
import Highlight.Language
import Highlight.Pattern.Expectation

/-!
# What can go wrong with a language

The causes for which a language cannot be read, lexed or compiled, and the errors that carry
them. A cause is a constructor with the data of the case; its wording is in `message` alone. An
error adds where the cause was met. The places that know less leave fields open, and the callers
that know more fill them in with `within`, which overwrites nothing.
-/

namespace Highlight

/-- What is beyond every account of a language: work that cannot be done at all. -/
inductive Breakdown where
  /-- A repetition is to be expanded a number of times that no list is long. -/
  | badLength
  /-- A property is asked of something that is not there. -/
  | missingValue (property : Text)
  deriving DecidableEq, Repr

namespace Breakdown

/-- What the error is called. -/
def name : Breakdown → Text
  | badLength => "RangeError"
  | missingValue _ => "TypeError"

def message : Breakdown → Text
  | badLength => "Invalid array length"
  | missingValue property => "Cannot read properties of undefined (reading '" ++ property ++ "')"

end Breakdown

/-- Why a sub-lexer cannot be built. -/
inductive LexerFault where
  | unknownStart (state : Text)
  /-- The pattern is no regular expression of the host. -/
  | invalidPattern (source : Text)
  /-- Groups that capture are left in the source. -/
  | captureGroups (source : Text)
  /-- The rules of the state `$all` bring a second rule for unmatched text into a state. -/
  | secondErrorRule
  | missingState (target : Text) (rule : Nat) (state : Text)
  /-- The start state is not among the states that can be entered. -/
  | noStart
  /-- A rule lacks its pattern or its token. -/
  | breakdown (cause : Breakdown)
  deriving DecidableEq, Repr

namespace LexerFault

/-- The name of the rule at a position of a state. -/
def ruleName (index : Nat) : Text := "rule" ++ Text.ofNat index

def message : LexerFault → Text
  | unknownStart state => "Unknown start state '" ++ state ++ "'"
  | invalidPattern source => "Invalid pattern: Invalid regular expression: /" ++ source ++ "/"
  | captureGroups source =>
    "Lexer compilation failed: RegExp has capture groups: /(?:(?:" ++ source ++
      "))/\nUse (?: … ) instead"
  | secondErrorRule =>
    "Lexer compilation failed: Multiple error rules not allowed (for token '" ++
      TokenType.error ++ "')"
  | missingState target rule state =>
    "Lexer compilation failed: Missing state '" ++ target ++ "' (in token '" ++ ruleName rule ++
      "' of state '" ++ state ++ "')"
  | noStart => "Lexer compilation failed: Cannot read properties of undefined (reading 'groups')"
  | breakdown cause => cause.message

end LexerFault

/-- A sub-lexer that cannot be built. -/
structure LexerError where
  fault : LexerFault
  language : Text
  state : Option Text
  pattern : Option Text
  deriving DecidableEq, Repr

/-- The kinds of causes for which a language is not compiled. -/
inductive FaultKind where
  | unsupportedConstruct
  | unsupportedTokenSpec
  | malformedGroupSample
  | unrecognizedRuleShape
  | recursionLimitExceeded
  | unknownState
  | groupCountMismatch
  | breakdown (cause : Breakdown)
  deriving DecidableEq, Repr

/-- The name of a kind in messages. -/
def FaultKind.name : FaultKind → Text
  | unsupportedConstruct => "UnsupportedConstruct"
  | unsupportedTokenSpec => "UnsupportedTokenSpec"
  | malformedGroupSample => "MalformedGroupSample"
  | unrecognizedRuleShape => "UnrecognizedRuleShape"
  | recursionLimitExceeded => "RecursionLimitExceeded"
  | unknownState => "UnknownState"
  | groupCountMismatch => "GroupCountMismatch"
  | breakdown cause => cause.name

/-- Why a language cannot be read or compiled. -/
inductive Fault where
  /-- A group that does not capture is left when all idioms are replaced. -/
  | uncaptured (opening : Text)
  | unreadableToken (place : Text) (raw : Document)
  | unreadableRule (place : Text) (raw : Document)
  | unknownRule (raw : Document)
  /-- A region lacks entering or exiting rules. -/
  | openRegion (entering exiting : Nat)
  | regionToken
  | noSuchLexer (name : Text)
  /-- A group, counted from one, is bound to a list of tokens. -/
  | nestedList (group : Nat)
  | unboundDynamic
  | noSuchState (state : Text)
  | noSuchLexerState (language state : Text)
  | undefinedTarget (state target : Text)
  | groupCount (groups tokens : Nat)
  | tooDeep (limit : Number)
  | subLexer (language : Text) (fault : LexerFault)
  | unsampled (error : PatternError)
  | invalidGroup (source : Text)
  | unmatchedSample (sample : Text)
  | noToken (text : Text)
  | breakdown (cause : Breakdown)
  deriving Repr

namespace Fault

def kind : Fault → FaultKind
  | uncaptured _ => .unsupportedConstruct
  | unreadableToken .. | regionToken | noSuchLexer _ | nestedList _ | unboundDynamic =>
    .unsupportedTokenSpec
  | unreadableRule .. | unknownRule _ | openRegion .. => .unrecognizedRuleShape
  | noSuchState _ | noSuchLexerState .. | undefinedTarget .. => .unknownState
  | groupCount .. => .groupCountMismatch
  | tooDeep _ => .recursionLimitExceeded
  | subLexer .. | unsampled _ | invalidGroup _ | unmatchedSample _ | noToken _ =>
    .malformedGroupSample
  | breakdown cause => .breakdown cause

/-- The work broke down, so there is nothing more to tell. -/
def isBreakdown : Fault → Bool
  | breakdown _ => true
  | _ => false

def message : Fault → Text
  | uncaptured opening => "uncaptured prefix '" ++ opening ++ "' remains after rewriting"
  | unreadableToken place raw => place ++ ": cannot interpret token " ++ raw.print
  | unreadableRule place raw => place ++ ": cannot interpret rule " ++ raw.print
  | unknownRule raw => "cannot interpret rule " ++ raw.print
  | openRegion entering exiting =>
    "a nested region needs both an entering and an exiting rule (found " ++ Text.ofNat entering ++
      " and " ++ Text.ofNat exiting ++ ")"
  | regionToken => "a nested region must bind a single token"
  | noSuchLexer name => "no lexer named '" ++ name ++ "' is available"
  | nestedList group => "group " ++ Text.ofNat group ++ " binds a nested group list"
  | unboundDynamic => "a sub-lexer can only be bound to a group"
  | noSuchState state => "state '" ++ state ++ "' is not defined"
  | noSuchLexerState language state =>
    "lexer '" ++ language ++ "' has no state '" ++ state ++ "'"
  | undefinedTarget state target =>
    "state '" ++ state ++ "' refers to undefined state '" ++ target ++ "'"
  | groupCount groups tokens =>
    "pattern has " ++ Text.ofNat groups ++ " top-level group(s) but " ++ Text.ofNat tokens ++
      " token(s) are bound"
  | tooDeep limit =>
    "more than " ++ limit.toText ++ " nested state translations"
  | subLexer language fault =>
    "sub-lexer '" ++ language ++ "' cannot run: " ++ fault.message
  | unsampled error => "cannot sample pattern: " ++ error.message
  | invalidGroup source =>
    "group cannot be compiled: Invalid regular expression: /" ++ source ++ "/"
  | unmatchedSample sample => "generated sample '" ++ sample ++ "' does not match its group"
  | noToken text => "sub-lexer produced no token for '" ++ text ++ "'"
  | breakdown cause => cause.message

end Fault

/-- Where a cause was met, as far as that is known. -/
structure Site where
  pattern : Option Text
  state : Option Text
  language : Option Text
  deriving DecidableEq, Repr

namespace Site

def unknown : Site := ⟨none, none, none⟩

/-- Fills in what is still open from a site around this one. -/
def within (inner outer : Site) : Site where
  pattern := inner.pattern <|> outer.pattern
  state := inner.state <|> outer.state
  language := inner.language <|> outer.language

end Site

/-- A cause and where it was met. -/
structure GrammarError where
  fault : Fault
  site : Site
  /-- Position inside the pattern of the site that the cause points at. -/
  offset : Option Nat
  deriving Repr

namespace GrammarError

/-- A cause met at an unknown place. -/
def ofFault (fault : Fault) : GrammarError := ⟨fault, .unknown, none⟩

/-- A cause met at a pattern. -/
def atPattern (fault : Fault) (pattern : Text) : GrammarError :=
  ⟨fault, { Site.unknown with pattern }, none⟩

/-- A cause met at a position of a pattern. -/
def atOffset (fault : Fault) (pattern : Text) (offset : Nat) : GrammarError :=
  ⟨fault, { Site.unknown with pattern }, some offset⟩

/-- A cause met in a state. -/
def atState (fault : Fault) (state : Text) : GrammarError :=
  ⟨fault, { Site.unknown with state }, none⟩

/-- Fills in what is still open about the site. A breakdown has none. -/
def within (e : GrammarError) (outer : Site) : GrammarError :=
  if e.fault.isBreakdown then e else { e with site := e.site.within outer }

end GrammarError

/-- A file of the catalogue that does not describe a language or a style. -/
structure CatalogueError where
  file : Text
  problems : List Text
  deriving DecidableEq, Repr

namespace CatalogueError

/-- One problem a line, under a heading. -/
def problemList (heading : Text) (problems : List Text) : Text :=
  heading ++ ":\n" ++ Text.lines (problems.map ("  - " ++ ·))

def message (e : CatalogueError) : Text :=
  problemList ("Invalid catalogue file " ++ e.file) e.problems

end CatalogueError

end Highlight
