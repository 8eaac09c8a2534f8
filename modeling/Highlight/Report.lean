import Highlight.Fault
import Highlight.Paint

/-!
# Reports of errors

Errors as the user reads them: a heading that names the kind and the place, and under it the
pattern with a caret at the offending position. A plain report escapes nothing; the one with a
snippet shows line breaks as escapes, so that the caret stays under its unit.
-/

namespace Highlight

/-- What a report of a failed compilation says. -/
structure Report where
  kind : Text
  message : Text
  site : Site
  /-- Where in the pattern the caret stands. -/
  offset : Option Number
  deriving DecidableEq, Repr

namespace Snippet

/-- What stands in front of a pattern. -/
def margin : Text := "  | "

/-- The pattern with its line breaks as escapes. -/
def escaped (pattern : Text) : Text :=
  Text.replace "\n" "\\n" (Text.replace "\r" "\\r" pattern)

/-- The position lies in a pattern or right behind it. -/
def isInside (pattern : Text) (offset : Number) : Bool :=
  !offset.lt (.integer 0) && !(Number.integer pattern.length).lt offset

/-- The pattern on a line of its own, and a caret under the position if it lies in the pattern. -/
def render (paint : Paint) (pattern : Text) (offset : Option Number) : Text :=
  let shown := margin ++ paint.reopening .brightRed (escaped pattern)
  match offset with
  | none => shown
  | some offset =>
    if isInside pattern offset then
      let column := (escaped (pattern.take offset.floorNat)).length
      shown ++ "\n" ++ margin ++ paint.reopening .yellow (Text.fill column (unit ' ') ++ "^")
    else shown

end Snippet

namespace Report

/-- Where the error was met: language and state, as far as they have a name. -/
def place (site : Site) : Text :=
  let language : Text := match site.language with
    | none | some [] => []
    | some language => " in " ++ language
  let state : Text := match site.state with
    | none | some [] => []
    | some state => " [" ++ state ++ "]"
  language ++ state

/-- The first line of a report. -/
def heading (r : Report) : Text := r.kind ++ place r.site ++ ": " ++ r.message

/-- The caret of the report has a place: there is none to draw, or a number of blanks goes in front
of it. -/
def isDrawable (r : Report) : Bool :=
  match r.site.pattern, r.offset with
  | some _, some offset => offset.isCount
  | _, _ => true

/-- The report with the pattern as it is. -/
def toText (r : Report) : Text :=
  match r.site.pattern with
  | none => r.heading
  | some pattern =>
    let caret : Text := match r.offset with
      | none => []
      | some offset => "\n  | " ++ Text.fill offset.floorNat (unit ' ') ++ "^"
    r.heading ++ "\n\n  | " ++ pattern ++ caret

/-- The report with a snippet of the pattern. -/
def render (paint : Paint) (r : Report) : Text :=
  let heading := paint.replacing .bold r.heading
  match r.site.pattern with
  | none => heading
  | some pattern =>
    heading ++ "\n\n" ++ Snippet.render paint pattern r.offset

end Report

namespace GrammarError

/-- What the user is told about the error. -/
def report (e : GrammarError) : Report :=
  ⟨e.fault.kind.name, e.fault.message, e.site, e.offset.map fun offset => .integer offset⟩

def toText (e : GrammarError) : Text := e.report.toText

end GrammarError

/-- What a report of a failed sub-lexer says. -/
structure LexerReport where
  message : Text
  language : Text
  state : Option Text
  pattern : Option Text
  deriving DecidableEq, Repr

namespace LexerReport

def toText (r : LexerReport) : Text :=
  let location : Text := match r.state with
    | none | some [] => r.language
    | some state => r.language ++ ":" ++ state
  let snippet : Text := match r.pattern with
    | none => []
    | some pattern => "\n\n  | " ++ pattern
  "LexerError at " ++ location ++ ": " ++ r.message ++ snippet

end LexerReport

namespace LexerError

def report (e : LexerError) : LexerReport := ⟨e.fault.message, e.language, e.state, e.pattern⟩

def toText (e : LexerError) : Text := e.report.toText

end LexerError

end Highlight
