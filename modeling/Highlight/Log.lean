import Highlight.Paint

/-!
# The log

What a run tells its user, message by message. A message has a level, which decides the mark in
front of it and the stream it goes to; a logger leaves out what is meant for debugging unless it is
asked for it.
-/

namespace Highlight

/-- How much a message matters. -/
inductive Level where
  | info | success | warning | error | debug
  deriving DecidableEq, Repr

/-- Where a line goes. -/
inductive Stream where
  | output | errors
  deriving DecidableEq, Repr

/-- A message of a run. -/
structure Message where
  level : Level
  text : Text
  deriving DecidableEq, Repr

/-- How messages are written. -/
structure Logger where
  paint : Paint
  /-- Messages for debugging are written too. -/
  verbose : Bool
  deriving DecidableEq, Repr

namespace Level

/-- The stream of a message. -/
def stream : Level → Stream
  | info | success | debug => .output
  | warning | error => .errors

/-- The mark in front of a message. -/
def mark : Level → Text
  | info => "i"
  | success => "✔"
  | warning => "⚠"
  | error => "✖"
  | debug => "·"

/-- The style of the mark; the style of the whole line for debugging. -/
def style : Level → TextStyle
  | info => .blue
  | success => .green
  | warning => .yellow
  | error => .red
  | debug => .dim

end Level

namespace Logger

/-- The line of a message. -/
def line (logger : Logger) (message : Message) : Text :=
  let level := message.level
  match level with
  | .debug => logger.paint.replacing level.style (level.mark ++ "  " ++ message.text)
  | _ => logger.paint.replacing level.style level.mark ++ "  " ++ message.text

/-- The message is written. -/
def writes (logger : Logger) (message : Message) : Bool :=
  logger.verbose || message.level ≠ .debug

/-- The lines of a log, each with its stream. -/
def lines (logger : Logger) (messages : List Message) : List (Stream × Text) :=
  (messages.filter logger.writes).map fun message => (message.level.stream, logger.line message)

end Logger

end Highlight
