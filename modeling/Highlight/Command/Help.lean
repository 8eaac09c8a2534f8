import Highlight.Paint

/-!
# Help

The text that explains the command line to its user.
-/

namespace Highlight.Help

/-- The column at which the explanation of an option starts, without the margin. -/
def flagWidth : Nat := 22

/-- A flag in green, filled up to the width of its column, and its explanation. -/
def option (paint : Paint) (flag explanation : Text) : Text :=
  let padded := flag ++ Text.fill (flagWidth - flag.length) (unit ' ')
  "  " ++ paint.replacing .green padded ++ explanation

/-- The options with their explanations. -/
def options : List (Text × Text) := [
  ("--out <dir>", "Output directory (default: ./share/lang)"),
  ("--lang <name>", "Only generate this language; repeatable"),
  ("--style <name>", "Only generate this style; repeatable"),
  ("--no-styles", "Skip style generation"),
  ("--max-depth <n>", "Nested state translation limit (default: 64)"),
  ("--fail-fast", "Stop at the first language that fails"),
  ("--config <path>", "Configuration file (default: ./transpile.config.json)"),
  ("--list-config", "Print the resolved configuration and exit"),
  ("--verbose, -v", "Enable verbose output"),
  ("--no-color", "Disable colored output"),
  ("--help, -h", "Show this help")]

/-- The help text. -/
def render (paint : Paint) : Text :=
  let title := paint.replacing .bold "lang-transpile" ++
    Text.ofString " - Translate lexer grammars into source-highlight language definitions"
  let head : List Text := ["", title, "", paint.replacing .bold "USAGE:",
    "  lang-transpile [catalogue] [options]", "", paint.replacing .bold "OPTIONS:"]
  let tail : List Text := ["", paint.replacing .bold "EXAMPLES:",
    "  lang-transpile ./catalogue --out ./share/lang",
    "  lang-transpile --lang ini --lang diff --no-styles", ""]
  let body := options.map fun (flag, explanation) => option paint flag explanation
  Text.lines (head ++ body ++ tail)

end Highlight.Help
