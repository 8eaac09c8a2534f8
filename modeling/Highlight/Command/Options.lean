import Highlight.Config
import Highlight.Number.Word

/-!
# Command-line options

The arguments of a run, read from left to right. A flag sets one option, and some flags take the
next argument as their value. An argument that is no flag names the catalogue directory, which can
be named once. The first argument that does not fit ends the reading.
-/

namespace Highlight

/-- The options of a run. -/
structure Options where
  catalogueDir : Option Text
  outDir : Option Text
  languages : List Text
  styles : List Text
  noStyles : Bool
  maxDepth : Option Number
  failFast : Bool
  configPath : Option Text
  listConfig : Bool
  verbose : Bool
  color : Bool
  help : Bool
  deriving DecidableEq, Repr

/-- Why arguments are refused. -/
inductive UsageError where
  | valueMissing (flag : Text)
  | notACount (value : Text)
  | unknownOption (argument : Text)
  /-- A second argument that is no flag. -/
  | unexpected (argument : Text)
  deriving DecidableEq, Repr

namespace UsageError

def message : UsageError → Text
  | valueMissing flag => flag ++ " requires a value"
  | notACount value => "--max-depth must be a positive integer, got '" ++ value ++ "'"
  | unknownOption argument => "Unknown option: " ++ argument
  | unexpected argument => "Unexpected argument: " ++ argument

end UsageError

/-- A flag of the command line. -/
inductive Flag where
  | out | lang | style | noStyles | maxDepth | failFast | config | listConfig | verbose | noColor
  | help
  deriving DecidableEq, Repr

namespace Flag

/-- The spellings of the flags. -/
def spellings : List (Text × Flag) := [
  ("--out", out), ("--lang", lang), ("--style", style), ("--no-styles", noStyles),
  ("--max-depth", maxDepth), ("--fail-fast", failFast), ("--config", config),
  ("--list-config", listConfig), ("--verbose", verbose), ("-v", verbose),
  ("--no-color", noColor), ("--help", help), ("-h", help)]

/-- The flag that an argument spells. -/
def ofArgument? (argument : Text) : Option Flag := Table.get? spellings argument

/-- The flag takes the next argument as its value. -/
def takesValue : Flag → Bool
  | out | lang | style | maxDepth | config => true
  | noStyles | failFast | listConfig | verbose | noColor | help => false

end Flag

namespace Options

/-- The options of a run without arguments. -/
def standard : Options where
  catalogueDir := none
  outDir := none
  languages := []
  styles := []
  noStyles := false
  maxDepth := none
  failFast := false
  configPath := none
  listConfig := false
  verbose := false
  color := true
  help := false

/-- The positive integer that a value denotes. -/
def count (value : Text) : Except UsageError Number :=
  match Number.ofWord? value with
  | some n => if n.isInteger && (Number.finite 0 0).lt n then .ok n else .error (.notACount value)
  | none => .error (.notACount value)

/-- Sets the option of a flag that takes a value. -/
def withValue (o : Options) (flag : Flag) (value : Text) : Except UsageError Options :=
  match flag with
  | .out => .ok { o with outDir := some value }
  | .lang => .ok { o with languages := o.languages ++ [value] }
  | .style => .ok { o with styles := o.styles ++ [value] }
  | .maxDepth => (count value).map fun n => { o with maxDepth := some n }
  | .config => .ok { o with configPath := some value }
  | _ => .ok o

/-- Sets the option of a flag that stands alone. -/
def withSwitch (o : Options) : Flag → Options
  | .noStyles => { o with noStyles := true }
  | .failFast => { o with failFast := true }
  | .listConfig => { o with listConfig := true }
  | .verbose => { o with verbose := true }
  | .noColor => { o with color := false }
  | .help => { o with help := true }
  | _ => o

/-- Takes an argument that is no flag. -/
def withDirectory (o : Options) (argument : Text) : Except UsageError Options :=
  if (Text.ofString "-").isPrefixOf argument then .error (.unknownOption argument)
  else if o.catalogueDir.isSome then .error (.unexpected argument)
  else .ok { o with catalogueDir := some argument }

/-- An argument that can be the value of a flag: it does not look like a long flag itself. -/
def isValue (argument : Text) : Bool := !(Text.ofString "--").isPrefixOf argument

/-- The options that arguments set beyond those set so far. -/
def readFrom (o : Options) : List Text → Except UsageError Options
  | [] => .ok o
  | argument :: rest =>
    match Flag.ofArgument? argument with
    | none => do readFrom (← o.withDirectory argument) rest
    | some flag =>
      if flag.takesValue then
        match rest with
        | value :: rest =>
          if isValue value then do readFrom (← o.withValue flag value) rest
          else .error (.valueMissing argument)
        | [] => .error (.valueMissing argument)
      else readFrom (o.withSwitch flag) rest

/-- The options that arguments set. -/
def ofArguments (arguments : List Text) : Except UsageError Options := standard.readFrom arguments

/-- A list that is not empty, as a setting. -/
def named (names : List Text) : Option Document :=
  if names.isEmpty then none else some (.list (names.map .text))

/-- The settings that the options make. -/
def layer (o : Options) : Layer := Layer.ofValues fun
  | .catalogueDir => o.catalogueDir.map .text
  | .outDir => o.outDir.map .text
  | .languages => named o.languages
  | .styles => named o.styles
  | .maxDepth => o.maxDepth.map .number
  | .failFast => if o.failFast then some (.bool true) else none
  | .maxCandidates | .expansionLimit => none

end Options

end Highlight
