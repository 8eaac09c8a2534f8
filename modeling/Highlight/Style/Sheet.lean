import Highlight.Catalogue.Entry
import Highlight.Dialect
import Highlight.Path
import Highlight.Style.Color

/-!
# Styles

A style gives style words to token types: colours, modifiers and a few words without effect. A
token with empty words inherits those of its closest ancestor by dots. A style is compiled to two
files: a sheet with one entry for each token, and a map from the colour names of the sheet to
terminal colours.
-/

namespace Highlight

/-- A style of the catalogue. -/
structure Style where
  name : Text
  /-- Style words of each token type, separated by blanks; none of them means to inherit. -/
  styles : Table Text Text
  sourceFile : Option Text
  deriving Repr

/-- Why a style is not compiled. -/
inductive StyleFault where
  | unknownColor (color value : Text)
  | unknownWord (word value : Text)
  | noColors
  deriving DecidableEq, Repr

namespace StyleFault

def message : StyleFault → Text
  | unknownColor color value => "could not translate color '" ++ color ++ "' in '" ++ value ++ "'"
  | unknownWord word value => "could not translate style word '" ++ word ++ "' in '" ++ value ++ "'"
  | noColors => "style mentions no colors"

end StyleFault

/-- What a report of a failed style says. -/
structure StyleReport where
  message : Text
  style : Option Text
  token : Option Text
  deriving DecidableEq, Repr

/-- The report with the place in front of the message. -/
def StyleReport.toText (r : StyleReport) : Text :=
  let place := Text.join " " (r.style.toList ++ r.token.toList)
  let place : Text := if place.isEmpty then [] else " in " ++ place
  "StyleError" ++ place ++ ": " ++ r.message

/-- A style that is not compiled. -/
structure StyleError where
  fault : StyleFault
  style : Option Text
  token : Option Text
  deriving DecidableEq, Repr

namespace StyleError

def report (e : StyleError) : StyleReport := ⟨e.fault.message, e.style, e.token⟩

def toText (e : StyleError) : Text := e.report.toText

end StyleError

namespace Style

/-- The style that the document of a file describes. -/
def ofDocument (file : Text) (raw : Document) : Except CatalogueError Style :=
  match raw.fields? with
  | none => .error (.notObject file)
  | some fields =>
    let name := Entry.name? fields
    let nameProblems : List Text :=
      if name.isSome then [] else ["/name must be a non-empty string"]
    let styles := (Entry.field? fields "styles").bind Document.fields?
    let styleProblems : List Text := match styles with
      | none => ["/styles must be an object of token type to style string"]
      | some styles => styles.filterMap fun (token, value) =>
        match value.text? with
        | some _ => none
        | none => some ("/styles/" ++ token ++ " must be a string")
    match name, nameProblems ++ styleProblems with
    | some name, [] =>
      .ok ⟨name, (styles.getD []).map fun (token, value) => (token, value.text?.getD []), some file⟩
    | _, problems => .error ⟨file, problems⟩

/-- The style that the text of a file describes. -/
def ofText (file text : Text) : Except CatalogueError Style :=
  match Document.read? text with
  | none => .error (.notDocument file)
  | some raw => ofDocument file raw

/-! ## Inheritance -/

/-- The ancestors of a token by dots, the closest first, given the token from its end. -/
def ancestorsFrom : Text → List Text
  | [] => []
  | u :: r => if u = unit '.' then r.reverse :: ancestorsFrom r else ancestorsFrom r

/-- The ancestors of a token by dots, the closest first. -/
def ancestors (token : TokenType) : List TokenType := ancestorsFrom token.reverse

/-- The words of the first token that has some. A token that the style does not mention ends the
search. -/
def firstWords (styles : Table Text Text) (fallback : Text) : List TokenType → Text
  | [] => fallback
  | token :: rest =>
    match Table.get? styles token with
    | none => fallback
    | some [] => firstWords styles fallback rest
    | some words => words

/-- The words of a token, its own or inherited. -/
def wordsOf (styles : Table Text Text) (token : TokenType) (fallback : Text) : Text :=
  firstWords styles fallback (token :: ancestors token)

/-! ## Order -/

/-- The parts of a token between its dots. -/
def segments (token : TokenType) : List Text := Text.splitAt (unit '.') token

/-- Compares two lists of parts: below zero if the first one comes first, above zero if the second
one does. The first parts that differ decide, and where one list begins the other, their lengths. -/
def compareSegments : List Text → List Text → Int
  | l :: left, r :: right =>
    if l = r then compareSegments left right else if l < r then -1 else 1
  | left, right => left.length - right.length

/-- Compares two tokens part by part, parents before children. -/
def compareTokens (a b : TokenType) : Int := compareSegments (segments a) (segments b)

/-- The first token comes no later than the second. -/
def tokenLe (a b : TokenType) : Bool := decide (compareTokens a b ≤ 0)

/-- Tokens part by part, parents before children. -/
def sortTokens (tokens : List TokenType) : List TokenType := tokens.mergeSort tokenLe

/-! ## Words -/

/-- The destination's letters for the modifiers. -/
def modifier? (word : Text) : Option Text :=
  if word = Text.ofString "bold" then some "b"
  else if word = Text.ofString "italic" then some "i"
  else if word = Text.ofString "underline" then some "u"
  else none

/-- Words without effect. -/
def ignored : List Text := ["noinherit", "nobold", "noitalic", "nounderline"]

/-- The name of a colour that is mentioned in a value. -/
def colorName (names : ColorNames) (value color : Text) : Except StyleFault Text :=
  match (Color.normalHex? color).bind names.nameFor? with
  | some name => .ok name
  | none => .error (.unknownColor color value)

/-- The words of a value in the destination: colours, and apart from them the modifiers. -/
def convertWords (names : ColorNames) (value : Text) :
    List Text → Except StyleFault (List Text × List Text)
  | [] => .ok ([], [])
  | word :: rest =>
    if (Text.ofString "#").isPrefixOf word then do
      let name ← colorName names value word
      let (colors, modifiers) ← convertWords names value rest
      .ok (name :: colors, modifiers)
    else if (Text.ofString "bg:#").isPrefixOf word then do
      let name ← colorName names value (word.drop 3)
      let (colors, modifiers) ← convertWords names value rest
      .ok (("bg:" ++ name) :: colors, modifiers)
    else match modifier? word with
      | some modifier => do
        let (colors, modifiers) ← convertWords names value rest
        .ok (colors, modifier :: modifiers)
      | none =>
        if ignored.contains word || (Text.ofString "border:").isPrefixOf word then
          convertWords names value rest
        else .error (.unknownWord word value)

/-- A style value in the words of the destination. -/
def convert (names : ColorNames) (value : Text) : Except StyleFault Text := do
  let (colors, modifiers) ← convertWords names value (Text.words value)
  let last : List Text := if modifiers.isEmpty then [] else [Text.join ", " modifiers]
  .ok (Text.join " " (colors ++ last))

/-! ## Files -/

/-- The file of the sheet of a style. -/
def sheetFile (name : Text) : Text := Text.lower name ++ ".style"

/-- The file of the colour map of a style. -/
def colorMapFile (name : Text) : Text := Text.lower name ++ "_esc256.outlang"

/-- The key under which the colour map of a style is looked up. -/
def colorMapKey (name : Text) : Text := Path.baseWithout ".outlang" (colorMapFile name)

/-- The words that a token takes when nothing gives it any: the greatest colour by its digits. -/
def foreground (names : ColorNames) : Text :=
  "#" ++ (Text.sort (Table.keys names.nameOf)).getLastD "undefined"

/-- The sheet entry of a token. -/
def sheetLine (style : Style) (names : ColorNames) (token : TokenType) : Except StyleError Text :=
  match convert names (wordsOf style.styles token (foreground names)) with
  | .ok words => .ok (Dialect.ruleName token ++ " " ++ words ++ ";")
  | .error fault => .error ⟨fault, some style.name, some token⟩

/-- The sheet of a style: one entry a line, parents before children. -/
def sheet (style : Style) (names : ColorNames) : Except StyleError Text := do
  let lines ← (sortTokens (Table.keys style.styles)).mapM (sheetLine style names)
  .ok (Text.lines lines ++ "\n")

/-- The colour map of a style. -/
def colorMap (style : Style) (names : ColorNames) : Text :=
  let entries := (Text.sort (Table.keys names.indexOf)).map fun name =>
    "\"" ++ name ++ "\" \"" ++ Text.ofNat ((Table.get? names.indexOf name).getD 0) ++ "\""
  let head : List Text := ["# style map for " ++ style.name, "extension \"txt\"", "",
    "styletemplate \"\\x1b[$stylem$text\\x1b[m\"", "color \"00;38;05;$style\"", "", "colormap"]
  let tail : List Text := ["default \"255\"", "end", ""]
  Text.lines (head ++ entries ++ tail)

/-- A style in the form of the destination. -/
structure Compiled where
  style : Style
  names : ColorNames
  sheet : Text
  colorMap : Text
  deriving Repr

/-- Compiles a style; one that mentions no colour cannot be compiled. -/
def compile (style : Style) : Except StyleError Compiled := do
  let names := ColorNames.ofPalette (Palette.ofValues (Table.values style.styles))
  if names.nameOf.isEmpty then .error ⟨.noColors, some style.name, none⟩
  else
    let sheet ← style.sheet names
    .ok ⟨style, names, sheet, style.colorMap names⟩

end Style

end Highlight
