import Highlight.Number.Basic
import Highlight.Table
import Highlight.Text.Case

/-!
# Colours

The colours of a style and the colours of the destination. A style mentions colours in hexadecimal;
they form its palette. The destination knows eighteen names, each of which stands for the nearest
colour of the palette, and terminals know the 240 colours of a cube and a grey ramp.
-/

namespace Highlight

/-- The key with the least measure, the first of several. -/
def leastKey? {κ δ : Type} (lt : δ → δ → Bool) : List (κ × δ) → Option κ
  | [] => none
  | first :: rest => some (rest.foldl (fun best entry => if lt entry.2 best.2 then entry else best)
      first).1

/-- A colour by its red, green and blue parts. -/
structure Rgb where
  red : Int
  green : Int
  blue : Int
  deriving DecidableEq, Repr

namespace Rgb

/-- The square of the distance of two colours. -/
def distance (a b : Rgb) : Int :=
  (a.red - b.red) * (a.red - b.red) + (a.green - b.green) * (a.green - b.green) +
    (a.blue - b.blue) * (a.blue - b.blue)

/-- The colour of six hexadecimal digits. -/
def ofHex (hex : Text) : Rgb :=
  let n := Text.hexadecimal hex
  ⟨(n / 65536 % 256 : Nat), (n / 256 % 256 : Nat), (n % 256 : Nat)⟩

/-- The key of the entry whose colour is nearest to a target, the first of several. -/
def nearest? {κ : Type} (target : Rgb) (entries : List (κ × Rgb)) : Option κ :=
  leastKey? (fun a b => decide (a < b))
    (entries.map fun (key, color) => (key, target.distance color))

end Rgb

/-- A point of the space of colours. Its parts may lie between those of colours or outside. -/
structure ColorPoint where
  red : Number
  green : Number
  blue : Number
  deriving DecidableEq, Repr

namespace ColorPoint

/-- The square of the distance of a part from that of a colour. -/
def gap (part : Number) (level : Int) : Number :=
  let d := part.minus (.integer level)
  d.times d

/-- The square of the distance of a colour, as far as numbers are exact. -/
def distance (p : ColorPoint) (c : Rgb) : Number :=
  ((gap p.red c.red).plus (gap p.green c.green)).plus (gap p.blue c.blue)

/-- The key of the entry whose colour is nearest, the first of several. Colours at a distance
beyond all numbers do not count. -/
def nearest? {κ : Type} (p : ColorPoint) (entries : List (κ × Rgb)) : Option κ :=
  leastKey? Number.lt
    ((entries.map fun (key, color) => (key, p.distance color)).filter fun entry =>
      entry.2.isFinite)

end ColorPoint

namespace Color

/-- Six lower-case hexadecimal digits for a colour of three or six digits, with or without a number
sign. -/
def normalHex? (t : Text) : Option Text :=
  let hex := if t.head? = some (unit '#') then t.drop 1 else t
  if !hex.all CodeUnit.isHexDigit then none
  else if hex.length = 6 then some (Text.lower hex)
  else if hex.length = 3 then some ((Text.lower hex).flatMap fun u => [u, u])
  else none

/-- The names of the destination and the colours that they stand for. -/
def logical : List (Text × Rgb) := [
  ("black", ⟨0, 0, 0⟩), ("red", ⟨255, 0, 0⟩), ("darkred", ⟨170, 0, 0⟩), ("brown", ⟨170, 85, 0⟩),
  ("yellow", ⟨255, 255, 0⟩), ("cyan", ⟨0, 255, 255⟩), ("blue", ⟨0, 0, 255⟩),
  ("pink", ⟨255, 0, 255⟩), ("purple", ⟨170, 0, 170⟩), ("orange", ⟨252, 127, 0⟩),
  ("brightorange", ⟨252, 170, 0⟩), ("green", ⟨0, 255, 0⟩), ("brightgreen", ⟨85, 255, 85⟩),
  ("darkgreen", ⟨0, 128, 0⟩), ("teal", ⟨0, 128, 128⟩), ("gray", ⟨170, 170, 170⟩),
  ("darkblue", ⟨0, 0, 170⟩), ("white", ⟨255, 255, 255⟩)]

/-- The six levels of each part of a colour in the cube. -/
def cubeLevel : Nat → Int
  | 0 => 0
  | 1 => 0x5F
  | 2 => 0x87
  | 3 => 0xAF
  | 4 => 0xD7
  | _ => 0xFF

/-- The terminal colour of an index from 16 to 255: the cube up to 231, then the greys. -/
def terminal (index : Nat) : Rgb :=
  if 232 ≤ index then
    let level : Int := 8 + (index - 232) * 10
    ⟨level, level, level⟩
  else
    let cube := index - 16
    ⟨cubeLevel (cube / 36), cubeLevel (cube / 6 % 6), cubeLevel (cube % 6)⟩

/-- The terminal colours by their index. -/
def terminals : List (Nat × Rgb) :=
  (List.range' 16 240).map fun index => (index, terminal index)

/-- The index of the nearest terminal colour, the least of several. -/
def terminalIndex (color : Rgb) : Nat := (color.nearest? terminals).getD 16

/-- The index of the terminal colour that is nearest to a point, the least of several. -/
def terminalIndexOf (p : ColorPoint) : Nat := (p.nearest? terminals).getD 16

/-- The level of a part, if it is one of the six. -/
def cubeLevel? : Int → Option Int
  | .ofNat n => if n < 6 then some (cubeLevel n) else none
  | .negSucc _ => none

/-- The parts of the colour at any index, as far as the cube and the greys determine them: the
greys go on beyond the last colour, and the cube gives single parts before its first one. -/
def partsAt (index : Number) : List (Option Number) :=
  if !index.lt (.integer 232) then
    let level := ((index.minus (.integer 232)).times (.integer 10)).plus (.integer 8)
    [some level, some level, some level]
  else
    let levels : List (Option Int) := match index.minus (.integer 16) with
      | .finite n scale =>
        let unit : Int := Nat.pow 2 scale
        [cubeLevel? (n / (unit * 36)), cubeLevel? ((n / (unit * 6)).tmod 6),
          if scale = 0 then cubeLevel? (n.tmod 6) else none]
      | .infinite _ => [none, none, none]
    levels.map fun level => level.map .integer

end Color

/-- The colours of a style by their hexadecimal digits, in the order of first mention. -/
abbrev Palette := Table Text Rgb

namespace Palette

/-- The digit runs behind number signs, where `run` is the run at hand, last digit first. -/
def mentionsFrom (run : Option Text) : Text → List Text
  | [] => (run.map List.reverse).toList
  | u :: r =>
    match run with
    | none => mentionsFrom (if u = unit '#' then some [] else none) r
    | some digits =>
      if u.isHexDigit then mentionsFrom (some (u :: digits)) r
      else digits.reverse :: mentionsFrom (if u = unit '#' then some [] else none) r

/-- The colours that a style value mentions, in order. -/
def mentions (value : Text) : List Text := (mentionsFrom none value).filterMap Color.normalHex?

/-- The palette with one more colour, unless it is there. -/
def enter (palette : Palette) (hex : Text) : Palette :=
  if Table.has palette hex then palette else Table.set palette hex (Rgb.ofHex hex)

/-- The colours that style values mention. -/
def ofValues (values : List Text) : Palette := (values.flatMap mentions).foldl enter []

/-- The nearest colour of the palette, the earliest of several. -/
def closest? (palette : Palette) (target : Rgb) : Option Text := target.nearest? palette

/-- The colour of the palette that is nearest to a point, the earliest of several. -/
def closestTo? (palette : Palette) (target : ColorPoint) : Option Text := target.nearest? palette

end Palette

/-- The colours of a palette under the names of the destination. -/
structure ColorNames where
  /-- The colour that each name stands for. -/
  hexOf : Table Text Text
  /-- The last name that stands for each colour. -/
  nameOf : Table Text Text
  /-- The terminal index of the colour that each name stands for. -/
  indexOf : Table Text Nat
  deriving Repr

namespace ColorNames

/-- One more name for a colour of the palette. -/
def enter (names : ColorNames) (name hex : Text) : ColorNames where
  hexOf := Table.set names.hexOf name hex
  nameOf := Table.set names.nameOf hex name
  indexOf := Table.set names.indexOf name (Color.terminalIndex (Rgb.ofHex hex))

/-- The names of the destination, each for the nearest colour of a palette. -/
def ofPalette (palette : Palette) : ColorNames :=
  Color.logical.foldl
    (fun names (name, color) =>
      match palette.closest? color with
      | some hex => names.enter name hex
      | none => names)
    ⟨[], [], []⟩

/-- The name for a colour: its own, or that of the nearest colour that has one. -/
def nameFor? (names : ColorNames) (hex : Text) : Option Text :=
  match Table.get? names.nameOf hex with
  | some name => some name
  | none => (Rgb.ofHex hex).nearest? (names.hexOf.map fun (name, hex) => (name, Rgb.ofHex hex))

end ColorNames

end Highlight
