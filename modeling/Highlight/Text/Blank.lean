import Highlight.Text.Basic

/-!
# Blank code units

The units that separate words: the ASCII blanks, the no-break space, the byte order mark, the
space separators of Unicode and the two line separators.
-/

namespace Highlight

/-- A unit that counts as white space. -/
def CodeUnit.isBlank (u : CodeUnit) : Bool :=
  (9 ≤ u && u ≤ 13) || u == 0x20 || u == 0xA0 || u == 0x1680 || (0x2000 ≤ u && u ≤ 0x200A) ||
    u == 0x2028 || u == 0x2029 || u == 0x202F || u == 0x205F || u == 0x3000 || u == 0xFEFF

/-- A unit that ends a line: line feed, carriage return and the two separators of Unicode. -/
def CodeUnit.isLineEnd (u : CodeUnit) : Bool :=
  u == 10 || u == 13 || u == 0x2028 || u == 0x2029

namespace Text

/-- Without the blanks at both ends. -/
def trim (t : Text) : Text :=
  ((t.dropWhile CodeUnit.isBlank).reverse.dropWhile CodeUnit.isBlank).reverse

/-- The non-empty runs of units that are not blank. -/
def words : Text → List Text
  | [] => []
  | u :: r =>
    if u.isBlank then words r
    else match r, words r with
      | v :: _, w :: ws => if v.isBlank then [u] :: w :: ws else (u :: w) :: ws
      | _, ws => [u] :: ws

end Text

end Highlight
