import Highlight.Text.Basic

/-!
# Painted text

Text in the colours and weights of a terminal. A style is opened by one escape sequence and closed
by another, and where the closing sequence already stands in the painted text the style has to be
opened again. There are two ways to do that: `replacing` writes the opening sequence over the inner
closing one, `reopening` writes it behind it. The empty text stays empty.
-/

namespace Highlight

/-- A style of painted text. -/
inductive TextStyle where
  | bold | dim | red | green | yellow | blue | brightRed
  deriving DecidableEq, Repr

namespace TextStyle

/-- The escape sequence of a code. -/
def sequence (code : Text) : Text := 0x1B :: unit '[' :: code ++ [unit 'm']

/-- The sequence that starts the style. -/
def opening : TextStyle → Text
  | bold => sequence "1"
  | dim => sequence "2"
  | red => sequence "31"
  | green => sequence "32"
  | yellow => sequence "33"
  | blue => sequence "34"
  | brightRed => sequence "91"

/-- The sequence that ends the style. Bold and dim share one. -/
def closing : TextStyle → Text
  | bold | dim => sequence "22"
  | _ => sequence "39"

/-- What is written over an inner closing sequence. -/
def replacement : TextStyle → Text
  | bold => closing bold ++ opening bold
  | dim => closing dim ++ opening dim
  | style => opening style

end TextStyle

/-- Whether text is painted at all. -/
structure Paint where
  colored : Bool
  deriving DecidableEq, Repr

namespace Paint

def plain : Paint := ⟨false⟩

/-- Paints a text, with the style written over its inner closing sequences. Those that start before
the length of the opening sequence are left as they are. -/
def replacing (paint : Paint) (style : TextStyle) (t : Text) : Text :=
  if !paint.colored || t.isEmpty then t
  else
    let kept := style.opening.length + 1
    let head := t.take kept
    let tail := t.drop kept
    style.opening ++ head ++ Text.replace style.closing style.replacement tail ++ style.closing

/-- Paints a text, with the style opened again behind its inner closing sequences. -/
def reopening (paint : Paint) (style : TextStyle) (t : Text) : Text :=
  if !paint.colored || t.isEmpty then t
  else
    style.opening ++ Text.replace style.closing (style.closing ++ style.opening) t ++ style.closing

end Paint

end Highlight
