import Highlight.Text.Basic
import Highlight.Text.CaseTable
import Highlight.Text.NameTable

/-!
# Lower case

Lower case by code points, after the full mapping of Unicode: one code point for one, apart from
the capital I with a dot, which keeps its dot as a mark, and the capital sigma, which at the end of
a word becomes a final sigma.
-/

namespace Highlight

namespace Text

/-- The code point in lower case, by the simple mapping. -/
def lowerScalar (n : Nat) : Nat :=
  match lowerRuns.find? fun (lo, hi, step, _) => lo ≤ n && n ≤ hi && (n - lo) % step == 0 with
  | some (_, _, _, shift) => ((n : Int) + shift).toNat
  | none => n

/-- The first code point that counts for the case of a neighbour has a case itself. -/
def meetsCased (ns : List Nat) : Bool :=
  match ns.dropWhile (inRanges caseIgnorableRanges) with
  | n :: _ => inRanges casedRanges n
  | [] => false

/-- Code points in lower case, where `before` holds those to the left, the nearest first. -/
def lowerFrom (before : List Nat) : List Nat → List Nat
  | [] => []
  | n :: rest =>
    let lower :=
      if n = 0x130 then [0x69, 0x307]
      else if n = 0x3A3 then
        if meetsCased before && !meetsCased rest then [0x3C2] else [0x3C3]
      else if n < 0x80 then
        if 0x41 ≤ n && n ≤ 0x5A then [n + 32] else [n]
      else [lowerScalar n]
    lower ++ lowerFrom (n :: before) rest

/-- The text in lower case. -/
def lower (t : Text) : Text := ofScalars (lowerFrom [] t.scalars)

end Text

end Highlight
