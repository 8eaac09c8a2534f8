import Highlight.Number.Shortest
import Highlight.Table

/-!
# Documents

Values of the interchange format in which catalogue entries and settings come: null, truth values,
numbers, texts, lists and objects. The fields of an object stand in the order in which the program
walks them: keys that are list positions first, then the others in order of first appearance.
-/

namespace Highlight

/-- A value of the interchange format. -/
inductive Document where
  | null
  | bool (value : Bool)
  | number (value : Number)
  | text (value : Text)
  | list (items : List Document)
  | object (fields : List (Text × Document))
  deriving Repr, Inhabited

namespace Document

/-- An object with the given settings: of a key set twice the last value counts. -/
def ofFields (entries : List (Text × Document)) : Document :=
  object (Table.positionsFirst (Table.ofList entries))

/-- The fields of an object. -/
def fields? : Document → Option (Table Text Document)
  | object fields => some fields
  | _ => none

/-- The text that a document is. -/
def text? : Document → Option Text
  | text t => some t
  | _ => none

/-- The items of a list. -/
def items? : Document → Option (List Document)
  | list items => some items
  | _ => none

/-- The texts of a list that holds texts only. -/
def texts? : Document → Option (List Text)
  | list items => items.mapM text?
  | _ => none

mutual

/-- A document as running text: texts as they are, a list by its items with commas between them,
and every object by the same words. An object that has a field `toString` stands for no text: the
field is in the place of the one that tells it, and no value of a field does. -/
def plain? : Document → Option Text
  | null => some "null"
  | bool b => some (if b then "true" else "false")
  | number n => some n.toText
  | text t => some t
  | list items => (plainItems? items).map (Text.join ",")
  | object fields =>
    if Table.has fields (Text.ofString "toString") then none else some "[object Object]"

/-- The items of a list as running text, where null leaves no trace. -/
def plainItems? : List Document → Option (List Text)
  | [] => some []
  | null :: rest => (plainItems? rest).map ([] :: ·)
  | item :: rest => (plain? item).bind fun t => (plainItems? rest).map (t :: ·)

end

end Document

end Highlight
