import Highlight.Document.Basic
import Mathlib.Data.Option.Basic

/-!
# What documents are

A list has texts just if it is the list of some texts (`Document.texts?_eq_some_iff`).
-/

namespace Highlight.Document

theorem text?_eq_some_iff {document : Document} {t : Text} :
    document.text? = some t ↔ document = .text t := by
  cases document with
  | text other => simp [text?]
  | _ => simp [text?]

theorem items?_eq_some_iff {document : Document} {items : List Document} :
    document.items? = some items ↔ document = .list items := by
  cases document with
  | list others => simp [items?]
  | _ => simp [items?]

theorem fields?_eq_some_iff {document : Document} {fields : Table Text Document} :
    document.fields? = some fields ↔ document = .object fields := by
  cases document with
  | object others => simp [fields?]
  | _ => simp [fields?]

theorem mapM_text?_eq_some_iff {items : List Document} {texts : List Text} :
    items.mapM text? = some texts ↔ items = texts.map .text := by
  induction items generalizing texts with
  | nil => cases texts <;> simp
  | cons item items ih =>
    rw [List.mapM_cons]
    simp only [bind, pure, Option.bind_eq_some_iff, Option.some.injEq, text?_eq_some_iff, ih]
    cases texts with
    | nil => simp
    | cons t texts => simp

theorem texts?_eq_some_iff {document : Document} {texts : List Text} :
    document.texts? = some texts ↔ document = .list (texts.map .text) := by
  cases document with
  | list items => rw [texts?, mapM_text?_eq_some_iff, Document.list.injEq]
  | _ => simp [texts?]

end Highlight.Document
