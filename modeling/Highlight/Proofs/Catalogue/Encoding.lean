import Highlight.Proofs.Catalogue.RuleTable
import Highlight.Proofs.Document.KeyOrder
import Highlight.Proofs.Number.Decimals

/-!
# Languages as documents

A language is written back by the table of rules: every token, rule and state as the entry that
describes it. What is loaded has the states of its document in key order, with one rule for each of
their entries, and it is loaded again from what it is written as (`Language.ofDocument_faithful`).
-/

namespace Highlight

open Document

/-! ## Writing -/

mutual

/-- The entry of a token. -/
def TokenSpec.document : TokenSpec → Document
  | .literal token => .text token
  | .compound items => .ofFields [("bygroups", .list (TokenSpec.documents items))]
  | .dynamic ref =>
    .ofFields (("using", .text ref.lexer) :: ref.state.toList.map fun state => ("state", .text state))

/-- The entries of the items of a token. -/
def TokenSpec.documents : List TokenSpec → List Document
  | [] => []
  | token :: tokens => TokenSpec.document token :: TokenSpec.documents tokens

end

/-- The rule matches nothing and names it as text, so that its state is entered at once. -/
def TokenSpec.isDefault (pattern : Text) : TokenSpec → Bool
  | .literal token => pattern.isEmpty && token == TokenType.text
  | _ => false

/-- The entry of a rule. A rule of no known kind stays as it came. -/
def Rule.document : Rule → Document
  | .splice target => .text target
  | .literal pattern token => .list [.text pattern, token.document]
  | .push pattern token => .list [.text pattern, token.document, .text "#push"]
  | .pop pattern token count =>
    .list [.text pattern, token.document, .text ("#pop:" ++ Text.ofNat count.floorNat)]
  | .nested pattern token target =>
    if token.isDefault pattern then .ofFields [("default", .text target)]
    else .list [.text pattern, token.document, .text target]
  | .unknown raw _ _ => raw

/-- The entries of the states of a graph. -/
def Graph.entries (graph : Graph) : Table Text Document :=
  graph.map fun entry => (entry.1, .list (entry.2.map Rule.document))

/-- The document of a language. -/
def Language.document (language : Language) : Document :=
  .ofFields [("name", .text language.name),
    ("aliases", .list (language.aliases.map .text)),
    ("filenames", .list (language.filenames.map .text)),
    ("aliasFilenames", .list (language.aliasFilenames.map .text)),
    ("tokens", .ofFields language.graph.entries)]

/-- The count of states that the rule leaves is below the bound, if it leaves any. -/
def Rule.PopsBelow (bound : Number) : Rule → Prop
  | .pop _ _ count => count.lt bound = true
  | _ => True

/-! ## Tokens -/

theorem TokenSpec.document_compound (items : List TokenSpec) :
    document (.compound items) = .object [("bygroups", .list (documents items))] := by
  have order : Table.InKeyOrder (["bygroups"] : List Text) := by decide
  rw [document]
  exact ofFields_of_inKeyOrder order

theorem TokenSpec.document_dynamic (ref : LexerRef) : document (.dynamic ref) =
    .object (("using", .text ref.lexer) ::
      ref.state.toList.map fun state => ("state", .text state)) := by
  have alone : Table.InKeyOrder (["using"] : List Text) := by decide
  have both : Table.InKeyOrder (["using", "state"] : List Text) := by decide
  rw [document]
  cases ref.state with
  | none => exact ofFields_of_inKeyOrder alone
  | some state => exact ofFields_of_inKeyOrder both

mutual

/-- The entry of a token describes it. -/
theorem TokenSpec.describesToken_document (token : TokenSpec) :
    token.document.DescribesToken token := by
  cases token with
  | literal token => exact .literal token
  | compound items =>
    rw [document_compound]
    exact .compound rfl (describesToken_documents items)
  | dynamic ref =>
    rw [document_dynamic]
    obtain ⟨lexer, state⟩ := ref
    refine .dynamic ?_ rfl ?_
    · cases state <;> exact nofun
    · cases state <;> rfl

theorem TokenSpec.describesToken_documents (items : List TokenSpec) :
    List.Forall₂ DescribesToken (documents items) items := by
  cases items with
  | nil => exact .nil
  | cons token items =>
    exact .cons (describesToken_document token) (describesToken_documents items)

end

mutual

theorem TokenSpec.keyed_document (token : TokenSpec) : token.document.Keyed := by
  cases token with
  | literal token => exact .text token
  | compound items =>
    refine keyed_ofFields (List.forall_mem_singleton.2 ?_)
    exact .list (keyed_documents items)
  | dynamic ref =>
    refine keyed_ofFields (List.forall_mem_cons.2 ⟨.text _, fun entry listed => ?_⟩)
    obtain ⟨state, -, rfl⟩ := List.mem_map.1 listed
    exact .text state

theorem TokenSpec.keyed_documents (items : List TokenSpec) :
    ∀ document ∈ documents items, document.Keyed := by
  cases items with
  | nil => exact nofun
  | cons token items =>
    exact List.forall_mem_cons.2 ⟨keyed_document token, keyed_documents items⟩

end

/-! ## Rules -/

namespace Rule

variable {raw : Document} {rule : Rule} {pattern action : Text} {token : TokenSpec}

/-- A count that is read and that has at most 53 binary places is written in its own digits. -/
theorem actionMakes_pop {n : Nat} (small : (Number.ofNat n).lt (.integer (2 ^ 53)) = true) :
    ActionMakes pattern token ("#pop:" ++ Text.ofNat (Number.ofNat n).floorNat)
      (.pop pattern token (.ofNat n)) := by
  have short := Number.short_of_ofNat_lt small
  have whole : (Number.ofNat n).floorNat = n := by
    rw [Number.ofNat_short short]
    exact Number.floorNat_finite n
  have makes : ActionMakes pattern token ("#pop:" ++ Text.ofNat n)
      (.pop pattern token (.ofNat (Text.decimal (Text.ofNat n)))) :=
    .popMany (Text.ofNat_ne_nil n) (Text.isDigit_ofNat n)
  rw [Text.decimal_ofNat] at makes
  rwa [whole]

theorem isDefault_iff : token.isDefault pattern = true ↔
    pattern = [] ∧ token = .literal TokenType.text := by
  cases token <;> simp [TokenSpec.isDefault]

theorem describesRule_nested (enters : token.isDefault pattern = true ∨
    ActionMakes pattern token action (.nested pattern token action)) :
    (document (.nested pattern token action)).DescribesRule (.nested pattern token action) := by
  -- Only an entry of the first form may name a state that starts with a number sign.
  by_cases default : token.isDefault pattern = true
  · obtain ⟨rfl, rfl⟩ := isDefault_iff.1 default
    have order : Table.InKeyOrder (["default"] : List Text) := by decide
    have written : document (.nested [] (.literal TokenType.text) action) =
        .object [("default", .text action)] := ofFields_of_inKeyOrder order
    rw [written]
    exact .entered nofun rfl
  · rw [document, if_neg default]
    exact .acting token.describesToken_document (enters.resolve_left default)

/-- A rule that is read is written as an entry that describes it. -/
theorem describesRule_document (described : raw.DescribesRule rule)
    (small : rule.PopsBelow (.integer (2 ^ 53))) : rule.document.DescribesRule rule := by
  cases described with
  | target target => exact .target target
  | included => exact .target _
  | entered => exact describesRule_nested (.inl rfl)
  | @literal _ _ token named => exact .literal token.describesToken_document
  | @acting _ _ _ token _ named makes =>
    cases makes with
    | push => exact .acting token.describesToken_document .push
    | pop => exact .acting token.describesToken_document (actionMakes_pop small)
    | popMany => exact .acting token.describesToken_document (actionMakes_pop small)
    | nested plain => exact describesRule_nested (.inr (.nested plain))

theorem keyed_document (described : raw.DescribesRule rule) : rule.document.Keyed := by
  have action (pattern word : Text) (token : TokenSpec) :
      (list [text pattern, token.document, text word]).Keyed :=
    .list (List.forall_mem_cons.2 ⟨.text _, List.forall_mem_cons.2 ⟨token.keyed_document,
      List.forall_mem_singleton.2 (.text _)⟩⟩)
  have nested (pattern target : Text) (token : TokenSpec) :
      (document (.nested pattern token target)).Keyed := by
    rw [document]
    split
    · exact keyed_ofFields (List.forall_mem_singleton.2 (.text _))
    · exact action _ _ _
  cases described with
  | target => exact .text _
  | included => exact .text _
  | entered => exact nested _ _ _
  | @literal _ _ token =>
    exact .list (List.forall_mem_cons.2 ⟨.text _, List.forall_mem_singleton.2 token.keyed_document⟩)
  | acting named makes =>
    cases makes with
    | push | pop | popMany => exact action _ _ _
    | nested => exact nested _ _ _

end Rule

/-! ## Graphs -/

namespace Graph

variable {states : Table Text Document} {graph : Graph}

theorem keys_entries (graph : Graph) : Table.keys graph.entries = Table.keys graph := by
  rw [Table.keys, entries, List.map_map]
  rfl

/-- Every rule of a graph that is described has an entry of its own. -/
theorem exists_describesRule (described : DescribesGraph states graph) {entry : Text × List Rule}
    (held : entry ∈ graph) {rule : Rule} (listed : rule ∈ entry.2) :
    ∃ raw : Document, raw.DescribesRule rule := by
  obtain ⟨state, -, items, -, each⟩ := exists_of_forall₂ described held
  exact exists_of_forall₂ each listed

theorem describesGraph_entries (described : DescribesGraph states graph)
    (small : ∀ entry ∈ graph, ∀ rule ∈ entry.2, rule.PopsBelow (.integer (2 ^ 53))) :
    DescribesGraph graph.entries graph := by
  rw [DescribesGraph, entries, List.forall₂_map_left_iff, List.forall₂_same]
  refine fun entry held => ⟨rfl, _, rfl, ?_⟩
  rw [List.forall₂_map_left_iff, List.forall₂_same]
  intro rule listed
  obtain ⟨raw, describes⟩ := exists_describesRule described held listed
  exact Rule.describesRule_document describes (small entry held rule listed)

theorem keyed_entries (described : DescribesGraph states graph) :
    ∀ entry ∈ graph.entries, entry.2.Keyed := by
  intro entry held
  obtain ⟨state, own, rfl⟩ := List.mem_map.1 held
  refine .list fun document listed => ?_
  obtain ⟨rule, inside, rfl⟩ := List.mem_map.1 listed
  obtain ⟨raw, describes⟩ := exists_describesRule described own inside
  exact Rule.keyed_document describes

end Graph

/-! ## Languages -/

namespace Language

variable {file : Text} {raw : Document} {language : Language}

theorem document_eq (order : Table.InKeyOrder (Table.keys language.graph)) :
    language.document = .object [("name", .text language.name),
      ("aliases", .list (language.aliases.map .text)),
      ("filenames", .list (language.filenames.map .text)),
      ("aliasFilenames", .list (language.aliasFilenames.map .text)),
      ("tokens", .object language.graph.entries)] := by
  have fields : Table.InKeyOrder
      (["name", "aliases", "filenames", "aliasFilenames", "tokens"] : List Text) := by decide
  rw [← Graph.keys_entries] at order
  rw [document, ofFields_of_inKeyOrder order]
  exact ofFields_of_inKeyOrder fields

theorem keyed_document {states : Table Text Document}
    (described : DescribesGraph states language.graph) : language.document.Keyed := by
  have texts (ts : List Text) : (list (ts.map .text)).Keyed := by
    refine .list fun document listed => ?_
    obtain ⟨t, -, rfl⟩ := List.mem_map.1 listed
    exact .text t
  refine keyed_ofFields ?_
  simp only [List.forall_mem_cons, texts, true_and, List.not_mem_nil, false_implies, implies_true,
    and_true]
  exact ⟨.text _, keyed_ofFields (Graph.keyed_entries described)⟩

theorem describesLanguage_document {fields states : Table Text Document}
    (described : DescribesLanguage fields language)
    (graph : DescribesGraph states language.graph)
    (root : Table.has states rootState = true)
    (small : ∀ entry ∈ language.graph, ∀ rule ∈ entry.2, rule.PopsBelow (.integer (2 ^ 53))) :
    DescribesLanguage [("name", .text language.name),
      ("aliases", .list (language.aliases.map .text)),
      ("filenames", .list (language.filenames.map .text)),
      ("aliasFilenames", .list (language.aliasFilenames.map .text)),
      ("tokens", .object language.graph.entries)] language where
  name := rfl
  solid := described.solid
  aliases := .inr rfl
  filenames := .inr rfl
  aliasFilenames := .inr rfl
  states := by
    refine ⟨_, rfl, ?_, Graph.describesGraph_entries graph small⟩
    rw [Table.has_iff] at root ⊢
    rwa [Graph.keys_entries, graph.keys_eq]
  closed := described.closed

/-- What is loaded from a text is loaded from a document whose objects are in key order. -/
theorem exists_keyed_of_ofText {t : Text} (loaded : ofText file t = .ok language) :
    ∃ raw : Document, Document.read? t = some raw ∧ raw.Keyed ∧
      ofDocument file raw = .ok language := by
  rw [ofText] at loaded
  split at loaded
  · cases loaded
  · next raw read => exact ⟨raw, read, keyed_of_read? read, loaded⟩

/-- A language that is loaded has the states of its document, in key order, and in each of them one
rule for each entry, in order, which the entry describes. Written as a document by the table of
rules, it is loaded again as it is, as long as every count of states to leave is below `2 ^ 53`, where
numbers are exact. -/
theorem ofDocument_faithful (keyed : raw.Keyed) (loaded : ofDocument file raw = .ok language) :
    (∃ fields states, raw = .object fields ∧
      Table.get? fields "tokens" = some (.object states) ∧
      Table.keys language.graph = Table.keys states ∧
      Table.InKeyOrder (Table.keys states) ∧ DescribesGraph states language.graph) ∧
    ((∀ entry ∈ language.graph, ∀ rule ∈ entry.2, rule.PopsBelow (.integer (2 ^ 53))) →
      language.document.Keyed ∧ ofDocument file language.document = .ok language) := by
  obtain ⟨source, fields, rfl, described⟩ := ofDocument_eq_ok_iff.1 loaded
  obtain ⟨states, found, root, graph⟩ := described.states
  have names := graph.keys_eq
  have order : Table.InKeyOrder (Table.keys states) := by
    have inside := (keyed_object_iff.1 keyed).2 _ (Table.mem_of_get? found)
    exact (keyed_object_iff.1 inside).1
  refine ⟨⟨fields, states, rfl, found, names, order, graph⟩, fun small => ?_⟩
  refine ⟨keyed_document graph, ?_⟩
  rw [document_eq (names ▸ order)]
  exact ofDocument_eq_ok_iff.2
    ⟨source, _, rfl, describesLanguage_document described graph root small⟩

/-- A document with entries of every kind, and with a state whose name is a list position. -/
def shapesDocument : Document :=
  .object [("name", .text "shapes"), ("tokens", .object [
    ("7", .list []),
    ("root", .list [
      .text "7",
      .object [("include", .text "7")],
      .object [("default", .text "#more")],
      .list [.text "a", .text "Token.A"],
      .list [.text "(b)(c)", .object [("bygroups", .list [.text "Token.B", .object [
        ("using", .text "this"), ("state", .text "7")]])], .text "#push"],
      .list [.text "d", .object [("using", .text "other")], .text "#pop"],
      .list [.text "e", .text "Token.E", .text "#pop:02"],
      .list [.text "", .text "Token.F", .text "root"]]),
    ("#more", .list [])])]

/-- The language that is loaded from `shapesDocument`. -/
def shapesLanguage : Language where
  name := "shapes"
  aliases := []
  filenames := []
  aliasFilenames := []
  graph := [
    ("7", []),
    ("root", [
      .splice "7",
      .splice "7",
      .nested [] (.literal .text) "#more",
      .literal "a" (.literal "Token.A"),
      .push "(b)(c)" (.compound [.literal "Token.B", .dynamic ⟨"this", some "7"⟩]),
      .pop "d" (.dynamic ⟨"other", none⟩) (.ofNat 1),
      .pop "e" (.literal "Token.E") (.ofNat 2),
      .nested "" (.literal "Token.F") "root"]),
    ("#more", [])]
  sourceFile := some "shapes.lexer.json"

/-- All rules of `shapesDocument` are loaded, and they are loaded again from what they are written
as. -/
theorem ofDocument_faithful_shapes :
    ofDocument "shapes.lexer.json" shapesDocument = .ok shapesLanguage ∧
    ofDocument "shapes.lexer.json" shapesLanguage.document = .ok shapesLanguage := by
  have loaded : ofDocument "shapes.lexer.json" shapesDocument = .ok shapesLanguage := rfl
  have keyed : shapesDocument.Keyed := by
    simp +decide [shapesDocument, keyed_object_iff, keyed_list_iff, Keyed.text]
  have few {n : Nat} (short : Number.Short n) :
      (Number.ofNat n).lt (.integer (2 ^ 53)) = true := by
    rw [Number.ofNat_short short, Number.lt_integer_iff]
    exact_mod_cast short
  refine ⟨loaded, ((ofDocument_faithful keyed loaded).2 ?_).2⟩
  have one := few (show Number.Short 1 by decide)
  have two := few (show Number.Short 2 by decide)
  simp only [shapesLanguage, List.forall_mem_cons, List.not_mem_nil, false_implies, implies_true,
    Rule.PopsBelow, one, two, and_self]

end Language

end Highlight
