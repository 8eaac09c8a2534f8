import Highlight.Document.Reader
import Highlight.Fault
import Highlight.FileTree
import Highlight.Text.Blank

/-!
# Catalogue entries

A language is kept in the catalogue as a document. The fields of the entry are checked together
and all their problems reported at once; then the rules are read one by one, and the first that
cannot be read ends the reading. At last every state that a rule refers to has to be defined.
-/

namespace Highlight

/-- Why a catalogue entry is not loaded. -/
inductive LoadError where
  | catalogue (e : CatalogueError)
  | grammar (e : GrammarError)
  | file (e : FileError)
  deriving Repr

namespace CatalogueError

/-- A file that holds no document. -/
def notDocument (file : Text) : CatalogueError :=
  ⟨file, ["invalid JSON: the text is no document"]⟩

/-- A document that is no object. -/
def notObject (file : Text) : CatalogueError := ⟨file, ["document must be a JSON object"]⟩

end CatalogueError

namespace Entry

/-- The value at a key, if there are fields. -/
def field? (fields : Table Text Document) (key : Text) : Option Document := Table.get? fields key

/-- The reference of a token that is left to another lexer. -/
def lexerRef? (fields : Table Text Document) : Option LexerRef :=
  match field? fields "using", field? fields "state" with
  | some (.text lexer), none => some ⟨lexer, none⟩
  | some (.text lexer), some (.text state) => some ⟨lexer, some state⟩
  | _, _ => none

/-- The items of a token list, if the fields hold one. -/
def groupItems? (fields : List (Text × Document)) : Option (List Document) :=
  (field? fields "bygroups").bind Document.items?

mutual

/-- The token that a document describes. `place` is where it stands in its entry. -/
def readToken (place : Text) : Document → Except GrammarError TokenSpec
  | .text token => .ok (.literal token)
  | .object fields =>
    match readGroups place fields with
    | some items => items.map .compound
    | none =>
      match lexerRef? fields with
      | some ref => .ok (.dynamic ref)
      | none => .error (.ofFault (.unreadableToken place (.object fields)))
  | raw => .error (.ofFault (.unreadableToken place raw))

/-- The tokens of the groups, if the fields hold such a list. -/
def readGroups (place : Text) :
    List (Text × Document) → Option (Except GrammarError (List TokenSpec))
  | [] => none
  | (key, value) :: rest =>
    if key = Text.ofString "bygroups" then
      match value with
      | .list items => some (readTokens (place ++ "/bygroups/") 0 items)
      | _ => none
    else readGroups place rest

/-- The tokens of a list, the first of which has the given number. -/
def readTokens (place : Text) (index : Nat) :
    List Document → Except GrammarError (List TokenSpec)
  | [] => .ok []
  | raw :: rest => do
    let token ← readToken (place ++ Text.ofNat index) raw
    let tokens ← readTokens place (index + 1) rest
    .ok (token :: tokens)

end

/-- The count of an action that leaves states, if it is one. -/
def popCount? (action : Text) : Option Number :=
  if action = Text.ofString "#pop" then some (.ofNat 1)
  else if (Text.ofString "#pop:").isPrefixOf action then
    let digits := action.drop 5
    if !digits.isEmpty && digits.all CodeUnit.isDigit then some (.ofNat (Text.decimal digits))
    else none
  else none

/-- The rule of a pattern, a token and an action, if the action is known. -/
def actionRule? (pattern : Text) (token : TokenSpec) (action : Text) : Option Rule :=
  if action = Text.ofString "#push" then some (.push pattern token)
  else match popCount? action with
    | some count => some (.pop pattern token count)
    | none =>
      if (Text.ofString "#").isPrefixOf action then none else some (.nested pattern token action)

/-- The rule that an object describes, if it does: a splice or a state entered at once. -/
def objectRule? (fields : Table Text Document) : Option Rule :=
  match field? fields "include", field? fields "default" with
  | some (.text target), _ => some (.splice target)
  | _, some (.text target) => some (.nested [] (.literal .text) target)
  | _, _ => none

/-- The rule that a document describes. `place` is where it stands in its entry. -/
def readRule (place : Text) (raw : Document) : Except GrammarError Rule :=
  let unreadable : Except GrammarError Rule :=
    .error (.ofFault (.unreadableRule place raw))
  match raw with
  | .text target => .ok (.splice target)
  | .object fields =>
    match objectRule? fields with
    | some rule => .ok rule
    | none => unreadable
  | .list [.text pattern, token] => do
    let token ← readToken (place ++ "/1") token
    .ok (.literal pattern token)
  | .list [.text pattern, token, action] => do
    let token ← readToken (place ++ "/1") token
    match action.text?.bind (actionRule? pattern token) with
    | some rule => .ok rule
    | none => unreadable
  | _ => unreadable

/-- The states of the language at hand that a token refers to. -/
def tokenStates : TokenSpec → List Text
  | .dynamic ref => if ref.lexer = LexerRef.this then ref.state.toList else []
  | _ => []

/-- The states that a rule refers to. -/
def ruleStates : Rule → List Text
  | .splice target | .nested _ _ target => [target]
  | rule =>
    match rule.token? with
    | some (.compound items) => items.flatMap tokenStates
    | some token => tokenStates token
    | none => []

/-- The first reference of a rule to a state that is not defined. -/
def undefinedState? (graph : Graph) (rule : Rule) : Option Text :=
  (ruleStates rule).find? fun target => !Table.has graph target

/-- The first rule of the graph that refers to an undefined state, and the error for it. -/
def referenceError? (graph : Graph) : Option GrammarError :=
  graph.findSome? fun (state, rules) => rules.findSome? fun rule =>
    (undefinedState? graph rule).map fun target =>
      (GrammarError.ofFault (.undefinedTarget state target)).within
        { Site.unknown with state := some state, pattern := rule.pattern? }

/-- The name of an entry: a text that is not blank. -/
def name? (fields : Table Text Document) : Option Text :=
  match field? fields "name" with
  | some (.text name) => if (Text.trim name).isEmpty then none else some name
  | _ => none

/-- The texts of an optional list, and the problem if the field holds anything else. -/
def optionalTexts (fields : Table Text Document) (key : Text) : List Text × List Text :=
  match field? fields key with
  | none => ([], [])
  | some value =>
    match value.texts? with
    | some texts => (texts, [])
    | none => ([], ["/" ++ key ++ " must be a string[]"])

/-- The problems of the states of an entry. -/
def stateProblems (fields : Table Text Document) : List Text :=
  match (field? fields "tokens").bind Document.fields? with
  | none => ["/tokens must be an object of state name to rule list"]
  | some states =>
    let notLists := states.filterMap fun (state, rules) =>
      match rules.items? with
      | some _ => none
      | none => some ("/tokens/" ++ state ++ " must be an array")
    let rootless : List Text :=
      if Table.has states rootState then [] else ["/tokens must define a 'root' state"]
    notLists ++ rootless

/-- The rules of a state, the first of which has the given number. -/
def readRules (state : Text) (index : Nat) : List Document → Except GrammarError (List Rule)
  | [] => .ok []
  | raw :: rest => do
    let place := "/tokens/" ++ state ++ "/" ++ Text.ofNat index
    let rule ← (readRule place raw).mapError
      (GrammarError.within · { Site.unknown with state := some state })
    let rules ← readRules state (index + 1) rest
    .ok (rule :: rules)

/-- The graph of the states of an entry. -/
def readGraph (states : Table Text Document) : Except GrammarError Graph := do
  let graph ← states.mapM fun (state, rules) => do
    let rules ← readRules state 0 (rules.items?.getD [])
    .ok (state, rules)
  match referenceError? graph with
  | some e => .error e
  | none => .ok graph

end Entry

namespace Language

/-- The language that the document of a file describes. -/
def ofDocument (file : Text) (raw : Document) : Except LoadError Language :=
  match raw.fields? with
  | none => .error (.catalogue (.notObject file))
  | some fields =>
    let name := Entry.name? fields
    let nameProblems : List Text :=
      if name.isSome then [] else ["/name must be a non-empty string"]
    let (aliases, aliasProblems) := Entry.optionalTexts fields "aliases"
    let (filenames, filenameProblems) := Entry.optionalTexts fields "filenames"
    let (aliasFilenames, aliasFilenameProblems) := Entry.optionalTexts fields "aliasFilenames"
    let problems := nameProblems ++ aliasProblems ++ filenameProblems ++ aliasFilenameProblems ++
      Entry.stateProblems fields
    match name, (Entry.field? fields "tokens").bind Document.fields?, problems with
    | some name, some states, [] =>
      match Entry.readGraph states with
      | .ok graph => .ok ⟨name, aliases, filenames, aliasFilenames, graph, some file⟩
      | .error e =>
        .error (.grammar (e.within { Site.unknown with language := some name }))
    | _, _, problems => .error (.catalogue ⟨file, problems⟩)

/-- The language that the text of a file describes. -/
def ofText (file text : Text) : Except LoadError Language :=
  match Document.read? text with
  | none => .error (.catalogue (.notDocument file))
  | some raw => ofDocument file raw

end Language

end Highlight
