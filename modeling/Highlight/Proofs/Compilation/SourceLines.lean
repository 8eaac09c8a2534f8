import Highlight.Number.Shortest
import Highlight.Proofs.Compilation.TokenOrigins
import Highlight.Proofs.Text.Digits
import Highlight.Proofs.Text.Pieces
import Highlight.Proofs.Text.Replacing

/-!
# The lines of a definition

The definition of a language has a line for its header and one for each statement, as long as none
of them holds a line feed. The fixed texts of a statement hold none, nor do numbers and what
escapes and idioms write, so a line feed can only come from a document: from a name, a pattern or a
token that the language brings (`Language.source_lines`). Nothing on the way replaces those.
-/

namespace Highlight

open Compilation Statement Text

/-! ## Texts in one line -/

theorem Text.not_mem_ofNat {u : CodeUnit} (digit : u.isDigit = false) (n : Nat) : u ∉ ofNat n := by
  intro inside
  rw [isDigit_ofNat n u inside] at digit
  cases digit

theorem Text.isLine_ofNat (n : Nat) : IsLine (ofNat n) := not_mem_ofNat (by decide) n

namespace Number

/-- The units of a number that are not digits. -/
def marks : Text := "-+.eInfinity"

variable {u : CodeUnit}

theorem ne_zero_of_isDigit_eq_false (digit : u.isDigit = false) : u ≠ unit '0' := by
  rintro rfl
  exact absurd digit (by decide)

theorem not_mem_of_subset_marks {t : Text} (mark : u ∉ marks) (part : t ⊆ marks) : u ∉ t :=
  fun inside => mark (part inside)

theorem not_mem_layout (digit : u.isDigit = false) (mark : u ∉ marks) (digits : Nat) (e : Int) :
    u ∉ layout digits e := by
  have other := not_mem_ofNat digit
  have front (n : Nat) : u ∉ (Text.ofNat digits).take n := mt List.mem_of_mem_take (other digits)
  have back (n : Nat) : u ∉ (Text.ofNat digits).drop n := mt List.mem_of_mem_drop (other digits)
  have zero := ne_zero_of_isDigit_eq_false digit
  have zeros (n : Nat) : u ∉ fill n (unit '0') := fun inside => zero (List.eq_of_mem_replicate inside)
  have point : u ∉ Text.ofString "." := not_mem_of_subset_marks mark (by decide)
  have start : u ∉ Text.ofString "0." := List.not_mem_cons_of_ne_of_not_mem zero point
  have joined {s t : Text} (first : u ∉ s) (second : u ∉ t) : u ∉ s ++ t :=
    mt List.mem_append.1 (not_or.2 ⟨first, second⟩)
  unfold layout
  dsimp only
  split
  · exact joined (other digits) (zeros _)
  · split
    · exact joined (joined (front _) point) (back _)
    · split
      · exact joined (joined start (zeros _)) (other digits)
      · refine joined (joined (joined (front _) ?_) ?_) (other _)
        · split
          · exact List.not_mem_nil
          · exact joined point (back _)
        · split <;> exact not_mem_of_subset_marks mark (by decide)

/-- A number is written with digits and a few marks. -/
theorem not_mem_toText (digit : u.isDigit = false) (mark : u ∉ marks) (n : Number) :
    u ∉ n.toText := by
  cases n with
  | infinite negative => cases negative <;> exact not_mem_of_subset_marks mark (by decide)
  | finite n scale =>
    unfold toText
    dsimp only
    split
    · exact List.not_mem_cons_of_ne_of_not_mem (ne_zero_of_isDigit_eq_false digit) List.not_mem_nil
    · refine mt List.mem_append.1 (not_or.2 ⟨?_, not_mem_layout digit mark _ _⟩)
      split <;> exact not_mem_of_subset_marks mark (by decide)

theorem isLine_toText (n : Number) : IsLine n.toText := not_mem_toText (by decide) (by decide) n

end Number

namespace Dialect

variable {source pattern : Text}

theorem isLine_quoteSafe (line : IsLine pattern) : IsLine (quoteSafe pattern) :=
  isLine_replace (by decide) line

variable {u : CodeUnit}

theorem mem_ruleName_iff {token : TokenType} (dot : u ≠ unit '.') (underscore : u ≠ unit '_') :
    u ∈ ruleName token ↔ u ∈ token := by
  unfold ruleName
  rw [List.mem_map]
  constructor
  · rintro ⟨v, held, rfl⟩
    split at underscore
    · exact absurd rfl underscore
    · rwa [if_neg ‹_›]
  · exact fun held => ⟨u, held, if_neg dot⟩

theorem isLine_ruleName {token : TokenType} (line : IsLine token) : IsLine (ruleName token) :=
  mt (mem_ruleName_iff (by decide) (by decide)).1 line

theorem mem_stripAnchor_iff (anchor : u ≠ unit '^') : u ∈ stripAnchor source ↔ u ∈ source := by
  unfold stripAnchor
  split
  · exact Iff.rfl
  · split
    · next same => rw [List.mem_cons, same, or_iff_right anchor]
    · exact Iff.rfl

/-- A unit that is no anchor and stands in no idiom is neither brought in nor lost. -/
theorem mem_respelled_iff (anchor : u ≠ unit '^')
    (idiom : ∀ idiom ∈ idioms, u ∉ idiom.source ∧ u ∉ idiom.target) :
    u ∈ respelled source ↔ u ∈ source := by
  have nonempty : ∀ idiom ∈ idioms, idiom.source ≠ [] := by decide
  refine Iff.trans ?_ (mem_stripAnchor_iff anchor)
  refine List.foldlRecOn (motive := fun t => u ∈ t ↔ u ∈ stripAnchor source) idioms _ Iff.rfl ?_
  intro t ih next listed
  obtain ⟨kept, written⟩ := idiom next listed
  rw [Idiom.replaceIn, mem_replace_iff (nonempty next listed) kept written, ih]

theorem isLine_respelled (line : IsLine source) : IsLine (respelled source) :=
  mt (mem_respelled_iff (by decide) (by decide)).1 line

theorem isLine_convert (converted : convert source = .ok pattern) (line : IsLine source) :
    IsLine pattern :=
  (convert_eq_ok_iff.1 converted).1 ▸ isLine_respelled line

end Dialect

namespace Binding

variable {binding : Binding}

theorem isLine_quoted {pattern : Text} (line : IsLine pattern) : IsLine (quoted pattern) :=
  (IsLine.append (by decide) (Dialect.isLine_quoteSafe line)).append (by decide)

/-- A binding stands in one line if its tokens and its patterns do. -/
theorem isLine_render (tokens : ∀ token ∈ binding.tokens, IsLine token)
    (patterns : ∀ pattern ∈ binding.patterns, IsLine pattern) : IsLine binding.render := by
  cases binding with
  | single token pattern =>
    have name := Dialect.isLine_ruleName (tokens token List.mem_cons_self)
    exact (name.append (by decide)).append (isLine_quoted (patterns pattern List.mem_cons_self))
  | lineEnd token =>
    exact (Dialect.isLine_ruleName (tokens token List.mem_cons_self)).append (by decide)
  | lineStart token lead =>
    have name := Dialect.isLine_ruleName (tokens token List.mem_cons_self)
    exact (name.append (by decide)).append (isLine_quoted (patterns lead List.mem_cons_self))
  | groups names pattern =>
    have each : ∀ name ∈ names.map Dialect.ruleName, IsLine name := by
      intro name listed
      obtain ⟨token, held, rfl⟩ := List.mem_map.1 listed
      exact Dialect.isLine_ruleName (tokens token held)
    have names := isLine_join (s := ",") (by decide) each
    have body := patterns pattern List.mem_cons_self
    exact ((((IsLine.append (by decide) names).append (by decide)).append body).append (by decide))
  | region token entering leaving multiline =>
    have name := Dialect.isLine_ruleName (tokens token List.mem_cons_self)
    have front := isLine_quoted (patterns entering List.mem_cons_self)
    have back := isLine_quoted (patterns leaving (List.mem_cons_of_mem _ List.mem_cons_self))
    refine (((((name.append ?_).append front).append ?_).append back).append ?_).append ?_
    · decide
    · decide
    · decide
    · cases multiline <;> decide

end Binding

/-- A statement stands in one line if its comment does, or its tokens and its patterns do. -/
theorem Statement.isLine_render {s : Statement} (comments : ∀ d text, s = comment d text → IsLine text)
    (binds : ∀ binding, s.binding? = some binding → IsLine binding.render) : IsLine s.render := by
  have front : IsLine (indent s.depth) := isLine_fill _ (by decide)
  refine front.append ?_
  cases s with
  | comment d text => exact IsLine.append (by decide) (comments d text rfl)
  | rule d binding => exact binds binding rfl
  | leave d binding count =>
    refine ((binds binding rfl).append (by decide)).append ?_
    split
    · exact IsLine.append (by decide) (Number.isLine_toText count)
    · decide
  | blockStart d binding =>
    exact (IsLine.append (by decide) (binds binding rfl)).append (by decide)
  | blockEnd d => exact (by decide : IsLine "end")

/-! ## Texts of a document -/

/-- The texts that a language brings to its definition: its name, the names of its states and of
those that its rules lead to, their patterns, and the tokens that they name, or rules of a language
that is used. -/
inductive Context.Brings (ctx : Context) : Text → Prop where
  | name : Brings ctx ctx.language.name
  | state {state : Text} {rules : List Rule}
    (known : Table.get? ctx.language.graph state = some rules) : Brings ctx state
  | target {state pattern target : Text} {token : TokenSpec}
    (own : Body.HasRule ctx.language.graph state (.nested pattern token target)) :
    Brings ctx target
  | pattern {state pattern : Text} {rule : Rule} (own : Body.HasRule ctx.language.graph state rule)
    (bears : rule.pattern? = some pattern) : Brings ctx pattern
  | token {token : TokenType} (names : token ∈ ctx.language.named) : Brings ctx token
  | used {other : Language} {token : TokenType} (uses : ctx.Uses other)
    (names : token ∈ other.named) : Brings ctx token

/-- The texts that a language brings stand in one line each. -/
def Context.Plain (ctx : Context) : Prop := ∀ text, ctx.Brings text → IsLine text

variable {ctx : Context}

/-- The tokens that are supplied stand in one line, since the number of a rule does. -/
theorem Context.Supplies.isLine {token : TokenType} (supplied : ctx.Supplies token)
    (plain : ctx.Plain) : IsLine token := by
  cases supplied with
  | own names => exact plain _ (.token names)
  | lexer uses gives =>
    cases gives with
    | text => decide
    | error => decide
    | named names => exact plain _ (.used uses names)
    | numbered => exact IsLine.append (by decide) (isLine_ofNat _)

/-- What a pattern is bound to keeps to its line. -/
theorem Binding.BoundTo.isLine {source pattern : Text} {token : TokenSpec} {binding : Binding}
    (bound : BoundTo source token binding) (line : IsLine source)
    (emitted : pattern ∈ binding.patterns) : IsLine pattern := by
  cases bound with
  | lineEnd => cases emitted
  | single whole convert =>
    obtain rfl := List.mem_singleton.1 emitted
    exact Dialect.isLine_convert convert line
  | lineStart front convert =>
    obtain rfl := List.mem_singleton.1 emitted
    obtain ⟨ending, -, rfl⟩ := Option.map_eq_some_iff.1 front
    have dropped (ending text : Text) : dropEnding ending text ⊆ text := by
      unfold dropEnding
      split
      · exact List.take_subset _ _
      · exact fun _ inside => inside
    exact Dialect.isLine_convert convert
      (line.mono (List.Subset.trans (dropped _ _) (dropped _ _)))
  | groups convert _ _ =>
    obtain rfl := List.mem_singleton.1 emitted
    exact Dialect.isLine_convert convert line

namespace Region

theorem isLine_delimiter {sources : List Text} {pattern : Text}
    (drawn : delimiter sources = .ok pattern) (lines : ∀ source ∈ sources, IsLine source) :
    IsLine pattern := by
  obtain ⟨converted, each, joined⟩ := delimiter_cases drawn
  have parts : ∀ part ∈ converted, IsLine part := by
    clear joined drawn
    induction each with
    | nil => exact nofun
    | cons first _ ih =>
      obtain ⟨here, rest⟩ := List.forall_mem_cons.1 lines
      exact List.forall_mem_cons.2 ⟨Dialect.isLine_convert first here, ih rest⟩
  obtain rfl | ⟨-, rfl⟩ := joined
  · exact parts pattern List.mem_cons_self
  · exact (IsLine.append (by decide) (isLine_join (by decide) parts)).append (by decide)

theorem isLine_of_binding {state pattern : Text} {rules : List Rule} {found : Binding}
    (own : Table.get? ctx.language.graph state = some rules)
    (drawn : binding state (.ofRules rules) = .ok found) (plain : ctx.Plain)
    (emitted : pattern ∈ found.patterns) : IsLine pattern := by
  obtain ⟨token, entering, leaving, multiline, rfl⟩ := binding_eq_region drawn
  obtain ⟨-, -, enters, leaves⟩ := binding_delimiters drawn
  have sources (p : Rule → Bool) :
      ∀ source ∈ (rules.filter p).filterMap Rule.pattern?, IsLine source := by
    intro source listed
    obtain ⟨rule, held, bears⟩ := List.mem_filterMap.1 listed
    exact plain _ (.pattern ⟨rules, own, (List.mem_filter.1 held).1⟩ bears)
  simp only [Binding.patterns, List.mem_cons, List.not_mem_nil, or_false] at emitted
  obtain rfl | rfl := emitted
  · exact isLine_delimiter enters (sources _)
  · exact isLine_delimiter leaves (sources _)

end Region

namespace Body

/-- A comment tells the name of a state. -/
theorem exists_of_comment {d e : Nat} {lines : List Statement} {text : Text}
    (blocks : Blocks (Line ctx) (Block ctx) d lines) (listed : .comment e text ∈ lines) :
    ∃ name, ctx.Brings name ∧ (text = name ++ " state" ∨ text = "nested " ++ name ++ " state") := by
  obtain ⟨before, after, same⟩ := List.append_of_mem listed
  obtain ⟨binding, rest, rfl⟩ := blocks.isBlockTree.comment_opens _ _ _ _ same
  have next : lines = (before ++ [.comment e text]) ++ .blockStart e binding :: rest := by
    rw [same, List.append_assoc, List.singleton_append]
  obtain ⟨level, -, -, stands⟩ := blocks.stands next
  -- The opened block behind the comment knows the state that it was drawn for.
  generalize above : before ++ [.comment e text] = front at stands
  cases stands with
  | blockStart front rest head inside =>
    obtain ⟨-, comments⟩ := List.append_inj' above rfl
    cases comments
    cases head with
    | entered own bound => exact ⟨_, .target own, .inl rfl⟩
    | region own drawn inside => exact ⟨_, .state own, .inr rfl⟩

end Body

/-- The lines that are written: the header, and one for each statement. -/
def CompiledLanguage.lines (t : CompiledLanguage) : List Text :=
  Definition.header t.language.name :: t.statements.map Statement.render

namespace Language

variable {language : Language} {limits : Limits} {lookup : Text → Option Language}
  {compiled : CompiledLanguage}

/-- A language that brings no line feed has none in its statements. -/
theorem compile_isLine (compiles : language.compile limits lookup = .ok compiled)
    (plain : Context.Plain ⟨language, limits, lookup⟩) :
    ∀ s ∈ compiled.statements, IsLine s.render := by
  have supplied := compile_supplied compiles
  obtain ⟨-, σ, yields⟩ := compile_eq_ok_iff.1 compiles
  obtain ⟨rules, σ₁, known, inside⟩ := yields_bind_iff.1 yields
  have own := Context.rulesOf_eq_ok_iff.1 (yields_ofExcept_iff.1 known).1
  have blocks := Body.ofList_blocks ⟨rules, own, .inl rfl⟩ inside
  intro s held
  refine isLine_render ?_ fun binding binds => Binding.isLine_render ?_ ?_
  · rintro d text rfl
    obtain ⟨name, brought, rfl | rfl⟩ := Body.exists_of_comment blocks held
    · exact (plain _ brought).append (by decide)
    · exact (IsLine.append (by decide) (plain _ brought)).append (by decide)
  · exact fun token bound => (supplied s held binding binds token bound).isLine plain
  · intro pattern emitted
    obtain ⟨before, after, same⟩ := List.append_of_mem held
    obtain ⟨e, -, -, stands⟩ := blocks.stands same
    obtain ⟨state, rule, source, token, own, bears, bound⟩ | ⟨state, rules, own, drawn⟩ :=
      Body.origin_of_stands stands binds
    · exact bound.isLine (plain _ (.pattern own bears)) emitted
    · exact Region.isLine_of_binding own drawn plain emitted

theorem isLine_header {name : Text} : IsLine (Definition.header name) ↔ IsLine name := by
  rw [Definition.header, isLine_append, isLine_append]
  exact ⟨fun lines => lines.1.2, fun line => ⟨⟨by decide, line⟩, by decide⟩⟩

/-- The definition of a language consists of the pieces of its lines, and an empty one behind the
last line feed. If no text that the language brings holds a line feed, then the pieces are the
lines, one for the header and one for each statement. They are not if a line feed stands in the
name or in a statement. -/
theorem source_lines (compiles : language.compile limits lookup = .ok compiled) :
    splitAt lineFeed compiled.source = compiled.lines.flatMap (splitAt lineFeed) ++ [[]] ∧
    (Context.Plain ⟨language, limits, lookup⟩ →
      splitAt lineFeed compiled.source = compiled.lines ++ [[]]) ∧
    (splitAt lineFeed compiled.source = compiled.lines ++ [[]] ↔
      IsLine language.name ∧ ∀ s ∈ compiled.statements, IsLine s.render) := by
  have own := (compile_eq_ok_iff.1 compiles).1
  have exact_iff : splitAt lineFeed compiled.source = compiled.lines ++ [[]] ↔
      IsLine language.name ∧ ∀ s ∈ compiled.statements, IsLine s.render := by
    rw [← own, ← isLine_header, ← List.forall_mem_map, ← List.forall_mem_cons]
    exact splitAt_lines_eq_iff
  refine ⟨splitAt_lines _ _, fun plain => exact_iff.2 ⟨?_, ?_⟩, exact_iff⟩
  · exact plain _ .name
  · exact compile_isLine compiles plain

theorem plain_pairsLanguage :
    Context.Plain ⟨Body.pairsLanguage, .standard, fun _ => none⟩ := by
  have entries : ∀ entry ∈ Body.pairsLanguage.graph, IsLine entry.1 ∧
      ∀ rule ∈ entry.2, (∀ pattern ∈ rule.pattern?, IsLine pattern) ∧
        ∀ target ∈ rule.target?, IsLine target := by
    decide
  have tokens : ∀ token ∈ Body.pairsLanguage.named, IsLine token := by decide
  rintro text (_ | known | ⟨rules, known, listed⟩ | ⟨⟨rules, known, listed⟩, bears⟩ | names |
    ⟨⟨ref, asked, -⟩, -⟩)
  · decide
  · exact (entries _ (Table.mem_of_get? known)).1
  · exact ((entries _ (Table.mem_of_get? known)).2 _ listed).2 _ rfl
  · exact ((entries _ (Table.mem_of_get? known)).2 _ listed).1 _ bears
  · exact tokens _ names
  · cases asked

/-- The lines of `pairsLanguage`, which has a region, blocks and statements that leave them. -/
theorem source_lines_pairsLanguage : ∃ compiled,
    Body.pairsLanguage.compile .standard (fun _ => none) = .ok compiled ∧
    compiled.statements.length = 13 ∧
    splitAt lineFeed compiled.source = compiled.lines ++ [[]] := by
  have made : ((Body.pairsLanguage.compile .standard fun _ => none).toOption.map
      (·.statements.length)) = some 13 := by
    decide +kernel
  obtain ⟨compiled, compiles, count⟩ := Option.map_eq_some_iff.1 made
  have compiles := eq_ok_of_toOption compiles
  exact ⟨compiled, compiles, count, (source_lines compiles).2.1 plain_pairsLanguage⟩

/-- A document with line feeds in the name of a state and in a pattern. -/
def brokenDocument : Document :=
  .object [("name", .text "broken"), ("tokens", .object [
    ("root", .list [.list [.text "a", .text "T", .text "two\nlines"]]),
    ("two\nlines", .list [.list [.text "b\nc", .text "T"]])])]

/-- The language that is loaded from `brokenDocument`. -/
def broken : Language where
  name := "broken"
  aliases := []
  filenames := []
  aliasFilenames := []
  graph := [
    ("root", [.nested "a" (.literal "T") "two\nlines"]),
    ("two\nlines", [.literal "b\nc" (.literal "T")])]
  sourceFile := some "broken.lexer.json"

/-- Line feeds that a document brings break the comment on a block and a pattern, so that the four
statements and the header stand in seven lines. -/
theorem source_lines_broken :
    Language.ofDocument "broken.lexer.json" brokenDocument = .ok broken ∧
    ∃ compiled, broken.compile .standard (fun _ => none) = .ok compiled ∧
      compiled.source = ofString "# autogenerated from the broken lexer grammar\n" ++
        "# two\nlines state\n" ++ "state T = 'a' begin\n" ++ "  T = 'b\nc'\n" ++ "end\n" ∧
      compiled.statements.length = 4 ∧
      (splitAt lineFeed compiled.source).length ≠ compiled.statements.length + 2 := by
  have made : broken.compile .standard (fun _ => none) = .ok ⟨broken, [
      .comment 0 "two\nlines state", .blockStart 0 (.single "T" "a"),
      .rule 1 (.single "T" "b\nc"), .blockEnd 0]⟩ := by
    cbv
  exact ⟨rfl, _, made, by decide +kernel, rfl, by decide +kernel⟩

end Language

end Highlight
