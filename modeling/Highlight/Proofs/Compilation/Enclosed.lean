import Highlight.Proofs.Compilation.SourceLines
import Highlight.Proofs.Dialect.Quoting

/-!
# Patterns between delimiters

The patterns of a binding are written between delimiters: between backticks if they are bound to
groups, between single quotes otherwise. Single quotes in a pattern are escaped and backticks are
not, and the names of tokens are written as they are. So the delimiters of a line stand where they
open or close a pattern just if no token holds one and no pattern that is bound to groups holds a
backtick, and only then a scan from each delimiter to the next one reads the patterns back
(`Language.compile_enclosed`). Nothing in between brings in a backtick or drops one, so this is
seen in the rules of a language.
-/

namespace Highlight

open Compilation Text

/-- The backtick. -/
def Dialect.backtick : CodeUnit := 96

namespace Binding

/-- The unit that stands around the patterns of a binding. -/
def delimiter : Binding → CodeUnit
  | groups .. => Dialect.backtick
  | single .. | lineEnd _ | lineStart .. | region .. => Dialect.quote

/-- What a binding writes between delimiters. -/
def written : Binding → List Text
  | single _ pattern | lineStart _ pattern => [Dialect.quoteSafe pattern]
  | lineEnd _ => ["$"]
  | groups _ pattern => [pattern]
  | region _ entering leaving _ => [Dialect.quoteSafe entering, Dialect.quoteSafe leaving]

/-- What a binding writes between delimiters, with what stands around them. -/
def pieces : Binding → List Text
  | single token pattern => [Dialect.ruleName token ++ " = ", Dialect.quoteSafe pattern, []]
  | lineEnd token => [Dialect.ruleName token ++ " = ", "$", []]
  | lineStart token lead => [Dialect.ruleName token ++ " start ", Dialect.quoteSafe lead, []]
  | groups tokens pattern =>
    ["(" ++ join "," (tokens.map Dialect.ruleName) ++ ") = ", pattern, []]
  | region token entering leaving multiline =>
    [Dialect.ruleName token ++ " delim ", Dialect.quoteSafe entering, " ",
      Dialect.quoteSafe leaving,
      " " ++ if multiline then ofString "multiline nested" else ofString "nested"]

/-- The delimiters of a binding stand where they open or close a pattern, and nowhere else. -/
def Delimited (binding : Binding) : Prop :=
  splitAt binding.delimiter binding.render = binding.pieces

/-- No token of the binding holds its delimiter. -/
def PlainTokens (binding : Binding) : Prop := ∀ token ∈ binding.tokens, binding.delimiter ∉ token

/-- No pattern that is bound to groups holds a backtick. -/
def PlainGroups : Binding → Prop
  | groups _ pattern => Dialect.backtick ∉ pattern
  | single .. | lineEnd _ | lineStart .. | region .. => True

variable {binding : Binding}

instance : Decidable binding.Delimited := inferInstanceAs (Decidable (_ = _))

instance : Decidable binding.PlainTokens := inferInstanceAs (Decidable (∀ token ∈ _, _))

/-- What holds of both delimiters holds of that of a binding. -/
theorem delimiter_of {P : CodeUnit → Prop} (both : P Dialect.quote ∧ P Dialect.backtick) :
    P binding.delimiter := by
  cases binding with
  | groups => exact both.2
  | single | lineEnd | lineStart | region => exact both.1

theorem between_pieces : between binding.pieces = binding.written := by cases binding <;> rfl

/-- A binding is its pieces with delimiters between them. -/
theorem render_eq_join : binding.render = join [binding.delimiter] binding.pieces := by
  have quoted_eq (pattern : Text) :
      quoted pattern = Dialect.quote :: (Dialect.quoteSafe pattern ++ [Dialect.quote]) := rfl
  cases binding with
  | single token pattern => simp [render, pieces, delimiter, join, quoted_eq]
  | lineEnd token =>
    have fixed : ofString " = '$'" = " = " ++ [Dialect.quote] ++ "$" ++ [Dialect.quote] := by decide
    simp [render, pieces, delimiter, join, fixed]
  | lineStart token lead => simp [render, pieces, delimiter, join, quoted_eq]
  | groups tokens pattern =>
    have opening : ofString ") = `" = ") = " ++ [Dialect.backtick] := by decide
    have closing : ofString "`" = [Dialect.backtick] := by decide
    simp [render, pieces, delimiter, join, opening, closing]
  | region token entering leaving multiline =>
    simp [render, pieces, delimiter, join, quoted_eq]

theorem quote_not_mem_front (token : TokenType) {after : Text} (fixed : Dialect.quote ∉ after) :
    Dialect.quote ∉ Dialect.ruleName token ++ after ↔ Dialect.quote ∉ token := by
  rw [List.mem_append, or_iff_left fixed, Dialect.mem_ruleName_iff (by decide) (by decide)]

theorem backtick_not_mem_front {tokens : List TokenType} :
    Dialect.backtick ∉ ("(" ++ join "," (tokens.map Dialect.ruleName) ++ ") = " : Text) ↔
      ∀ token ∈ tokens, Dialect.backtick ∉ token := by
  have opening : Dialect.backtick ∉ ofString "(" := by decide
  have closing : Dialect.backtick ∉ ofString ") = " := by decide
  rw [List.mem_append, or_iff_left closing, List.mem_append, or_iff_right opening,
    mem_join_iff (by decide)]
  simp [Dialect.mem_ruleName_iff (u := Dialect.backtick) (by decide) (by decide)]

/-- Fixed texts and escaped patterns hold no delimiter. -/
theorem plain_pieces_iff : (∀ piece ∈ binding.pieces, binding.delimiter ∉ piece) ↔
    binding.PlainTokens ∧ binding.PlainGroups := by
  have safe := Dialect.quote_not_mem_quoteSafe
  cases binding with
  | single token pattern =>
    have front := quote_not_mem_front token (by decide : Dialect.quote ∉ ofString " = ")
    simp only [pieces, delimiter, PlainTokens, PlainGroups, tokens, List.forall_mem_cons, front,
      safe]
    simp
  | lineEnd token =>
    have front := quote_not_mem_front token (by decide : Dialect.quote ∉ ofString " = ")
    have dollar : Dialect.quote ∉ ofString "$" := by decide
    simp only [pieces, delimiter, PlainTokens, PlainGroups, tokens, List.forall_mem_cons, front,
      dollar]
    simp
  | lineStart token lead =>
    have front :=
      quote_not_mem_front token (by decide : Dialect.quote ∉ ofString " start ")
    simp only [pieces, delimiter, PlainTokens, PlainGroups, tokens, List.forall_mem_cons, front,
      safe]
    simp
  | groups tokens pattern =>
    simp only [pieces, delimiter, PlainTokens, PlainGroups, Binding.tokens, List.forall_mem_cons,
      backtick_not_mem_front]
    simp
  | region token entering leaving multiline =>
    have front :=
      quote_not_mem_front token (by decide : Dialect.quote ∉ ofString " delim ")
    have blank : Dialect.quote ∉ ofString " " := by decide
    have flags : Dialect.quote ∉
        (" " ++ if multiline then ofString "multiline nested" else ofString "nested" : Text) := by
      cases multiline <;> decide
    simp only [pieces, delimiter, PlainTokens, PlainGroups, tokens, List.forall_mem_cons, front,
      safe, blank, flags]
    simp

/-- The delimiters of a binding stand only around its patterns if its tokens hold none, and no
backtick stands in a pattern that is bound to groups. -/
theorem delimited_iff : binding.Delimited ↔ binding.PlainTokens ∧ binding.PlainGroups := by
  have listed : ∃ piece rest, binding.pieces = piece :: rest := by
    cases binding <;> exact ⟨_, _, rfl⟩
  obtain ⟨piece, rest, listed⟩ := listed
  rw [Delimited, render_eq_join, ← plain_pieces_iff, listed, splitAt_join, flatMap_splitAt_eq_iff]

theorem Delimited.enclosed_eq (delimited : binding.Delimited) :
    enclosed binding.delimiter binding.render = binding.written := by
  rw [enclosed, delimited, between_pieces]

/-- The written patterns hold no delimiter just if no pattern that is bound to groups does. -/
theorem plainGroups_iff :
    binding.PlainGroups ↔ ∀ pattern ∈ binding.written, binding.delimiter ∉ pattern := by
  have safe := Dialect.quote_not_mem_quoteSafe
  have dollar : Dialect.quote ∉ ofString "$" := by decide
  cases binding <;> simp [PlainGroups, written, delimiter, safe, dollar]

/-- With plain tokens a scan reads the patterns back just if the delimiters stand around them only. -/
theorem enclosed_eq_written_iff (plain : binding.PlainTokens) :
    enclosed binding.delimiter binding.render = binding.written ↔ binding.PlainGroups := by
  constructor
  · intro read
    rw [plainGroups_iff, ← read]
    exact fun pattern listed => not_mem_of_mem_enclosed listed
  · exact fun groups => (delimited_iff.2 ⟨plain, groups⟩).enclosed_eq

end Binding

namespace Statement

variable {s : Statement} {binding : Binding}

/-- What a statement writes around its binding holds no delimiter. -/
theorem exists_frame (binds : s.binding? = some binding) : ∃ front back,
    binding.delimiter ∉ front ∧ binding.delimiter ∉ back ∧
      s.render = front ++ binding.render ++ back := by
  have fixed {t : Text} (none : Dialect.quote ∉ t ∧ Dialect.backtick ∉ t) :
      binding.delimiter ∉ t :=
    Binding.delimiter_of (P := fun u => u ∉ t) none
  have joined {x y : Text} (first : binding.delimiter ∉ x) (second : binding.delimiter ∉ y) :
      binding.delimiter ∉ x ++ y :=
    mt List.mem_append.1 (not_or.2 ⟨first, second⟩)
  have blanks (d : Nat) : binding.delimiter ∉ indent d := by
    intro inside
    have other : binding.delimiter ≠ unit ' ' :=
      Binding.delimiter_of (P := fun u => u ≠ unit ' ') (by decide)
    exact other (List.eq_of_mem_replicate inside)
  cases s with
  | comment d text => cases binds
  | blockEnd d => cases binds
  | rule d own =>
    cases Option.some.inj binds
    exact ⟨indent d, [], blanks d, List.not_mem_nil, (List.append_nil _).symm⟩
  | leave d own count =>
    cases Option.some.inj binds
    have number : binding.delimiter ∉ count.toText :=
      fixed ⟨Number.not_mem_toText (by decide) (by decide) count,
        Number.not_mem_toText (by decide) (by decide) count⟩
    refine ⟨indent d, " exit" ++ if (Number.finite 1 0).lt count then " " ++ count.toText else [],
      blanks d, joined (fixed (by decide)) ?_, ?_⟩
    · split
      · exact joined (fixed (by decide)) number
      · exact List.not_mem_nil
    · simp [render, depth, body]
  | blockStart d own =>
    cases Option.some.inj binds
    refine ⟨indent d ++ "state ", " begin", joined (blanks d) (fixed (by decide)),
      fixed (by decide), ?_⟩
    simp [render, depth, body]

/-- The line of a statement encloses what its binding encloses. -/
theorem enclosed_render (binds : s.binding? = some binding) :
    enclosed binding.delimiter s.render = enclosed binding.delimiter binding.render := by
  obtain ⟨front, back, plain, plain', same⟩ := exists_frame binds
  rw [same, enclosed_append plain plain']

end Statement

namespace Context

/-- No rule of the language and of those that it uses names a token with a quote or a backtick, and
no rule with a list of tokens has a backtick in its pattern. -/
structure Undelimited (ctx : Context) : Prop where
  own : ∀ token ∈ ctx.language.named, Dialect.quote ∉ token ∧ Dialect.backtick ∉ token
  used : ∀ other, ctx.Uses other →
    ∀ token ∈ other.named, Dialect.quote ∉ token ∧ Dialect.backtick ∉ token
  groups : ∀ state rule source items, Body.HasRule ctx.language.graph state rule →
    rule.pattern? = some source → rule.token? = some (.compound items) → Dialect.backtick ∉ source

variable {ctx : Context}

/-- What the numbers of rules and the marks of a lexer are written with is no delimiter. -/
theorem Supplies.undelimited {token : TokenType} (supplied : ctx.Supplies token)
    (undelimited : ctx.Undelimited) : Dialect.quote ∉ token ∧ Dialect.backtick ∉ token := by
  cases supplied with
  | own names => exact undelimited.own _ names
  | lexer uses gives =>
    cases gives with
    | text => decide
    | error => decide
    | named names => exact undelimited.used _ uses _ names
    | numbered =>
      have word : Dialect.quote ∉ ofString "rule" ∧ Dialect.backtick ∉ ofString "rule" := by decide
      exact ⟨mt List.mem_append.1 (not_or.2 ⟨word.1, not_mem_ofNat (by decide) _⟩),
        mt List.mem_append.1 (not_or.2 ⟨word.2, not_mem_ofNat (by decide) _⟩)⟩

end Context

theorem Dialect.backtick_mem_convert_iff {source pattern : Text}
    (converted : Dialect.convert source = .ok pattern) :
    Dialect.backtick ∈ pattern ↔ Dialect.backtick ∈ source := by
  rw [(Dialect.convert_eq_ok_iff.1 converted).1]
  exact Dialect.mem_respelled_iff (by decide) (by decide)

namespace Language

variable {language : Language} {limits : Limits} {lookup : Text → Option Language}
  {compiled : CompiledLanguage}

theorem compile_groupsOf (compiles : language.compile limits lookup = .ok compiled) :
    ∀ s ∈ compiled.statements, ∀ tokens pattern, s.binding? = some (.groups tokens pattern) →
      ∃ state rule source items,
        Body.GroupsOf ⟨language, limits, lookup⟩ s tokens pattern state rule source items := by
  obtain ⟨-, σ, yields⟩ := compile_eq_ok_iff.1 compiles
  obtain ⟨rules, σ₁, known, inside⟩ := yields_bind_iff.1 yields
  have own := Context.rulesOf_eq_ok_iff.1 (yields_ofExcept_iff.1 known).1
  have blocks := Body.ofList_blocks ⟨rules, own, .inl rfl⟩ inside
  intro s held tokens pattern binds
  obtain ⟨before, after, same⟩ := List.append_of_mem held
  obtain ⟨e, -, -, stands⟩ := blocks.stands same
  exact Body.stands_groups stands binds

/-- The delimiters in what a compiled language binds stand only around the patterns just if the
tokens of the binding hold none, and no backtick stands in a pattern that is bound to groups. The
patterns that are bound to groups are those of rules with a list of tokens, and such a pattern holds a
backtick just if the rule's does. Unless a token holds a delimiter, a scan of the line reads the
patterns back in the same cases. So it reads back those of all lines if the language brings no token
with a delimiter and no such rule with a backtick. -/
theorem compile_enclosed (compiles : language.compile limits lookup = .ok compiled) :
    (∀ s ∈ compiled.statements, ∀ binding, s.binding? = some binding →
      (binding.Delimited ↔ binding.PlainTokens ∧ binding.PlainGroups) ∧
      (binding.PlainTokens →
        (enclosed binding.delimiter s.render = binding.written ↔ binding.PlainGroups)) ∧
      ∀ tokens pattern, binding = .groups tokens pattern → ∃ state rule source items,
        Body.GroupsOf ⟨language, limits, lookup⟩ s tokens pattern state rule source items ∧
          (binding.PlainGroups ↔ Dialect.backtick ∉ source)) ∧
    (Context.Undelimited ⟨language, limits, lookup⟩ →
      ∀ s ∈ compiled.statements, ∀ binding, s.binding? = some binding →
        binding.Delimited ∧ enclosed binding.delimiter s.render = binding.written) := by
  refine ⟨?_, ?_⟩
  · intro s held binding binds
    refine ⟨Binding.delimited_iff, ?_, ?_⟩
    · rw [Statement.enclosed_render binds]
      exact Binding.enclosed_eq_written_iff
    · rintro tokens pattern rfl
      obtain ⟨state, rule, source, items, given⟩ := compile_groupsOf compiles s held _ _ binds
      exact ⟨state, rule, source, items, given,
        not_congr (Dialect.backtick_mem_convert_iff given.convert)⟩
  · intro undelimited s held binding binds
    have plain : binding.PlainTokens := by
      intro token bound
      have supplied := compile_supplied compiles s held binding binds token bound
      exact Binding.delimiter_of (P := fun u => u ∉ token) (supplied.undelimited undelimited)
    have groups : binding.PlainGroups := by
      cases binding with
      | groups tokens pattern =>
        obtain ⟨state, rule, source, items, given⟩ := compile_groupsOf compiles s held _ _ binds
        exact mt (Dialect.backtick_mem_convert_iff given.convert).1
          (undelimited.groups state rule source items given.own given.pattern_eq given.token_eq)
      | single | lineEnd | lineStart | region => trivial
    have delimited := Binding.delimited_iff.2 ⟨plain, groups⟩
    rw [Statement.enclosed_render binds]
    exact ⟨delimited, delimited.enclosed_eq⟩

/-- A language with quotes in its patterns: in a region, in groups, at the start of a line and in a
block that is left at the end of a line. -/
def fenced : Language where
  name := "fenced"
  aliases := []
  filenames := []
  aliasFilenames := []
  graph := [
    ("root", [
      .push "<'" (.literal "Token.A"),
      .literal "(')(a)" (.compound [.literal "Token.B", .literal "Token.C"]),
      .literal "`'.*" (.literal "Token.D"),
      .nested "q'" (.literal "Token.E") "string",
      .pop "'>" (.literal "Token.A") (.integer 1)]),
    ("string", [.pop "\\n" (.literal "Token.E") (.integer 1)])]
  sourceFile := none

/-- The statements of `fenced`. -/
def fencedStatements : List Statement := [
  .comment 0 "nested root state", .blockStart 0 (.region "Token.A" "<'" "'>" false),
  .rule 1 (.groups ["Token.B", "Token.C"] "(')(a)"), .rule 1 (.lineStart "Token.D" "`'"),
  .comment 1 "string state", .blockStart 1 (.single "Token.E" "q'"),
  .leave 2 (.lineEnd "Token.E") (.integer 1), .blockEnd 1, .blockEnd 0,
  .rule 0 (.groups ["Token.B", "Token.C"] "(')(a)"), .rule 0 (.lineStart "Token.D" "`'"),
  .comment 0 "string state", .blockStart 0 (.single "Token.E" "q'"),
  .leave 1 (.lineEnd "Token.E") (.integer 1), .blockEnd 0]

theorem undelimited_fenced : Context.Undelimited ⟨fenced, .standard, fun _ => none⟩ := by
  refine ⟨by decide, ?_, ?_⟩
  · rintro other ⟨ref, asked, -⟩
    cases asked
  · rintro state rule source items ⟨rules, known, listed⟩ bears names
    have held : rule ∈ fenced.graph.flatMap Prod.snd :=
      List.mem_flatMap.2 ⟨_, Table.mem_of_get? known, listed⟩
    -- One rule is bound to groups, and what stands in its pattern is a quote.
    simp only [fenced, List.flatMap_cons, List.flatMap_nil, List.append_nil, List.cons_append,
      List.nil_append, List.mem_cons, List.not_mem_nil, or_false] at held
    rcases held with rfl | rfl | rfl | rfl | rfl | rfl <;> cases names
    cases bears
    decide

/-- The patterns of all lines of `fenced` are read back. -/
theorem compile_enclosed_fenced :
    fenced.compile .standard (fun _ => none) = .ok ⟨fenced, fencedStatements⟩ ∧
    Context.Undelimited ⟨fenced, .standard, fun _ => none⟩ ∧
    ∀ s ∈ fencedStatements, ∀ binding, s.binding? = some binding →
      binding.Delimited ∧ enclosed binding.delimiter s.render = binding.written := by
  have compiles : fenced.compile .standard (fun _ => none) = .ok ⟨fenced, fencedStatements⟩ := by
    cbv
  exact ⟨compiles, undelimited_fenced, (compile_enclosed compiles).2 undelimited_fenced⟩

/-- A language with a backtick in a pattern that is bound to groups, and a quote in a token. -/
def ticked : Language where
  name := "ticked"
  aliases := []
  filenames := []
  aliasFilenames := []
  graph := [("root", [
    .literal "(`)" (.compound [.literal "T"]), .literal "a" (.literal "it's")])]
  sourceFile := none

/-- Neither line is read back: the pattern ends too early, or what stands behind the token is taken
for it. -/
theorem compile_ticked :
    ticked.compile .standard (fun _ => none) =
        .ok ⟨ticked, [.rule 0 (.groups ["T"] "(`)"), .rule 0 (.single "it's" "a")]⟩ ∧
      (Statement.rule 0 (.groups ["T"] "(`)")).render = ofString "(T) = `(`)`" ∧
      enclosed Dialect.backtick "(T) = `(`)`" = [ofString "("] ∧
      (Binding.groups ["T"] "(`)").written = [ofString "(`)"] ∧
      ¬ (Binding.groups ["T"] "(`)").Delimited ∧
      (Statement.rule 0 (.single "it's" "a")).render = ofString "it's = 'a'" ∧
      enclosed Dialect.quote "it's = 'a'" = [ofString "s = "] ∧
      (Binding.single "it's" "a").written = [ofString "a"] ∧
      ¬ (Binding.single "it's" "a").Delimited := by
  refine ⟨by cbv, ?_⟩
  decide +kernel

end Language

end Highlight
