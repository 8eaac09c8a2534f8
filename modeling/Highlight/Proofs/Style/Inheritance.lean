import Highlight.Proofs.Table
import Highlight.Style.Sheet

/-!
# Inherited words

A token of a style that has no words of its own takes those of an ancestor by dots. The search for
them climbs from parent to parent (`Style.Search`) and always comes to an end, provided that the
words it falls back on are not empty. It takes the words of the closest ancestor that has some only
if the style mentions every ancestor in between: the first one that is not mentioned ends the search
with the fallback (`Style.wordsOf_inherited`).
-/

namespace Highlight.Style

variable {styles : Table Text Text} {fallback words : Text} {token ancestor : TokenType}

/-! ## Ancestors -/

/-- A token stands above another one, which goes on with a dot. -/
def IsAncestor (ancestor token : TokenType) : Prop := ∃ rest, token = ancestor ++ unit '.' :: rest

/-- The token right above a token: what stands before its last dot. -/
def parent? (token : TokenType) : Option TokenType := Text.beforeLast? (unit '.') token

theorem ancestorsFrom_eq (t : Text) : ancestorsFrom t =
    match t.dropWhile (· ≠ unit '.') with
    | [] => []
    | _ :: r => r.reverse :: ancestorsFrom r := by
  induction t with
  | nil => rfl
  | cons u t ih =>
    rw [ancestorsFrom]
    by_cases dot : u = unit '.'
    · rw [if_pos dot, List.dropWhile_cons_of_neg (by simpa using dot)]
    · rw [if_neg dot, List.dropWhile_cons_of_pos (by simpa using dot), ih]

/-- The ancestors of a token are its parent and the ancestors of the parent. -/
theorem ancestors_eq (token : TokenType) :
    ancestors token = (parent? token).elim [] fun parent => parent :: ancestors parent := by
  rw [ancestors, ancestorsFrom_eq, parent?, Text.beforeLast?]
  cases token.reverse.dropWhile (· ≠ unit '.') with
  | nil => rfl
  | cons u r => simp [ancestors]

theorem parent?_of_ancestors_nil (top : ancestors token = []) : parent? token = none := by
  rw [ancestors_eq] at top
  cases parent : parent? token with
  | none => rfl
  | some other =>
    rw [parent] at top
    cases top

theorem parent?_of_ancestors_cons {further : List TokenType}
    (above : ancestors token = ancestor :: further) :
    parent? token = some ancestor ∧ ancestors ancestor = further := by
  rw [ancestors_eq] at above
  cases parent : parent? token with
  | none =>
    rw [parent] at above
    cases above
  | some other =>
    rw [parent] at above
    cases above
    exact ⟨rfl, rfl⟩

theorem mem_ancestorsFrom {t : Text} :
    ancestor ∈ ancestorsFrom t ↔ ∃ rest, t = rest ++ unit '.' :: ancestor.reverse := by
  induction t with
  | nil => simp [ancestorsFrom]
  | cons u t ih =>
    have later : (∃ v rest, u :: t = v :: rest ++ unit '.' :: ancestor.reverse) ↔
        ancestor ∈ ancestorsFrom t := by
      simp [ih]
    have split : (∃ rest, u :: t = rest ++ unit '.' :: ancestor.reverse) ↔
        u :: t = unit '.' :: ancestor.reverse ∨ ancestor ∈ ancestorsFrom t := by
      rw [← later]
      constructor
      · rintro ⟨rest, same⟩
        cases rest with
        | nil => exact .inl same
        | cons v rest => exact .inr ⟨v, rest, same⟩
      · rintro (same | ⟨v, rest, same⟩)
        · exact ⟨[], same⟩
        · exact ⟨v :: rest, same⟩
    rw [ancestorsFrom, split]
    by_cases dot : u = unit '.'
    · rw [if_pos dot, List.mem_cons, dot, List.cons.injEq, ← List.reverse_eq_iff]
      simp [eq_comm]
    · simp [dot]

theorem mem_ancestors_iff : ancestor ∈ ancestors token ↔ IsAncestor ancestor token := by
  rw [ancestors, mem_ancestorsFrom]
  constructor
  · rintro ⟨rest, reversed⟩
    exact ⟨rest.reverse, by simpa using congrArg List.reverse reversed⟩
  · rintro ⟨rest, rfl⟩
    exact ⟨rest.reverse, by simp⟩

theorem ancestorsFrom_shorter (t : Text) :
    (ancestorsFrom t).Pairwise fun closer further => further.length < closer.length := by
  induction t with
  | nil => exact .nil
  | cons u t ih =>
    rw [ancestorsFrom]
    split
    · refine List.pairwise_cons.2 ⟨fun further listed => ?_, ih⟩
      obtain ⟨rest, rfl⟩ := mem_ancestorsFrom.1 listed
      simp only [List.length_reverse, List.length_append, List.length_cons]
      omega
    · exact ih

theorem length_ancestorsFrom (t : Text) : (ancestorsFrom t).length = t.count (unit '.') := by
  induction t with
  | nil => rfl
  | cons u t ih =>
    rw [ancestorsFrom, List.count_cons]
    by_cases dot : u = unit '.'
    · simp [dot, ih]
    · simp [dot, ih]

/-- A token has an ancestor for each of its dots. -/
theorem length_ancestors (token : TokenType) :
    (ancestors token).length = token.count (unit '.') := by
  rw [ancestors, length_ancestorsFrom, List.count_reverse]

/-- The ancestors that are closer than one of them stand in front of it. -/
theorem exists_closer (above : IsAncestor ancestor token) : ∃ closer further,
    ancestors token = closer ++ ancestor :: further ∧
      ∀ other, other ∈ closer ↔ IsAncestor other token ∧ ancestor.length < other.length := by
  obtain ⟨closer, further, split⟩ := List.append_of_mem (mem_ancestors_iff.2 above)
  have order : (ancestors token).Pairwise fun closer further => further.length < closer.length :=
    ancestorsFrom_shorter token.reverse
  rw [split, List.pairwise_append, List.pairwise_cons] at order
  obtain ⟨-, ⟨behind, -⟩, front⟩ := order
  refine ⟨closer, further, split, fun other => ?_⟩
  rw [← mem_ancestors_iff, split, List.mem_append, List.mem_cons]
  constructor
  · exact fun listed => ⟨.inl listed, front other listed ancestor List.mem_cons_self⟩
  · rintro ⟨listed | rfl | listed, longer⟩
    · exact listed
    · exact absurd longer (Nat.lt_irrefl _)
    · exact absurd longer (Nat.lt_asymm (behind other listed))

/-! ## The first words -/

/-- A style gives a token no words: it does not mention it, or only to let it inherit. -/
def Wordless (styles : Table Text Text) (token : TokenType) : Prop :=
  ∀ words, Table.get? styles token = some words → words = []

/-- The words of the closest ancestor that has some. -/
structure Closest (styles : Table Text Text) (token ancestor : TokenType) (words : Text) :
    Prop where
  above : IsAncestor ancestor token
  given : Table.get? styles ancestor = some words
  nonempty : words ≠ []
  /-- No ancestor that is closer has any. -/
  wordless : ∀ between, IsAncestor between token → ancestor.length < between.length →
    Wordless styles between

theorem firstWords_of_nonempty {rest : List TokenType}
    (given : Table.get? styles token = some words) (nonempty : words ≠ []) :
    firstWords styles fallback (token :: rest) = words := by
  rw [firstWords, given]
  cases words with
  | nil => exact absurd rfl nonempty
  | cons u t => rfl

theorem firstWords_of_empty {rest : List TokenType} (given : Table.get? styles token = some []) :
    firstWords styles fallback (token :: rest) = firstWords styles fallback rest := by
  rw [firstWords, given]

theorem firstWords_of_missing {rest : List TokenType} (missing : Table.has styles token = false) :
    firstWords styles fallback (token :: rest) = fallback := by
  rw [firstWords, Option.isSome_eq_false_iff.1 missing |> Option.isNone_iff_eq_none.1]

/-- A token without words is passed just if the style mentions it. -/
theorem firstWords_of_wordless {rest : List TokenType} (wordless : Wordless styles token) :
    firstWords styles fallback (token :: rest) =
      if Table.has styles token then firstWords styles fallback rest else fallback := by
  cases given : Table.get? styles token with
  | none =>
    have missing : Table.has styles token = false := by rw [Table.has, given]; rfl
    rw [firstWords_of_missing missing, missing, if_neg Bool.false_ne_true]
  | some words =>
    rw [wordless words given] at given
    have mentioned : Table.has styles token = true := by rw [Table.has, given]; rfl
    rw [firstWords_of_empty given, if_pos mentioned]

/-- The search gets past tokens without words just if the style mentions all of them. -/
theorem firstWords_append {before rest : List TokenType}
    (wordless : ∀ token ∈ before, Wordless styles token) :
    firstWords styles fallback (before ++ rest) =
      if before.all (Table.has styles) then firstWords styles fallback rest else fallback := by
  induction before with
  | nil => rfl
  | cons token before ih =>
    obtain ⟨here, later⟩ := List.forall_mem_cons.1 wordless
    rw [List.cons_append, firstWords_of_wordless here, ih later, List.all_cons]
    cases Table.has styles token <;> rfl

theorem firstWords_of_all_wordless {tokens : List TokenType}
    (wordless : ∀ token ∈ tokens, Wordless styles token) :
    firstWords styles fallback tokens = fallback := by
  have none : firstWords styles fallback (tokens ++ []) = _ := firstWords_append wordless
  rw [List.append_nil] at none
  rw [none, firstWords, ite_self]

/-! ## The search -/

/-- A search under way: the token it has come to, if one is left, and the words it has found. -/
structure Search where
  place : Option TokenType
  words : Text

namespace Search

/-- The search comes to a token. -/
def reach (styles : Table Text Text) (fallback : Text) : Option TokenType → Search
  | none => ⟨none, fallback⟩
  | some token => ⟨some token, (Table.get? styles token).getD fallback⟩

/-- The search goes on to the parent. -/
def next (styles : Table Text Text) (fallback : Text) (search : Search) : Search :=
  reach styles fallback (search.place.bind parent?)

/-- A search that goes on as long as it has found no words ends after so many rounds. -/
inductive Ends (styles : Table Text Text) (fallback : Text) : Search → Nat → Text → Prop where
  | done {search : Search} (found : search.words ≠ []) : Ends styles fallback search 0 search.words
  | round {search : Search} {rounds : Nat} {words : Text} (empty : search.words = [])
    (goesOn : Ends styles fallback (search.next styles fallback) rounds words) :
    Ends styles fallback search (rounds + 1) words

/-- The search stops at a token that has words, or that the style does not mention. -/
theorem reach_stops (filled : fallback ≠ []) (stops : Table.get? styles token ≠ some [])
    (rest : List TokenType) : Ends styles fallback (reach styles fallback (some token)) 0
      (firstWords styles fallback (token :: rest)) := by
  have found : firstWords styles fallback (token :: rest) =
      (reach styles fallback (some token)).words := by
    rw [reach]
    cases given : Table.get? styles token with
    | none => rw [firstWords, given, Option.getD_none]
    | some words =>
      exact firstWords_of_nonempty given fun empty => stops (empty ▸ given)
  rw [found]
  refine .done ?_
  rw [reach]
  cases given : Table.get? styles token with
  | none => exact filled
  | some words => exact fun empty => stops (given.trans (congrArg some empty))

/-- The search passes a token that is mentioned to inherit. -/
theorem reach_passes {rounds : Nat} (given : Table.get? styles token = some [])
    (goesOn : Ends styles fallback (reach styles fallback (parent? token)) rounds words) :
    Ends styles fallback (reach styles fallback (some token)) (rounds + 1) words :=
  .round (by rw [reach, given, Option.getD_some]) goesOn

/-- From a token on, the search finds the first words in one round for each ancestor at most, and
one more for the fallback. -/
theorem reach_ends (filled : fallback ≠ []) {above : List TokenType}
    (climbs : ancestors token = above) : ∃ rounds ≤ above.length + 1,
      Ends styles fallback (reach styles fallback (some token)) rounds
        (firstWords styles fallback (token :: above)) := by
  induction above generalizing token with
  | nil =>
    by_cases given : Table.get? styles token = some []
    · refine ⟨1, Nat.le_refl _, reach_passes given ?_⟩
      rw [parent?_of_ancestors_nil climbs, firstWords_of_empty given, firstWords]
      exact @Ends.done styles fallback (reach styles fallback none) filled
    · exact ⟨0, Nat.zero_le _, reach_stops filled given []⟩
  | cons parent above ih =>
    by_cases given : Table.get? styles token = some []
    · obtain ⟨next, rest⟩ := parent?_of_ancestors_cons climbs
      obtain ⟨rounds, few, ends⟩ := ih rest
      refine ⟨rounds + 1, Nat.succ_le_succ few, reach_passes given ?_⟩
      rw [next, firstWords_of_empty given]
      exact ends
    · exact ⟨0, Nat.zero_le _, reach_stops filled given _⟩

end Search

/-- The words of a token of a style are its own if it has some. Otherwise they are those of the
closest ancestor that has some, provided that the style mentions every ancestor in between: where it
leaves one of them out, and where no ancestor has words, they are the fallback. The search for them
ends after at most one round for each dot of the token and one more. -/
theorem wordsOf_inherited {own : Text} (mentioned : Table.get? styles token = some own)
    (filled : fallback ≠ []) :
    (∃ rounds ≤ token.count (unit '.') + 1,
      Search.Ends styles fallback (.reach styles fallback (some token)) rounds
        (wordsOf styles token fallback)) ∧
    (own ≠ [] → wordsOf styles token fallback = own) ∧
    (own = [] →
      (∀ ancestor words, Closest styles token ancestor words →
        ((∀ between, IsAncestor between token → ancestor.length < between.length →
            Table.has styles between = true) → wordsOf styles token fallback = words) ∧
        ((∃ between, IsAncestor between token ∧ ancestor.length < between.length ∧
            Table.has styles between = false) → wordsOf styles token fallback = fallback)) ∧
      ((∀ ancestor, IsAncestor ancestor token → Wordless styles ancestor) →
        wordsOf styles token fallback = fallback)) := by
  refine ⟨?_, fun nonempty => firstWords_of_nonempty mentioned nonempty, ?_⟩
  · rw [← length_ancestors]
    exact Search.reach_ends filled rfl
  · rintro rfl
    rw [wordsOf, firstWords_of_empty mentioned]
    refine ⟨fun ancestor words closest => ?_, fun wordless => ?_⟩
    · obtain ⟨closer, further, split, between⟩ := exists_closer closest.above
      have passed : ∀ other ∈ closer, Wordless styles other := fun other listed =>
        closest.wordless other ((between other).1 listed).1 ((between other).1 listed).2
      rw [split, firstWords_append passed, firstWords_of_nonempty closest.given closest.nonempty]
      constructor
      · intro all
        refine if_pos (List.all_eq_true.2 fun other listed => ?_)
        exact all other ((between other).1 listed).1 ((between other).1 listed).2
      · rintro ⟨other, above, longer, missing⟩
        refine if_neg fun all => ?_
        rw [List.all_eq_true.1 all other ((between other).2 ⟨above, longer⟩)] at missing
        cases missing
    · exact firstWords_of_all_wordless fun ancestor listed =>
        wordless ancestor (mem_ancestors_iff.1 listed)

/-- A style whose two lower tokens inherit, and a token of another branch whose parent is not
mentioned. -/
def branching : Table Text Text :=
  [("Token", "#ffffff"), ("Token.Name", ""), ("Token.Name.Function", ""), ("Token.Text.Blank", "")]

theorem closest_branching : Closest branching "Token.Name.Function" "Token" "#ffffff" where
  above := ⟨Text.ofString "Name.Function", by decide⟩
  given := by decide
  nonempty := by decide
  wordless := by
    intro between above longer
    rw [← mem_ancestors_iff] at above
    have listed : ∀ between ∈ ancestors "Token.Name.Function",
        (Text.ofString "Token").length < between.length →
          Table.get? branching between = some [] := by decide
    intro words given
    rw [listed between above longer] at given
    exact (Option.some.inj given).symm

/-- Two ancestors below the one that has words are mentioned, so that its words come down. -/
theorem wordsOf_branching :
    Table.get? branching "Token.Name.Function" = some [] ∧ Text.ofString "#000000" ≠ [] ∧
      wordsOf branching "Token.Name.Function" "#000000" = "#ffffff" := by
  have mentioned : Table.get? branching "Token.Name.Function" = some [] := by decide
  have filled : Text.ofString "#000000" ≠ [] := by decide
  refine ⟨mentioned, filled, ?_⟩
  obtain ⟨-, -, inherits⟩ := wordsOf_inherited mentioned filled
  refine ((inherits rfl).1 "Token" "#ffffff" closest_branching).1 fun between above longer => ?_
  rw [← mem_ancestors_iff] at above
  revert between
  decide

/-- The parent of a token is not mentioned, and the words of the ancestor above it do not come
down. -/
theorem wordsOf_gap : Closest branching "Token.Text.Blank" "Token" "#ffffff" ∧
    Table.get? branching "Token.Text.Blank" = some [] ∧
      wordsOf branching "Token.Text.Blank" "#000000" = "#000000" := by
  refine ⟨⟨⟨Text.ofString "Text.Blank", by decide⟩, by decide, by decide, ?_⟩, by decide, by decide⟩
  intro between above longer
  rw [← mem_ancestors_iff] at above
  have listed : ∀ between ∈ ancestors "Token.Text.Blank",
      (Text.ofString "Token").length < between.length →
        Table.get? branching between = none := by decide
  intro words given
  rw [listed between above longer] at given
  cases given

end Highlight.Style
