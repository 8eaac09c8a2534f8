import Highlight.Proofs.SubLexer.Names

/-!
# Sub-lexers lose nothing

Whatever a language is, each beginning of the stream of tokens that its lexer gives covers a
beginning of the text, without a gap and without an overlap, and the stream that ends covers it
all (`SubLexer.stream_lossless`).
-/

namespace Highlight

/-- The text of some tokens. -/
def Token.join (tokens : List Token) : Text := tokens.flatMap (·.text)

namespace SubLexer

variable {language : Language} {start : Text} {lexer : SubLexer}

theorem take_start_tiles {text : Text} {count : Nat} {tokens : List Token} {last : Run}
    (taken : (Run.start lexer text).take count = .ok (tokens, last)) :
    Tiles text.toArray 0 tokens last.machine.position ∧ last.machine.position ≤ text.length ∧
      last.text = text.toArray ∧ last.lexer = lexer :=
  Run.take_tiles (Nat.zero_le _) taken

theorem position_eq {text : Text} {count : Nat} {tokens : List Token} {last : Run}
    (taken : (Run.start lexer text).take count = .ok (tokens, last)) :
    last.machine.position = (Token.join tokens).length := by
  obtain ⟨tiles, inside, _⟩ := take_start_tiles taken
  rw [Token.join, tiles.concat, length_slice tiles.forward (by simpa using inside)]
  omega

/-- The stream of tokens of a lexer is contiguous and lossless. -/
theorem stream_lossless (built : build language start = .ok lexer) (text : Text) (count : Nat) :
    (lexer.start ≠ [] → ∃ tokens last, (Run.start lexer text).take count = .ok (tokens, last)) ∧
    ∀ tokens last, (Run.start lexer text).take count = .ok (tokens, last) →
      Lossless text tokens ∧
      (tokens.length < count → last.next = .ok none) ∧
      (last.next = .ok none → Token.join tokens = text) ∧
      ∀ before middle, (Run.start lexer text).take before.length = .ok (before, middle) →
        middle.Unmatched → before.length < count →
        let offset := (Token.join before).length
        tokens = before ++ [⟨.error, text.drop offset, offset⟩] ∧ last.next = .ok none := by
  constructor
  · intro named
    apply Run.take_total (build_named built)
    exact ⟨named, fun _ none => nomatch none⟩
  intro tokens last taken
  obtain ⟨tiles, inside, same, _⟩ := take_start_tiles taken
  refine ⟨tiles.lossless, Run.take_short taken, ?_, ?_⟩
  · intro ended
    have reached := Run.next_eq_none ended
    rw [same] at reached
    have whole : last.machine.position = text.toArray.size := Nat.le_antisymm inside reached
    rw [Token.join, tiles.concat, whole, slice_to_end]
    rfl
  · intro before middle started unmatched more
    obtain ⟨after, rfl, others⟩ := Run.take_split started taken (Nat.le_of_lt more)
    obtain ⟨_, _, same, _⟩ := take_start_tiles started
    obtain ⟨rest, left⟩ : ∃ rest, count - before.length = rest + 1 := ⟨count - before.length - 1, by omega⟩
    rw [left] at others
    obtain ⟨rfl, ended⟩ := Run.take_unmatched unmatched others
    refine ⟨?_, ended⟩
    rw [same, position_eq started, slice_to_end]

/-- A language whose states include each other, whose first pop finds nothing saved, and which
enters its second state by a match of nothing. -/
def wandering : Language where
  name := "wandering"
  aliases := []
  filenames := []
  aliasFilenames := []
  graph := [
    ("root", [
      .splice "words",
      .pop "b" (.literal "B") (.integer 1),
      .nested "(?=c)" (.literal "Gap") "inner"]),
    ("words", [.literal "a" (.literal "A"), .splice "root"]),
    ("inner", [.literal "c" (.literal "C")])]
  sourceFile := none

theorem stream_lossless_wandering : ∃ lexer last,
    build wandering "root" = .ok lexer ∧
    (Run.start lexer "bac!c").take 9 = .ok ([⟨"B", "b", 0⟩, ⟨"A", "a", 1⟩, ⟨"Gap", "", 2⟩,
      ⟨"C", "c", 2⟩, ⟨.error, "!c", 3⟩], last) ∧
    Lossless "bac!c" [⟨"B", "b", 0⟩, ⟨"A", "a", 1⟩, ⟨"Gap", "", 2⟩, ⟨"C", "c", 2⟩,
      ⟨.error, "!c", 3⟩] := by
  have run : (build wandering "root").toOption.bind (fun lexer =>
      ((Run.start lexer "bac!c").take 9).toOption.map (·.1)) = some [⟨"B", "b", 0⟩, ⟨"A", "a", 1⟩,
        ⟨"Gap", "", 2⟩, ⟨"C", "c", 2⟩, ⟨.error, "!c", 3⟩] := by
    decide +kernel
  obtain ⟨lexer, built, taken⟩ := Option.bind_eq_some_iff.1 run
  obtain ⟨⟨tokens, last⟩, taken, same⟩ := Option.map_eq_some_iff.1 taken
  have built := eq_ok_of_toOption built
  have taken := eq_ok_of_toOption taken
  subst same
  exact ⟨lexer, last, built, taken, ((stream_lossless built _ 9).2 _ last taken).1⟩

end SubLexer

end Highlight
