import Highlight.Proofs.Outcome
import Highlight.Proofs.Style.Names
import Highlight.Style.Sheet

/-!
# The two files of a style

A colour word of a style is written to the sheet under a name of the destination, and the colour map
tells the terminal what that name is. The words of one value are followed through
`Style.convert` first (`Style.convert_colors`), then every value that a token resolves to is shown to
mention its colours in the palette, and the two files are put together (`Style.compile_approximates`).
-/

namespace Highlight

namespace Style

variable {style : Style} {names : ColorNames} {value written : Text} {compiled : Compiled}

/-! ## Words of one value -/

/-- A word that asks for a colour. -/
def isColorWord (word : Text) : Bool :=
  (Text.ofString "#").isPrefixOf word || (Text.ofString "bg:#").isPrefixOf word

/-- A colour word and the same word with a name in place of the colour. The mark of a background
stays. -/
structure Renames (names : ColorNames) (word written start digits hex name : Text) : Prop where
  mark : start = [] ∨ start = Text.ofString "bg:"
  word : word = start ++ unit '#' :: digits
  written : written = start ++ name
  reads : Color.normalHex? (unit '#' :: digits) = some hex
  named : names.nameFor? hex = some name

theorem reads_of_colorName {color name : Text} (found : colorName names value color = .ok name) :
    ∃ hex, Color.normalHex? color = some hex ∧ names.nameFor? hex = some name := by
  unfold colorName at found
  split at found
  · next name' some =>
    cases found
    exact Option.bind_eq_some_iff.1 some
  · cases found

/-- A word that begins with the sign of a colour, in front of it the mark of a background or
nothing. -/
theorem renames_of_prefix {start word name : Text} (mark : start = [] ∨ start = Text.ofString "bg:")
    (begins : start ++ [unit '#'] <+: word)
    (named : colorName names value (word.drop start.length) = .ok name) :
    ∃ digits hex, Renames names word (start ++ name) start digits hex name := by
  obtain ⟨digits, rfl⟩ := begins
  rw [List.append_assoc, List.drop_left] at named
  obtain ⟨hex, reads, found⟩ := reads_of_colorName named
  exact ⟨digits, hex, mark, List.append_assoc _ _ _, rfl, reads, found⟩

/-- The colours of a conversion are the colour words, renamed one by one. -/
theorem convertWords_colors {words colors modifiers : List Text}
    (converted : convertWords names value words = .ok (colors, modifiers)) :
    List.Forall₂ (fun word written => ∃ start digits hex name,
      Renames names word written start digits hex name) (words.filter isColorWord) colors := by
  induction words generalizing colors modifiers with
  | nil =>
    cases converted
    exact .nil
  | cons word rest ih =>
    rw [convertWords] at converted
    by_cases plain : (Text.ofString "#").isPrefixOf word = true
    · rw [if_pos plain] at converted
      obtain ⟨name, named, converted⟩ := except_bind_eq_ok_iff.1 converted
      obtain ⟨⟨others, _⟩, later, same⟩ := except_bind_eq_ok_iff.1 converted
      cases same
      obtain ⟨digits, hex, renamed⟩ := renames_of_prefix (.inl rfl)
        (List.isPrefixOf_iff_prefix.1 plain) named
      rw [List.filter_cons_of_pos (by rw [isColorWord, plain]; rfl)]
      exact .cons ⟨_, digits, hex, name, renamed⟩ (ih later)
    · rw [if_neg plain] at converted
      by_cases ground : (Text.ofString "bg:#").isPrefixOf word = true
      · rw [if_pos ground] at converted
        obtain ⟨name, named, converted⟩ := except_bind_eq_ok_iff.1 converted
        obtain ⟨⟨others, _⟩, later, same⟩ := except_bind_eq_ok_iff.1 converted
        cases same
        obtain ⟨digits, hex, renamed⟩ := renames_of_prefix (.inr rfl)
          (List.isPrefixOf_iff_prefix.1 ground) named
        rw [List.filter_cons_of_pos (by rw [isColorWord, ground, Bool.or_true])]
        exact .cons ⟨_, digits, hex, name, renamed⟩ (ih later)
      · rw [if_neg ground] at converted
        rw [List.filter_cons_of_neg (by simp [isColorWord, plain, ground])]
        cases kind : modifier? word with
        | some modifier =>
          simp only [kind] at converted
          obtain ⟨⟨others, _⟩, later, same⟩ := except_bind_eq_ok_iff.1 converted
          cases same
          exact ih later
        | none =>
          simp only [kind] at converted
          split at converted
          · exact ih converted
          · cases converted

theorem convert_colors (converted : convert names value = .ok written) :
    ∃ colors rest, written = Text.join " " (colors ++ rest) ∧
      List.Forall₂ (fun word written => ∃ start digits hex name,
        Renames names word written start digits hex name)
        ((Text.words value).filter isColorWord) colors := by
  obtain ⟨⟨colors, modifiers⟩, words, same⟩ := except_bind_eq_ok_iff.1 converted
  cases same
  exact ⟨colors, _, rfl, convertWords_colors words⟩

/-! ## Values of tokens -/

theorem firstWords_mem (styles : Table Text Text) (fallback : Text) (tokens : List TokenType) :
    firstWords styles fallback tokens ∈ Table.values styles ∨
      firstWords styles fallback tokens = fallback := by
  fun_induction firstWords styles fallback tokens with
  | case1 => exact .inr rfl
  | case2 => exact .inr rfl
  | case3 token rest empty ih => exact ih
  | case4 token rest words own found =>
    exact .inl (List.mem_map.2 ⟨_, Table.mem_of_get? found, rfl⟩)

/-- The palette of a style. -/
def palette (style : Style) : Palette := Palette.ofValues (Table.values style.styles)

/-- The names for the palette of a style. -/
def colorNames (style : Style) : ColorNames := ColorNames.ofPalette style.palette

/-- The value that a token has or inherits, or the greatest colour of the style. -/
def valueOf (style : Style) (token : TokenType) : Text :=
  wordsOf style.styles token (foreground style.colorNames)

theorem has_palette_iff {hex : Text} : Table.has style.palette hex = true ↔
    hex ∈ Palette.allMentions (Table.values style.styles) :=
  Table.has_iff.trans ((Palette.lists_ofValues _).mem_iff hex)

/-- The greatest colour that has a name is a colour of the palette. -/
theorem foreground_mem (some_name : style.colorNames.nameOf ≠ []) : ∃ hex,
    foreground style.colorNames = unit '#' :: hex ∧ Table.has style.palette hex = true := by
  have sorted : Text.sort (Table.keys style.colorNames.nameOf) ≠ [] := by
    rw [Text.sort, Ne, ← List.length_eq_zero_iff, List.length_mergeSort, List.length_eq_zero_iff]
    exact mt List.map_eq_nil_iff.1 some_name
  refine ⟨(Text.sort (Table.keys style.colorNames.nameOf)).getLast sorted, ?_, ?_⟩
  · rw [foreground, List.getLastD_eq_getLast?, List.getLast?_eq_some_getLast sorted]
    rfl
  · exact ColorNames.has_of_mem_nameOf (List.mem_mergeSort.1 (List.getLast_mem sorted))

/-- A value of a token mentions colours of the palette only. -/
theorem mentions_valueOf (some_name : style.colorNames.nameOf ≠ []) (token : TokenType) {hex : Text}
    (listed : hex ∈ Palette.mentions (style.valueOf token)) :
    Table.has style.palette hex = true := by
  obtain own | fallback := firstWords_mem style.styles (foreground style.colorNames)
    (token :: ancestors token)
  · exact has_palette_iff.2 (List.mem_flatMap.2 ⟨_, own, listed⟩)
  · obtain ⟨greatest, spelled, inside⟩ := foreground_mem some_name
    rw [valueOf, wordsOf, fallback, spelled] at listed
    have normal : Color.IsNormal greatest := by
      obtain ⟨_, _, mentioned⟩ := List.mem_flatMap.1 (has_palette_iff.1 inside)
      exact Palette.isNormal_of_mem_mentions mentioned
    rw [Palette.mentions_of_isNormal normal, List.mem_singleton] at listed
    exact listed ▸ inside

/-! ## The sheet and the colour map -/

/-- The line of a colour map for a name. -/
def mapLine (name : Text) (index : Nat) : Text :=
  "\"" ++ name ++ "\" \"" ++ Text.ofNat index ++ "\""

/-- A line stands in the block of colours of a colour map. -/
def MapsTo (colorMap name : Text) (index : Nat) : Prop :=
  ∃ before after : List Text, colorMap = Text.lines (before ++ mapLine name index :: after) ∧
    Text.ofString "colormap" ∈ before ∧ Text.ofString "end" ∈ after

theorem mapsTo_block {head block tail : List Text} {name : Text} {index : Nat}
    (listed : mapLine name index ∈ block) (opened : Text.ofString "colormap" ∈ head)
    (closed : Text.ofString "end" ∈ tail) :
    MapsTo (Text.lines (head ++ block ++ tail)) name index := by
  obtain ⟨before, after, rfl⟩ := List.append_of_mem listed
  exact ⟨head ++ before, after ++ tail, by simp, List.mem_append_left _ opened,
    List.mem_append_right _ closed⟩

theorem mapsTo_of_get? {name : Text} {index : Nat}
    (indexed : Table.get? names.indexOf name = some index) :
    MapsTo (style.colorMap names) name index := by
  have sorted : name ∈ Text.sort (Table.keys names.indexOf) :=
    List.mem_mergeSort.2 (Table.mem_keys_of_get? indexed)
  have listed : mapLine name index ∈ (Text.sort (Table.keys names.indexOf)).map fun name =>
      mapLine name ((Table.get? names.indexOf name).getD 0) :=
    List.mem_map.2 ⟨name, sorted, by rw [indexed, Option.getD_some]⟩
  exact mapsTo_block listed (by simp) (by simp)

/-- A colour word of a token of a style, and what the sheet says instead: the mark of a background
stays, the colour is in the palette, and the name that is written stands for the colour in the
tables and has its line in the colour map. -/
structure WritesColor (compiled : Compiled) (word written start digits hex name chosen : Text)
    (index : Nat) : Prop extends Renames compiled.names word written start digits hex name where
  mentioned : Table.has compiled.style.palette hex = true
  stands : compiled.names.Stands compiled.style.palette hex name chosen index
  mapped : MapsTo compiled.colorMap name index

/-- The line of a token: its colours in the order of their words, then the rest. -/
def WritesToken (compiled : Compiled) (token : TokenType) (line : Text) : Prop :=
  ∃ colors rest : List Text,
    line = Dialect.ruleName token ++ " " ++ Text.join " " (colors ++ rest) ++ ";" ∧
      List.Forall₂ (fun word written => ∃ start digits hex name chosen index,
        WritesColor compiled word written start digits hex name chosen index)
        ((Text.words (compiled.style.valueOf token)).filter isColorWord) colors

theorem writesColor_of_renames {token : TokenType} {word written start digits hex name : Text}
    (ofStyle : compiled.names = compiled.style.colorNames)
    (mapOfStyle : compiled.colorMap = compiled.style.colorMap compiled.names)
    (some_name : compiled.names.nameOf ≠ [])
    (listed : word ∈ Text.words (compiled.style.valueOf token))
    (renames : Renames compiled.names word written start digits hex name) :
    ∃ chosen index, WritesColor compiled word written start digits hex name chosen index := by
  have nonempty : compiled.style.palette ≠ [] := by
    intro none
    rw [ofStyle, colorNames, none, ColorNames.ofPalette_nil] at some_name
    exact some_name rfl
  have named := renames.named
  rw [ofStyle] at named some_name
  obtain ⟨chosen, index, stands⟩ := ColorNames.nameFor?_stands nonempty named
  rw [renames.word] at listed
  have mentioned := mentions_valueOf some_name token
    (Palette.mem_mentions_of_word listed renames.reads)
  rw [← colorNames, ← ofStyle] at stands
  exact ⟨chosen, index, renames, mentioned, stands, mapOfStyle ▸ mapsTo_of_get? stands.indexed⟩

theorem writesToken_of_sheetLine {token : TokenType} {line : Text}
    (ofStyle : compiled.names = compiled.style.colorNames)
    (mapOfStyle : compiled.colorMap = compiled.style.colorMap compiled.names)
    (some_name : compiled.names.nameOf ≠ [])
    (wrote : sheetLine compiled.style compiled.names token = .ok line) :
    WritesToken compiled token line := by
  unfold sheetLine at wrote
  split at wrote
  · next words converted =>
    cases wrote
    obtain ⟨colors, rest, rfl, renamed⟩ := convert_colors converted
    refine ⟨colors, rest, rfl, ?_⟩
    rw [valueOf, ← ofStyle]
    have listed : ∀ word ∈ (Text.words (wordsOf compiled.style.styles token
        (foreground compiled.names))).filter isColorWord,
        word ∈ Text.words (compiled.style.valueOf token) := by
      intro word inside
      rw [valueOf, ← ofStyle]
      exact (List.mem_filter.1 inside).1
    refine ((List.forall₂_and_left _ _).2 ⟨listed, renamed⟩).imp ?_
    rintro word written ⟨inside, start, digits, hex, name, renames⟩
    obtain ⟨chosen, index, writes⟩ :=
      writesColor_of_renames ofStyle mapOfStyle some_name inside renames
    exact ⟨start, digits, hex, name, chosen, index, writes⟩
  · cases wrote

theorem compile_eq_ok (done : style.compile = .ok compiled) :
    compiled.style = style ∧ compiled.names = style.colorNames ∧ compiled.names.nameOf ≠ [] ∧
      sheet style compiled.names = .ok compiled.sheet ∧
      compiled.colorMap = style.colorMap compiled.names := by
  unfold compile at done
  dsimp only at done
  split at done
  · cases done
  · next some_name =>
    obtain ⟨written, wrote, same⟩ := except_bind_eq_ok_iff.1 done
    cases same
    exact ⟨rfl, rfl, fun none => some_name (List.isEmpty_iff.2 none), wrote, rfl⟩

/-- The two files of a compiled style agree and approximate its colours as well as its names allow:
the sheet has one line for each token, parents before children, and each colour word of the value of
the token stands there under a name that `WritesColor` ties to the palette, the tables and the
colour map. The names of a palette with a colour are all names of the destination, each for the
colour, among all that the style mentions, that comes first among the nearest to its own. -/
theorem compile_approximates (style : Style) :
    (∀ compiled, style.compile = .ok compiled →
      compiled.style = style ∧ compiled.names = style.colorNames ∧
        ∃ lines, compiled.sheet = Text.lines lines ++ "\n" ∧
          List.Forall₂ (WritesToken compiled) (sortTokens (Table.keys style.styles)) lines) ∧
    (style.palette ≠ [] →
      Table.keys style.colorNames.hexOf = Color.logical.map (·.1) ∧
        ∀ entry ∈ Color.logical, ∃ hex,
          Table.get? style.colorNames.hexOf entry.1 = some hex ∧
          entry.2.IsNearest ((Palette.allMentions (Table.values style.styles)).map fun hex =>
            (hex, Rgb.ofHex hex)) hex (Rgb.ofHex hex)) := by
  constructor
  · intro compiled done
    obtain ⟨ofStyle, named, some_name, written, mapped⟩ := compile_eq_ok done
    subst ofStyle
    obtain ⟨lines, wrote, same⟩ := except_bind_eq_ok_iff.1 written
    refine ⟨rfl, named, lines, (Except.ok.inj same).symm, (forall₂_of_mapM_eq_ok wrote).imp ?_⟩
    exact fun token line wrote => writesToken_of_sheetLine named mapped some_name wrote
  · intro nonempty
    obtain ⟨keys, nearest⟩ := ColorNames.ofPalette_nearest nonempty
    refine ⟨keys, fun entry listed => ?_⟩
    obtain ⟨hex, color, taken, near⟩ := nearest entry listed
    exact ⟨hex, taken, ((Palette.lists_ofValues _).isNearest near).2⟩

/-- A style with a value for descendants, a background that no name takes, and a last token that
nothing gives a value, so that it has the greatest colour. -/
def dusk : Style where
  name := "dusk"
  styles := [("Comment", "italic #888"), ("Comment.Doc", ""), ("Name", "#f00 bg:#FF0010 bold"),
    ("Text", "")]
  sourceFile := none

/-- The sheet of `dusk`. -/
def duskSheet : Text :=
  "Comment white i;\nComment_Doc white i;\nName brightorange bg:red b;\nText brightorange;\n"

theorem foreground_dusk : foreground dusk.colorNames = "#ff0000" := by
  have keys : Table.keys dusk.colorNames.nameOf =
      [Text.ofString "888888", Text.ofString "ff0000"] := by decide +kernel
  have sorted : Text.sort (Table.keys dusk.colorNames.nameOf) = Table.keys dusk.colorNames.nameOf := by
    rw [keys]
    exact List.mergeSort_of_pairwise (by decide)
  rw [foreground, sorted, keys]
  rfl

theorem compile_dusk : dusk.compile =
    .ok ⟨dusk, dusk.colorNames, duskSheet, dusk.colorMap dusk.colorNames⟩ := by
  have order : sortTokens (Table.keys dusk.styles) = Table.keys dusk.styles :=
    List.mergeSort_of_pairwise (by decide +kernel)
  have written : (Table.keys dusk.styles).mapM (sheetLine dusk dusk.colorNames) =
      .ok [Text.ofString "Comment white i;", Text.ofString "Comment_Doc white i;",
        Text.ofString "Name brightorange bg:red b;", Text.ofString "Text brightorange;"] := by
    unfold sheetLine
    rw [foreground_dusk]
    decide +kernel
  have some_name : dusk.colorNames.nameOf.isEmpty = false := by decide +kernel
  have sheet : dusk.sheet dusk.colorNames = .ok duskSheet := by
    rw [Style.sheet, order, written]
    rfl
  unfold compile
  dsimp only
  rw [if_neg (by rw [← palette, ← colorNames, some_name]; decide), ← palette, ← colorNames, sheet]
  rfl

theorem compile_approximates_dusk : ∃ compiled, dusk.compile = .ok compiled ∧
    compiled.sheet = duskSheet ∧ compiled.names = dusk.colorNames ∧
    (∃ lines, compiled.sheet = Text.lines lines ++ "\n" ∧
      List.Forall₂ (WritesToken compiled) (sortTokens (Table.keys dusk.styles)) lines) ∧
    Table.keys dusk.colorNames.hexOf = Color.logical.map (·.1) := by
  have nonempty : dusk.palette ≠ [] := by decide +kernel
  obtain ⟨_, named, lines⟩ := (compile_approximates dusk).1 _ compile_dusk
  exact ⟨_, compile_dusk, rfl, named, lines, ((compile_approximates dusk).2 nonempty).1⟩

end Style

end Highlight
