import Highlight.Proofs.Document.KeyOrder
import Highlight.Proofs.Document.Values
import Highlight.Proofs.Outcome
import Highlight.Proofs.Style.Inheritance
import Highlight.Proofs.Text.Pieces

/-!
# The order of tokens

Tokens are compared part by part and not unit by unit. The comparison of lists of parts is their
lexicographic order (`compareSegments_neg_iff`), which keeps a family together: what stands between
a list and one that goes on from it goes on from it as well (`exists_append_of_between`). So tokens
have one order only, whatever order they come in (`sortTokens_eq_of_perm`), and the sheet of a style
has its entries in that order, one for each token (`sheet_ordered`).
-/

namespace Highlight.Style

variable {a b c ancestor token : TokenType} {left right first rest middle : List Text}

/-! ## Lists of parts -/

/-- To compare the other way round turns the sign. -/
theorem compareSegments_swap (left right : List Text) :
    compareSegments right left = -compareSegments left right := by
  fun_induction compareSegments left right with
  | case1 l left right ih => rw [compareSegments, if_pos rfl, ih]
  | case2 l left r right differs less =>
    rw [compareSegments, if_neg (Ne.symm differs), if_neg (List.lt_asymm less)]
    rfl
  | case3 l left r right differs less =>
    have greater : r < l := by
      by_contra above
      exact differs (Std.Trichotomous.trichotomous l r less above)
    rw [compareSegments, if_neg (Ne.symm differs), if_pos greater]
  | case4 left right uneven =>
    cases left with
    | nil => cases right <;> simp [compareSegments]
    | cons l left =>
      cases right with
      | nil => simp [compareSegments]
      | cons r right => exact absurd rfl (uneven l left r right rfl)

/-- What compares below zero comes first in the lexicographic order of the parts. -/
theorem compareSegments_neg_iff : compareSegments left right < 0 ↔ left < right := by
  fun_induction compareSegments left right with
  | case1 l left right ih =>
    rw [ih, List.cons_lt_cons_iff]
    simp [List.lt_irrefl]
  | case2 l left r right differs less =>
    simp [List.cons_lt_cons_iff, less]
  | case3 l left r right differs less =>
    simp [List.cons_lt_cons_iff, less, differs]
  | case4 left right uneven =>
    cases left with
    | nil =>
      cases right with
      | nil => simp
      | cons r right =>
        simp
        omega
    | cons l left =>
      cases right with
      | nil =>
        simp
        omega
      | cons r right => exact absurd rfl (uneven l left r right rfl)

theorem compareSegments_eq_zero_iff : compareSegments left right = 0 ↔ left = right := by
  constructor
  · intro zero
    refine List.le_antisymm (List.not_lt.1 fun greater => ?_) (List.not_lt.1 fun less => ?_)
    · have above := compareSegments_neg_iff.2 greater
      rw [compareSegments_swap left right] at above
      omega
    · have below := compareSegments_neg_iff.2 less
      omega
  · rintro rfl
    have swapped := compareSegments_swap left left
    omega

/-- What stands between a list of parts and one that goes on from it goes on from it as well. -/
theorem exists_append_of_between (after : first < middle) (before : middle < first ++ rest) :
    ∃ further, further ≠ [] ∧ middle = first ++ further := by
  induction first generalizing middle with
  | nil =>
    refine ⟨middle, ?_, rfl⟩
    rintro rfl
    exact List.lt_irrefl _ after
  | cons s first ih =>
    cases middle with
    | nil => exact absurd after (List.not_lt_nil _)
    | cons m middle =>
      rw [List.cons_append, List.cons_lt_cons_iff] at before
      rw [List.cons_lt_cons_iff] at after
      rcases after with less | ⟨rfl, after⟩
      · -- The list in front of `middle` and the one behind it begin with the same part.
        rcases before with greater | ⟨rfl, -⟩
        · exact absurd greater (List.lt_asymm less)
        · exact absurd less (List.lt_irrefl _)
      · have before := (before.resolve_left (List.lt_irrefl _)).2
        obtain ⟨further, more, rfl⟩ := ih after before
        exact ⟨further, more, rfl⟩

theorem lt_append_right (more : rest ≠ []) : first < first ++ rest := by
  induction first with
  | nil =>
    obtain ⟨s, rest, rfl⟩ := List.exists_cons_of_ne_nil more
    exact List.nil_lt_cons s rest
  | cons s first ih =>
    rw [List.cons_append, List.cons_lt_cons_iff]
    exact .inr ⟨rfl, ih⟩

/-! ## Tokens -/

theorem join_segments (token : TokenType) : Text.join [unit '.'] (segments token) = token :=
  Text.join_splitAt (unit '.') token

theorem segments_injective (same : segments a = segments b) : a = b := by
  rw [← join_segments a, same, join_segments b]

/-- A descendant has the parts of its ancestor and further ones behind them. -/
theorem isAncestor_iff_segments : IsAncestor ancestor token ↔
    ∃ further, further ≠ [] ∧ segments token = segments ancestor ++ further := by
  constructor
  · rintro ⟨rest, rfl⟩
    obtain ⟨piece, pieces, split⟩ := Text.exists_splitAt (unit '.') rest
    refine ⟨segments rest, ?_, Text.splitAt_append_sep (unit '.') ancestor rest⟩
    rw [segments, split]
    exact List.cons_ne_nil piece pieces
  · rintro ⟨further, more, parts⟩
    have some_part : segments ancestor ≠ [] := by
      obtain ⟨piece, pieces, split⟩ := Text.exists_splitAt (unit '.') ancestor
      rw [segments, split]
      exact List.cons_ne_nil piece pieces
    refine ⟨Text.join [unit '.'] further, ?_⟩
    rw [← join_segments token, parts, Text.join_append some_part more, join_segments,
      List.append_assoc]
    rfl

/-- The comparison orders the tokens strictly and keeps the family of a token together behind it. -/
structure OrdersTokens (compare : TokenType → TokenType → Int) : Prop where
  swap : ∀ a b, compare b a = -compare a b
  trans : ∀ a b c, compare a b < 0 → compare b c < 0 → compare a c < 0
  eq_zero_iff : ∀ a b, compare a b = 0 ↔ a = b
  ancestor_first : ∀ ancestor token, IsAncestor ancestor token → compare ancestor token < 0
  between : ∀ ancestor token middle, IsAncestor ancestor token →
    compare ancestor middle < 0 → compare middle token < 0 → IsAncestor ancestor middle

theorem ordersTokens_compareTokens : OrdersTokens compareTokens where
  swap a b := compareSegments_swap (segments a) (segments b)
  trans a b c first second := by
    rw [compareTokens, compareSegments_neg_iff] at *
    exact List.lt_trans first second
  eq_zero_iff a b :=
    compareSegments_eq_zero_iff.trans ⟨segments_injective, congrArg segments⟩
  ancestor_first ancestor token above := by
    obtain ⟨further, more, parts⟩ := isAncestor_iff_segments.1 above
    rw [compareTokens, compareSegments_neg_iff, parts]
    exact lt_append_right more
  between ancestor token middle above after before := by
    obtain ⟨further, -, parts⟩ := isAncestor_iff_segments.1 above
    rw [compareTokens, compareSegments_neg_iff] at after before
    rw [parts] at before
    exact isAncestor_iff_segments.2 (exists_append_of_between after before)

/-! ## Sorted tokens -/

section Sorted

variable {tokens tokens' : List TokenType}

theorem tokenLe_iff : tokenLe a b = true ↔ compareTokens a b < 0 ∨ a = b := by
  rw [tokenLe, decide_eq_true_eq, ← ordersTokens_compareTokens.eq_zero_iff]
  omega

theorem tokenLe_trans (first : tokenLe a b = true) (second : tokenLe b c = true) :
    tokenLe a c = true := by
  rw [tokenLe_iff] at *
  rcases first with less | rfl
  · rcases second with less' | rfl
    · exact .inl (ordersTokens_compareTokens.trans a b c less less')
    · exact .inl less
  · exact second

theorem tokenLe_total (a b : TokenType) : (tokenLe a b || tokenLe b a) = true := by
  have swapped := ordersTokens_compareTokens.swap a b
  simp only [tokenLe, Bool.or_eq_true, decide_eq_true_eq]
  omega

theorem tokenLe_antisymm (first : tokenLe a b = true) (second : tokenLe b a = true) : a = b := by
  have swapped := ordersTokens_compareTokens.swap a b
  rw [tokenLe, decide_eq_true_eq] at first second
  exact (ordersTokens_compareTokens.eq_zero_iff a b).1 (by omega)

theorem sortTokens_perm (tokens : List TokenType) : (sortTokens tokens).Perm tokens :=
  List.mergeSort_perm tokens tokenLe

theorem pairwise_sortTokens (tokens : List TokenType) :
    (sortTokens tokens).Pairwise fun a b => tokenLe a b = true :=
  @List.pairwise_mergeSort _ tokenLe (fun _ _ _ => tokenLe_trans) tokenLe_total tokens

/-- The order in which tokens come does not matter. -/
theorem sortTokens_eq_of_perm (perm : tokens.Perm tokens') :
    sortTokens tokens = sortTokens tokens' :=
  ((sortTokens_perm tokens).trans (perm.trans (sortTokens_perm tokens').symm)).eq_of_pairwise
    (fun _ _ _ _ => tokenLe_antisymm) (pairwise_sortTokens tokens) (pairwise_sortTokens tokens')

/-- Tokens that come once rise strictly. -/
theorem rising_sortTokens (single : tokens.Nodup) :
    (sortTokens tokens).Pairwise fun a b => compareTokens a b < 0 := by
  have apart : (sortTokens tokens).Nodup := (sortTokens_perm tokens).nodup_iff.2 single
  refine ((pairwise_sortTokens tokens).and apart).imp fun ⟨le, differs⟩ => ?_
  exact (tokenLe_iff.1 le).resolve_right differs

/-- Of two tokens in a rising list the one that compares below the other stands in front of it. -/
theorem idxOf_lt_of_rising (rising : tokens.Pairwise fun a b => compareTokens a b < 0)
    (listed : a ∈ tokens) (listed' : b ∈ tokens) (less : compareTokens a b < 0) :
    tokens.idxOf a < tokens.idxOf b := by
  have bound := List.idxOf_lt_length_iff.2 listed
  have bound' := List.idxOf_lt_length_iff.2 listed'
  by_contra behind
  rcases Nat.lt_or_eq_of_le (Nat.not_lt.1 behind) with before | same
  · have greater := List.pairwise_iff_getElem.1 rising _ _ bound' bound before
    rw [List.getElem_idxOf, List.getElem_idxOf, ordersTokens_compareTokens.swap a b] at greater
    omega
  · rw [(List.idxOf_inj listed').1 same] at less
    have zero := (ordersTokens_compareTokens.eq_zero_iff a a).2 rfl
    omega

end Sorted

/-! ## The sheet -/

section Sheet

variable {style other : Style} {names : ColorNames} {line sheet : Text}

/-- The tokens of a style as its sheet has them: each once and rising, so that each stands in front
of its descendants. -/
structure SheetOrder (style : Style) (tokens : List TokenType) : Prop where
  perm : tokens.Perm (Table.keys style.styles)
  rising : tokens.Pairwise fun a b => compareTokens a b < 0
  ancestor_first : ∀ ancestor ∈ tokens, ∀ token ∈ tokens, IsAncestor ancestor token →
    tokens.idxOf ancestor < tokens.idxOf token

theorem sheetOrder_sortTokens (single : (Table.keys style.styles).Nodup) :
    SheetOrder style (sortTokens (Table.keys style.styles)) where
  perm := sortTokens_perm _
  rising := rising_sortTokens single
  ancestor_first ancestor listed token listed' above :=
    idxOf_lt_of_rising (rising_sortTokens single) listed listed'
      (ordersTokens_compareTokens.ancestor_first ancestor token above)

/-- The entry of a token: its name and the words of its value, its own or inherited. -/
def IsEntry (style : Style) (names : ColorNames) (token : TokenType) (line : Text) : Prop :=
  ∃ words, convert names (wordsOf style.styles token (foreground names)) = .ok words ∧
    line = Dialect.ruleName token ++ " " ++ words ++ ";"

theorem sheetLine_eq_ok_iff :
    sheetLine style names token = .ok line ↔ IsEntry style names token line := by
  rw [sheetLine, IsEntry]
  cases convert names (wordsOf style.styles token (foreground names)) with
  | error fault => simp
  | ok words => simp [eq_comm]

theorem sheet_eq_ok_iff : style.sheet names = .ok sheet ↔
    ∃ lines, sheet = Text.lines lines ++ "\n" ∧
      List.Forall₂ (IsEntry style names) (sortTokens (Table.keys style.styles)) lines := by
  have each (lines : List Text) :
      (sortTokens (Table.keys style.styles)).mapM (sheetLine style names) = .ok lines ↔
        List.Forall₂ (IsEntry style names) (sortTokens (Table.keys style.styles)) lines := by
    simp only [mapM_eq_ok_iff, sheetLine_eq_ok_iff]
  rw [Style.sheet, except_bind_eq_ok_iff]
  constructor
  · rintro ⟨lines, wrote, same⟩
    exact ⟨lines, (Except.ok.inj same).symm, (each lines).1 wrote⟩
  · rintro ⟨lines, rfl, entries⟩
    exact ⟨lines, (each lines).2 entries, rfl⟩

theorem firstWords_congr {styles styles' : Table Text Text}
    (same : ∀ key, Table.get? styles key = Table.get? styles' key) (fallback : Text)
    (tokens : List TokenType) :
    firstWords styles fallback tokens = firstWords styles' fallback tokens := by
  induction tokens with
  | nil => rfl
  | cons token tokens ih => rw [firstWords, firstWords, same, ih]

/-- In which order a style gives its words does not matter to any entry. -/
theorem isEntry_of_perm (perm : other.styles.Perm style.styles)
    (single : (Table.keys style.styles).Nodup) :
    IsEntry other names token line ↔ IsEntry style names token line := by
  have words : wordsOf other.styles token (foreground names) =
      wordsOf style.styles token (foreground names) :=
    firstWords_congr (Table.get?_perm perm single) _ _
  rw [IsEntry, IsEntry, words]

/-- A style that is loaded gives words to each token once. -/
theorem nodup_keys_of_ofText {file text : Text} (read : Style.ofText file text = .ok style) :
    (Table.keys style.styles).Nodup := by
  rw [Style.ofText] at read
  split at read
  · cases read
  next raw parsed =>
  have keyed := Document.keyed_of_read? parsed
  rw [Style.ofDocument] at read
  split at read
  · cases read
  next fields isObject =>
  rw [Document.fields?_eq_some_iff] at isObject
  subst isObject
  dsimp only at read
  split at read
  · cases read
    cases entries : (Entry.field? fields "styles").bind Document.fields? with
    | none => exact List.nodup_nil
    | some entries' =>
      obtain ⟨document, held, inside⟩ := Option.bind_eq_some_iff.1 entries
      rw [Document.fields?_eq_some_iff] at inside
      subst inside
      have keyed' := (Document.keyed_object_iff.1 keyed).2 _ (Table.mem_of_get? held)
      have single := (Document.keyed_object_iff.1 keyed').1.single
      rw [Option.getD_some, Table.keys, List.map_map]
      exact single
  · cases read

/-- Tokens are in a strict total order in which each stands in front of its descendants and nothing
but descendants stands among these. A sheet that is written has one entry for each token of the
style, in this order, so each token stands in front of its descendants. If another style gives the
same words to the same tokens in another order, its sheet is the same, and with other names of
colours, where it is written, it has the entries in the same order. -/
theorem sheet_ordered : OrdersTokens compareTokens ∧
    ∀ (style : Style) (names : ColorNames) (sheet : Text),
      (Table.keys style.styles).Nodup → style.sheet names = .ok sheet →
      ∃ tokens lines, SheetOrder style tokens ∧ sheet = Text.lines lines ++ "\n" ∧
        List.Forall₂ (IsEntry style names) tokens lines ∧
        ∀ other : Style, other.styles.Perm style.styles →
          other.sheet names = .ok sheet ∧
          ∀ names' sheet', other.sheet names' = .ok sheet' →
            ∃ lines', sheet' = Text.lines lines' ++ "\n" ∧
              List.Forall₂ (IsEntry other names') tokens lines' := by
  refine ⟨ordersTokens_compareTokens, fun style names sheet single wrote => ?_⟩
  obtain ⟨lines, text, entries⟩ := sheet_eq_ok_iff.1 wrote
  refine ⟨_, lines, sheetOrder_sortTokens single, text, entries, fun other perm => ?_⟩
  have order : sortTokens (Table.keys other.styles) = sortTokens (Table.keys style.styles) :=
    sortTokens_eq_of_perm (perm.map _)
  constructor
  · refine sheet_eq_ok_iff.2 ⟨lines, text, ?_⟩
    rw [order]
    exact entries.imp fun token line => (isEntry_of_perm perm single).2
  · intro names' sheet' wrote'
    obtain ⟨lines', text', entries'⟩ := sheet_eq_ok_iff.1 wrote'
    rw [order] at entries'
    exact ⟨lines', text', entries'⟩

/-- A family of tokens, children first, and a token beside it that begins with a unit below the dot
behind the same letters. -/
def family : Style where
  name := "family"
  styles := [("Name.Tag.Open", "bold"), ("Name-tag", "#f00"), ("Name.Tag", ""), ("Name", "#888")]
  sourceFile := none

/-- The names for the two colours of the family. -/
def familyNames : ColorNames where
  hexOf := [("gray", "888888"), ("red", "ff0000")]
  nameOf := [("888888", "gray"), ("ff0000", "red")]
  indexOf := [("gray", 102), ("red", 196)]

def familySheet : Text := "Name gray;\nName_Tag gray;\nName_Tag_Open b;\nName-tag red;\n"

theorem sheet_ordered_family : (Table.keys family.styles).Nodup ∧
    family.sheet familyNames = .ok familySheet ∧
    compareTokens "Name.Tag" "Name-tag" < 0 ∧ compareTokens "Name" "Name.Tag.Open" < 0 ∧
    ∃ tokens lines, SheetOrder family tokens ∧ familySheet = Text.lines lines ++ "\n" ∧
      List.Forall₂ (IsEntry family familyNames) tokens lines ∧
      (⟨"other", family.styles.reverse, none⟩ : Style).sheet familyNames = .ok familySheet := by
  have single : (Table.keys family.styles).Nodup := by decide
  have order : sortTokens (Table.keys family.styles) =
      [Text.ofString "Name", Text.ofString "Name.Tag", Text.ofString "Name.Tag.Open",
        Text.ofString "Name-tag"] := by
    have perm : (Table.keys family.styles).Perm [Text.ofString "Name", Text.ofString "Name.Tag",
        Text.ofString "Name.Tag.Open", Text.ofString "Name-tag"] := by decide +kernel
    exact (sortTokens_eq_of_perm perm).trans (List.mergeSort_of_pairwise (by decide +kernel))
  have default : foreground familyNames = "#ff0000" := by
    have sorted : Text.sort (Table.keys familyNames.nameOf) = Table.keys familyNames.nameOf :=
      List.mergeSort_of_pairwise (by decide)
    rw [foreground, sorted]
    rfl
  have written : (sortTokens (Table.keys family.styles)).mapM (sheetLine family familyNames) =
      .ok [Text.ofString "Name gray;", Text.ofString "Name_Tag gray;",
        Text.ofString "Name_Tag_Open b;", Text.ofString "Name-tag red;"] := by
    rw [order]
    unfold sheetLine
    rw [default]
    decide +kernel
  have wrote : family.sheet familyNames = .ok familySheet := by
    rw [Style.sheet, written]
    rfl
  obtain ⟨tokens, lines, listed, text, entries, others⟩ :=
    sheet_ordered.2 family familyNames familySheet single wrote
  exact ⟨single, wrote, by decide +kernel, by decide +kernel, tokens, lines, listed, text, entries,
    (others ⟨"other", family.styles.reverse, none⟩ (List.reverse_perm _)).1⟩

end Sheet

end Highlight.Style
