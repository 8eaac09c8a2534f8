import Highlight.Proofs.Catalogue.LookupTable
import Highlight.Proofs.Text.Pieces
import Highlight.Statement

/-!
# The lookup table as it is written

The keys of a table are those that its languages claim, each once (`LookupTable.mem_keys_addAll`,
`LookupTable.nodup_keys_addAll`). Written as lines in the order of code units, the table is read
back by taking each line apart at the last mark in it, since no blank stands in the name of a
definition file. What the keys hold does not matter, as long as it is no line feed
(`LookupTable.read?_render`).
-/

namespace Highlight

namespace Text

variable {s t : Text} {ts : List Text}

/-! ## Texts in order -/

theorem lt_of_le (first : le s t = true) (differs : s ≠ t) : s < t := by
  have first : s ≤ t := of_decide_eq_true first
  by_cases order : s < t
  · exact order
  · exact absurd (List.le_antisymm first (List.not_lt.1 order)) differs

/-- Texts that are sorted stand in strict order if none of them comes twice. -/
theorem pairwise_sort (single : ts.Nodup) : (sort ts).Pairwise (· < ·) := by
  have ordered : (sort ts).Pairwise fun s t => le s t = true := by
    refine List.pairwise_mergeSort (fun s t u first second => ?_) (fun s t => ?_) ts
    · have first : s ≤ t := of_decide_eq_true first
      have second : t ≤ u := of_decide_eq_true second
      exact decide_eq_true (List.le_trans first second)
    · rw [Bool.or_eq_true, le, le, decide_eq_true_eq, decide_eq_true_eq]
      exact List.le_total s t
  have apart : (sort ts).Nodup := (List.mergeSort_perm ts le).nodup_iff.2 single
  exact (ordered.and apart).imp fun both => lt_of_le both.1 both.2

/-! ## The last mark -/

/-- What stands before and behind the last place of a mark in a text. -/
def splitLast? (mark : Text) : Text → Option (Text × Text)
  | [] => none
  | u :: r =>
    match splitLast? mark r with
    | some (front, back) => some (u :: front, back)
    | none => if mark.isPrefixOf (u :: r) then some ([], (u :: r).drop mark.length) else none

theorem splitLast?_eq_none {u : CodeUnit} {mark : Text} (absent : u ∉ t) :
    splitLast? (u :: mark) t = none := by
  induction t with
  | nil => rfl
  | cons v t ih =>
    have differs : u ≠ v := fun same => absent (same ▸ List.mem_cons_self)
    rw [splitLast?, ih fun inside => absent (List.mem_cons_of_mem _ inside)]
    simp [List.isPrefixOf, differs]

/-- A text in front moves no place of a mark. -/
theorem splitLast?_append {mark front back : Text} (found : splitLast? mark t = some (front, back))
    (s : Text) : splitLast? mark (s ++ t) = some (s ++ front, back) := by
  induction s with
  | nil => exact found
  | cons u s ih => rw [List.cons_append, splitLast?, ih, List.cons_append]

end Text

namespace Definition

/-- No blank stands in the name of a definition file. -/
theorem blank_not_mem_fileName (name : Text) : unit ' ' ∉ fileName name := by
  rw [fileName, List.mem_append, not_or]
  refine ⟨fun inside => ?_, by decide⟩
  obtain ⟨u, -, same⟩ := List.mem_map.1 inside
  split at same
  · exact absurd same (by decide)
  · next differs => exact differs same

end Definition

namespace LookupTable

open Text

variable {table : LookupTable} {language : Language} {file key : Text}

/-! ## Claims -/

/-- A language claims its name, its aliases and the extensions of its file names, and the lower case
of each. -/
def Claims (language : Language) (key : Text) : Prop :=
  ∃ own, (own = language.name ∨ own ∈ language.aliases ∨
      ∃ glob, (glob ∈ language.filenames ∨ glob ∈ language.aliasFilenames) ∧
        own = extensionOf glob) ∧
    (key = own ∨ key = Text.lower own)

theorem mem_claimed_iff : key ∈ claimed language ↔ Claims language key := by
  unfold claimed keysOf Claims
  simp only [List.mem_flatMap, List.mem_cons, List.mem_append, List.mem_map, List.not_mem_nil,
    or_false, List.cons_append, eq_comm (a := _) (b := extensionOf _)]

theorem nodup_keys_add (single : (Table.keys table).Nodup) (language : Language) (file : Text) :
    (Table.keys (add table language file)).Nodup := by
  unfold add
  induction keysOf language generalizing table with
  | nil => exact single
  | cons key keys ih =>
    exact ih (Table.nodup_keys_set (Table.nodup_keys_set single key file) (Text.lower key) file)

theorem nodup_keys_addAll (single : (Table.keys table).Nodup) (entries : List (Language × Text)) :
    (Table.keys (addAll table entries)).Nodup := by
  induction entries generalizing table with
  | nil => exact single
  | cons entry entries ih => exact ih (nodup_keys_add single entry.1 entry.2)

/-- Each key has the file of the last language that claims it. -/
theorem get?_addAll_eq_some_iff {entries : List (Language × Text)} :
    Table.get? (addAll [] entries) key = some file ↔
      ∃ front language back, entries = front ++ (language, file) :: back ∧ Claims language key ∧
        ∀ later ∈ back, ¬Claims later.1 key := by
  rw [get?_addAll, Table.get?, Option.or_none, Option.map_eq_some_iff]
  simp only [List.find?_eq_some_iff_append, decide_eq_true_eq, mem_claimed_iff]
  constructor
  · rintro ⟨⟨language, _⟩, ⟨claims, back, front, same, none⟩, rfl⟩
    -- The search ran from the end, so what it passed over stands behind the language.
    refine ⟨front.reverse, language, back.reverse, ?_, claims, fun later listed => ?_⟩
    · rw [← List.reverse_reverse entries, same]
      simp
    · simpa [mem_claimed_iff] using none later (List.mem_reverse.1 listed)
  · rintro ⟨front, language, back, rfl, claims, none⟩
    refine ⟨(language, file), ⟨claims, back.reverse, front.reverse, by simp, fun later listed => ?_⟩, rfl⟩
    simpa [mem_claimed_iff] using none later (List.mem_reverse.1 listed)

/-- The keys are those that some language claims. -/
theorem mem_keys_addAll {entries : List (Language × Text)} :
    key ∈ Table.keys (addAll [] entries) ↔ ∃ entry ∈ entries, Claims entry.1 key := by
  rw [← Table.has_iff, Table.has, get?_addAll, Table.get?, Option.or_none, Option.isSome_map,
    List.find?_isSome]
  simp only [List.mem_reverse, decide_eq_true_eq, mem_claimed_iff]

/-! ## Reading -/

/-- What stands between a key and its file. -/
def mark : Text := " = "

/-- The table that is written as a text: each line but the last, which is empty, taken apart at its
last mark. -/
def read? (t : Text) : Option LookupTable :=
  (splitAt lineFeed t).dropLast.mapM (splitLast? mark)

/-- The table with its keys in the order of code units. -/
def sorted (table : LookupTable) : LookupTable :=
  (Text.sort (Table.keys table)).map fun key => (key, (Table.get? table key).getD [])

/-- One line of a table. -/
def line (entry : Text × Text) : Text := entry.1 ++ mark ++ entry.2

theorem render_eq (table : LookupTable) :
    render table = Text.lines ((sorted table).map line) ++ "\n" := by
  rw [render, sorted, List.map_map]
  rfl

theorem keys_sorted (table : LookupTable) :
    Table.keys (sorted table) = Text.sort (Table.keys table) := by
  rw [Table.keys, sorted, List.map_map]
  exact List.map_id _

/-- A table in order holds the same keys and files. -/
theorem sorted_perm (single : (Table.keys table).Nodup) : (sorted table).Perm table := by
  have same : (Table.keys table).map (fun key => (key, (Table.get? table key).getD [])) = table := by
    rw [Table.keys, List.map_map]
    refine (List.map_congr_left fun entry listed => ?_).trans (List.map_id _)
    simp [Table.get?_of_mem single listed]
  have perm := (List.mergeSort_perm (Table.keys table) Text.le).map
    fun key => (key, (Table.get? table key).getD [])
  rwa [same] at perm

/-- A line is taken apart where it was put together, whatever the key holds. -/
theorem splitLast?_line (plain : unit ' ' ∉ file) (key : Text) :
    splitLast? mark (line (key, file)) = some (key, file) := by
  -- A mark that begins behind the blank in front of the sign needs a blank in the file.
  have behind : splitLast? mark file = none := splitLast?_eq_none plain
  have shifted : ¬mark.isPrefixOf (unit ' ' :: file) = true := by
    rw [List.isPrefixOf_iff_prefix]
    intro begins
    obtain ⟨-, begins⟩ := List.cons_prefix_cons.1 (begins : unit ' ' :: [unit '=', unit ' '] <+: _)
    exact plain (begins.subset (List.mem_cons_of_mem _ List.mem_cons_self))
  have third : splitLast? mark (unit ' ' :: file) = none := by
    rw [splitLast?, behind]
    exact if_neg shifted
  have second : splitLast? mark (unit '=' :: unit ' ' :: file) = none := by
    rw [splitLast?, third]
    rfl
  have first : splitLast? mark (unit ' ' :: unit '=' :: unit ' ' :: file) = some ([], file) := by
    rw [splitLast?, second]
    rfl
  rw [line, List.append_assoc]
  exact (splitLast?_append first key).trans (by rw [List.append_nil])

theorem mapM_splitLast? {entries : List (Text × Text)} (plain : ∀ entry ∈ entries, unit ' ' ∉ entry.2) :
    (entries.map line).mapM (splitLast? mark) = some entries := by
  induction entries with
  | nil => rfl
  | cons entry entries ih =>
    obtain ⟨here, rest⟩ := List.forall_mem_cons.1 plain
    rw [List.map_cons, List.mapM_cons, splitLast?_line here, ih rest]
    rfl

/-- A table is read back from its text, in order, if its keys and its files are lines and no file
holds a blank. -/
theorem read?_render (filled : table ≠ []) (single : (Table.keys table).Nodup)
    (lines : ∀ entry ∈ table, IsLine entry.1 ∧ IsLine entry.2)
    (plain : ∀ entry ∈ table, unit ' ' ∉ entry.2) : read? (render table) = some (sorted table) := by
  have perm := sorted_perm single
  have each : ∀ t ∈ (sorted table).map line, IsLine t := by
    intro t listed
    obtain ⟨entry, held, rfl⟩ := List.mem_map.1 listed
    obtain ⟨key, file⟩ := lines entry (perm.mem_iff.1 held)
    exact (key.append (by decide)).append file
  have split : splitAt lineFeed (render table) = (sorted table).map line ++ [[]] := by
    rw [render_eq]
    cases inside : sorted table with
    | nil =>
      rw [inside] at perm
      exact absurd perm.symm.eq_nil filled
    | cons entry entries =>
      rw [inside] at each
      exact splitAt_lines_eq_iff.2 each
  rw [read?, split, List.dropLast_concat]
  exact mapM_splitLast? fun entry held => plain entry (perm.mem_iff.1 held)

/-- A table to which languages were added has just the keys that they claim, each once, with the
file of the last language that claims it. If its keys and files are lines, and the files are named
as definition files are, its text gives it back: the keys in strict order, each with its file. -/
theorem addAll_written (entries : List (Language × Text)) :
    (∀ key, key ∈ Table.keys (addAll [] entries) ↔ ∃ entry ∈ entries, Claims entry.1 key) ∧
    (∀ key file, Table.get? (addAll [] entries) key = some file ↔
      ∃ front language back, entries = front ++ (language, file) :: back ∧ Claims language key ∧
        ∀ later ∈ back, ¬Claims later.1 key) ∧
    (addAll [] entries ≠ [] →
      (∀ entry ∈ addAll [] entries, IsLine entry.1 ∧ IsLine entry.2) →
      (∀ entry ∈ addAll [] entries, ∃ name, entry.2 = Definition.fileName name) →
      ∃ table, read? (render (addAll [] entries)) = some table ∧
        (Table.keys table).Pairwise (· < ·) ∧ table.Perm (addAll [] entries) ∧
        ∀ key, Table.get? table key = Table.get? (addAll [] entries) key) := by
  have none : (Table.keys ([] : LookupTable)).Nodup := List.nodup_nil
  have single := nodup_keys_addAll none entries
  refine ⟨fun _ => mem_keys_addAll, fun _ _ => get?_addAll_eq_some_iff, fun filled lines named => ?_⟩
  have plain : ∀ entry ∈ addAll [] entries, unit ' ' ∉ entry.2 := by
    intro entry held
    obtain ⟨name, same⟩ := named entry held
    rw [same]
    exact Definition.blank_not_mem_fileName name
  refine ⟨sorted (addAll [] entries), read?_render filled single lines plain, ?_, ?_, ?_⟩
  · rw [keys_sorted]
    exact pairwise_sort single
  · exact sorted_perm single
  · exact Table.get?_perm (sorted_perm single) single

/-- Two languages with their files. The later one claims a key of the other in lower case only, and
a key holds the mark. -/
def settings : List (Language × Text) :=
  let ini : Language := ⟨"INI", ["a = b"], ["*.ini", "*.CFG"], [], [("root", [])], none⟩
  let files : Language := ⟨"ini files", ["cfg"], [], ["x = "], [("root", [])], none⟩
  [(ini, Definition.fileName ini.name), (files, Definition.fileName files.name)]

theorem addAll_written_settings :
    ∃ table, read? (render (addAll [] settings)) = some table ∧
      (Table.keys table).Pairwise (· < ·) ∧ table.Perm (addAll [] settings) ∧
      Table.get? table "CFG" = some (ofString "ini.lang") ∧
      Table.get? table "cfg" = some (ofString "ini-files.lang") ∧
      Table.get? table "a = b" = some (ofString "ini.lang") ∧
      Table.get? table "x = " = some (ofString "ini-files.lang") := by
  have filled : addAll [] settings ≠ [] := by decide +kernel
  have lines : ∀ entry ∈ addAll [] settings, IsLine entry.1 ∧ IsLine entry.2 := by decide +kernel
  have files : ∀ entry ∈ addAll [] settings, entry.2 = Definition.fileName "INI" ∨
      entry.2 = Definition.fileName "ini files" := by
    decide +kernel
  have named : ∀ entry ∈ addAll [] settings, ∃ name, entry.2 = Definition.fileName name :=
    fun entry held => (files entry held).elim (fun same => ⟨_, same⟩) fun same => ⟨_, same⟩
  obtain ⟨table, reads, ordered, perm, same⟩ := (addAll_written settings).2.2 filled lines named
  refine ⟨table, reads, ordered, perm, ?_⟩
  simp only [same]
  decide +kernel

end LookupTable

end Highlight
