import Highlight.Proofs.Files.Search

/-!
# Searches that find files

A search writes slashes for backslashes, so what it finds need not be a file of its directory, and
it fails where a missing directory has a name that no directory can have. What a search is relied on
to do is `FileTree.Searched`. It does so in every directory of a tree whose names are plain
(`FileTree.Searched.of_plain`).
-/

namespace Highlight

namespace FileTree

variable {tree : FileTree} {directory : Text} {pattern : FilePattern}

/-- A search finds nothing in a directory that is missing, and otherwise only files of the directory,
whose names have the ending that is looked for. -/
structure Searched (tree : FileTree) (directory : Text) (pattern : FilePattern) : Prop where
  missing : tree.find (slashed directory) ≠ .ok .directory → tree.discover directory pattern = .ok []
  named : ∀ found, tree.discover directory pattern = .ok found → ∀ path ∈ found,
    ∃ below name, keyOf path = keyOf directory ++ (below ++ [name]) ∧ pattern.ending <:+ name
  held : ∀ found, tree.discover directory pattern = .ok found → ∀ path ∈ found,
    pathFault? path = none → ∃ text, tree.find path = .ok (.file text)

/-- A name that is kept as it is written, and looked for as it is kept. -/
def IsPlain (name : Text) : Prop :=
  Path.IsFileName name ∧ unit '\\' ∉ name ∧ name.wellFormed = name

instance (name : Text) : Decidable (IsPlain name) :=
  inferInstanceAs (Decidable (Path.IsFileName name ∧ unit '\\' ∉ name ∧ name.wellFormed = name))

/-- The tree keeps one item at each key, and all its names are plain. -/
structure Plain (tree : FileTree) : Prop where
  single : (Table.keys tree.items).Nodup
  names : ∀ key ∈ Table.keys tree.items, ∀ name ∈ key, IsPlain name

theorem Plain.get?_of_mem_files (plain : tree.Plain) {key : List Text} {text : Text}
    (filled : key ≠ []) (kept : (key, text) ∈ tree.files) : tree.get? key = some (.file text) := by
  rw [get?, List.isEmpty_eq_false_iff.2 filled, if_neg Bool.false_ne_true]
  exact Table.get?_of_mem plain.single (mem_items_of_mem_files kept)

theorem map_wellFormed {key : List Text} (plain : ∀ name ∈ key, IsPlain name) :
    key.map Text.wellFormed = key :=
  (List.map_congr_left fun name listed => (plain name listed).2.2).trans (List.map_id _)

theorem slashed_join {below : List Text} (forward : unit '\\' ∉ directory)
    (plain : ∀ name ∈ below, IsPlain name) :
    slashed (Path.join directory (Path.ofParts below)) =
      Path.join directory (Path.ofParts below) := by
  refine slashed_eq_self fun inside => ?_
  obtain slash | dot | held | held := Path.mem_join inside
  · exact absurd slash (by decide)
  · exact absurd dot (by decide)
  · exact forward held
  · obtain slash | ⟨part, listed, held⟩ := Path.mem_ofParts held
    · exact absurd slash (by decide)
    · exact (plain part listed).2.1 held

/-- In a plain tree, a path that is found leads from the directory to a file that is looked for. -/
theorem Plain.found (plain : tree.Plain) (forward : unit '\\' ∉ directory) {found : List Text}
    (gives : tree.discover directory pattern = .ok found) :
    ∀ path ∈ found, ∃ front name text, keyOf path = keyOf directory ++ (front ++ [name]) ∧
      pattern.ending <:+ name ∧ Direct path ∧ tree.get? (keyOf path) = some (.file text) := by
  intro path listed
  obtain ⟨-, rfl⟩ | ⟨-, rfl⟩ := discover_eq_ok_iff.1 gives
  · cases listed
  rw [slashed_eq_self forward, Text.sort, List.mem_mergeSort] at listed
  obtain ⟨below, chosen, rfl⟩ := List.mem_map.1 listed
  obtain ⟨among, selected⟩ := List.mem_filter.1 (List.mem_filter.1 chosen).1
  obtain ⟨text, kept⟩ := mem_filesBelow.1 among
  obtain ⟨front, name, rfl, ends⟩ := exists_of_selects selected
  have names : ∀ part ∈ front ++ [name], IsPlain part := fun part inside =>
    plain.names _ (List.mem_map_of_mem (mem_items_of_mem_files kept)) part
      (List.mem_append_right _ inside)
  have files : ∀ part ∈ front ++ [name], Path.IsFileName part := fun part inside =>
    (names part inside).1
  have filled : front ++ [name] ≠ [] := List.append_ne_nil_of_right_ne_nil _ (List.cons_ne_nil _ _)
  have leads := keyOf_join_parts files filled directory
  rw [map_wellFormed names] at leads
  obtain ⟨absolute, parts⟩ := Path.exists_parts_join files filled directory
  rw [slashed_join forward names]
  refine ⟨front, name, text, leads, ends, direct_of_parts parts, ?_⟩
  rw [leads]
  exact plain.get?_of_mem_files (List.append_ne_nil_of_right_ne_nil _ filled) kept

/-- In a plain tree, a search of a directory finds files of the directory. -/
theorem Searched.of_plain (plain : tree.Plain) (forward : unit '\\' ∉ directory)
    (there : tree.find directory = .ok .directory) : tree.Searched directory pattern where
  missing absent := by
    rw [slashed_eq_self forward] at absent
    exact absurd there absent
  named found gives path listed := by
    obtain ⟨front, name, text, leads, ends, -⟩ := plain.found forward gives path listed
    exact ⟨front, name, leads, ends⟩
  held found gives path listed sound := by
    obtain ⟨front, name, text, -, -, direct, stands⟩ := plain.found forward gives path listed
    exact ⟨text, (direct.find sound tree).trans (follow_eq_ok_iff.2 stands)⟩

end FileTree

end Highlight
