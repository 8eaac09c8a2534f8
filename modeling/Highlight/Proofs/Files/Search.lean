import Highlight.Proofs.Files.Paths
import Highlight.Proofs.Files.Replay
import Highlight.Proofs.Text.Units

/-!
# Searching a tree that has grown

Under changes that write no documents, a tree grows (`FileTree.Grows`): the directories stay, and
the documents are the same ones with the same texts. A search for documents below a directory that
was there finds the same paths as before (`FileTree.Grows.discover`), and a path that led to a
document leads to it still (`FileTree.Grows.read`).
-/

namespace Highlight

namespace FileTree

variable {tree tree' tree'' : FileTree} {path text : Text} {key above : List Text} {ps : List Text}

/-! ## Where paths lead -/

theorem follow_top (tree : FileTree) : tree.follow [] = .ok .directory := rfl

theorem locate_name {p : Text} (sound : Path.IsName p) :
    tree.locate above (p :: ps) = tree.locate (above ++ [p.wellFormed]) ps := by
  rw [locate, if_neg (not_or.2 sound)]

theorem locate_names (names : ∀ p ∈ ps, Path.IsName p) :
    tree.locate above ps = .ok (above ++ ps.map Text.wellFormed) := by
  induction ps generalizing above with
  | nil => rw [locate, List.map_nil, List.append_nil]
  | cons p ps ih =>
    obtain ⟨here, rest⟩ := List.forall_mem_cons.1 names
    rw [locate_name here, ih rest, List.append_assoc]
    rfl

theorem locate_ups (tree : FileTree) (count : Nat) (ps : List Text) :
    tree.locate [] (List.replicate count (Text.ofString "..") ++ ps) = tree.locate [] ps := by
  induction count with
  | zero => rfl
  | succ count ih =>
    rw [List.replicate_succ, List.cons_append, locate, if_pos (.inr rfl), follow_top]
    dsimp only
    rwa [if_neg (by decide)]

/-- Where a path leads, it leads to its key. -/
theorem locate_eq_ok {taken : List Text} (sound : ∀ p ∈ taken, Path.IsName p)
    (leads : tree.locate (taken.reverse.map Text.wellFormed) ps = .ok key) :
    key = (Path.normalParts true taken ps).map Text.wellFormed := by
  induction ps generalizing taken with
  | nil =>
    cases leads
    rw [Path.normalParts_nil]
  | cons p ps ih =>
    by_cases nowhere : p = Text.ofString "."
    · rw [nowhere, locate, if_pos (.inl rfl)] at leads
      rw [nowhere, Path.normalParts_dot]
      split at leads
      · cases leads
      · cases leads
      · rw [if_pos rfl] at leads
        exact ih sound leads
    by_cases up : p = Text.ofString ".."
    · rw [up, locate, if_pos (.inr rfl)] at leads
      rw [up]
      split at leads
      · cases leads
      · cases leads
      · rw [if_neg (by decide), ← List.map_dropLast] at leads
        cases taken with
        | nil =>
          rw [Path.normalParts_up_top, if_pos rfl]
          exact ih sound leads
        | cons last taken =>
          obtain ⟨plain, rest⟩ := List.forall_mem_cons.1 sound
          rw [List.reverse_cons, List.dropLast_concat] at leads
          rw [Path.normalParts_up_name plain]
          exact ih rest leads
    · rw [locate_name ⟨nowhere, up⟩] at leads
      rw [Path.normalParts_name ⟨nowhere, up⟩]
      refine ih (List.forall_mem_cons.2 ⟨⟨nowhere, up⟩, sound⟩) ?_
      rwa [List.reverse_cons, List.map_append]

/-- A path leads the same way as long as the directories stay. -/
theorem Keeps.locate (keeps : tree.Keeps tree') (leads : tree.locate above ps = .ok key) :
    tree'.locate above ps = .ok key := by
  fun_induction FileTree.locate tree above ps with
  | case1 above =>
    cases leads
    rfl
  | case2 above part rest dots fault missing => cases leads
  | case3 above part rest dots text file => cases leads
  | case4 above part rest dots directory ih =>
    have stands := follow_eq_ok_iff.2 (keeps.directory (follow_eq_ok_iff.1 directory))
    rw [FileTree.locate, if_pos dots, stands]
    exact ih leads
  | case5 above part rest plain ih =>
    rw [FileTree.locate, if_neg plain]
    exact ih leads

theorem find_eq_ok_iff {item : FileItem} : tree.find path = .ok item ↔ pathFault? path = none ∧
    tree.locate [] (Path.parts path) = .ok (keyOf path) ∧ tree.get? (keyOf path) = some item := by
  unfold find
  cases pathFault? path with
  | some fault => exact ⟨nofun, fun all => nomatch all.1⟩
  | none =>
    constructor
    · intro found
      obtain ⟨key, leads, stands⟩ := except_bind_eq_ok_iff.1 found
      obtain rfl := locate_eq_ok (List.forall_mem_nil _) leads
      exact ⟨rfl, leads, follow_eq_ok_iff.1 stands⟩
    · rintro ⟨-, leads, stands⟩
      exact except_bind_eq_ok_iff.2 ⟨_, leads, follow_eq_ok_iff.2 stands⟩

/-- A path leads somewhere whatever the tree: behind some steps up it has names only. -/
def Direct (path : Text) : Prop :=
  ∀ tree : FileTree, tree.locate [] (Path.parts path) = .ok (keyOf path)

theorem Direct.find (direct : Direct path) (sound : pathFault? path = none) (tree : FileTree) :
    tree.find path = tree.follow (keyOf path) := by
  unfold FileTree.find
  rw [sound, direct tree]
  rfl

/-- A normalised path leads somewhere. -/
theorem direct_of_parts {absolute : Bool} {qs : List Text}
    (normal : Path.parts path = Path.normalParts absolute [] qs) : Direct path := by
  intro tree
  obtain ⟨ups, kept⟩ := Path.exists_normalParts absolute (List.forall_mem_nil Path.IsName) 0 qs
  have names : ∀ p ∈ Path.normalParts true [] qs, Path.IsName p :=
    Path.isName_of_mem_normalParts (List.forall_mem_nil _)
  rw [List.nil_append, List.replicate_zero] at kept
  rw [keyOf, Path.steps, normal, Path.normalParts_normalParts, kept, locate_ups, locate_names names]
  rfl

/-! ## Documents -/

/-- The file is named as a document. -/
def isDocument (key : List Text) : Bool :=
  key.getLast?.any fun name => (Text.ofString ".json").isSuffixOf name

/-- What is written under a plain ending is no document unless the ending says so. -/
theorem isDocument_join (front ending : Text) {u : CodeUnit} (plain : Path.slash ∉ ending ++ [u])
    (below : u < 0xD800) (dot : u ≠ unit '.') (other : u ≠ unit 'n') (directory : Text) :
    isDocument (keyOf (Path.join directory (front ++ (ending ++ [u])))) = false := by
  obtain ⟨before, start, parts⟩ := Path.exists_parts_append plain
    (List.append_ne_nil_of_right_ne_nil _ (List.cons_ne_nil _ _)) front
  have last : (start ++ (ending ++ [u])).getLast? = some u := by
    rw [← List.append_assoc, List.getLast?_concat]
  have named (text : Text) (ends : text.getLast? = some (unit '.')) :
      start ++ (ending ++ [u]) ≠ text := by
    rintro rfl
    exact dot (Option.some.inj (last.symm.trans ends))
  obtain ⟨above, leads⟩ :=
    exists_keyOf_join (named _ (by decide)) (named _ (by decide)) parts directory
  rw [leads, isDocument, List.getLast?_concat, Option.any_some, ← List.append_assoc,
    Text.wellFormed_append_plain below, Bool.eq_false_iff]
  intro ends
  obtain ⟨rest, same⟩ := List.isSuffixOf_iff_suffix.1 ends
  have same := congrArg List.getLast? same
  rw [List.getLast?_concat, List.getLast?_append] at same
  exact other (Option.some.inj same).symm

/-- The documents of a tree, in its order. -/
def documents (tree : FileTree) : List (List Text × Text) :=
  tree.files.filter fun file => isDocument file.1

/-- The change writes no document. -/
def Change.Spares : Change → Prop
  | .directory _ => True
  | .file path _ => isDocument (keyOf path) = false

/-- The directories stay, and the documents are the same. -/
structure Grows (tree tree' : FileTree) : Prop where
  keeps : tree.Keeps tree'
  documents : tree'.documents = tree.documents
  text : ∀ key text, isDocument key = true →
    (tree'.get? key = some (.file text) ↔ tree.get? key = some (.file text))

theorem Grows.refl (tree : FileTree) : tree.Grows tree := ⟨.refl tree, rfl, fun _ _ _ => .rfl⟩

theorem Grows.trans (first : tree.Grows tree') (second : tree'.Grows tree'') :
    tree.Grows tree'' where
  keeps := first.keeps.trans second.keeps
  documents := second.documents.trans first.documents
  text key text named := (second.text key text named).trans (first.text key text named)

theorem files_makeDirectory (made : tree.makeDirectory path = .ok tree') :
    tree'.files = tree.files := by
  obtain ⟨rfl, -⟩ | steps := (makeDirectory_eq_ok made).2
  · rfl
  · clear made
    generalize ([] : List Text) = above, keyOf path = rest at steps
    fun_induction makeFrom tree above rest with
    | case1 above =>
      cases steps
      rfl
    | case2 above part rest free long => cases steps
    | case3 above part rest free short =>
      cases steps
      unfold files
      rw [List.filterMap_append, List.filterMap_map, List.append_right_eq_self,
        List.filterMap_eq_nil_iff]
      exact fun key listed => rfl
    | case4 above part rest directory ih => exact ih steps
    | case5 above part rest text file => cases steps

/-- Setting a key that a search does not look at. -/
theorem filterMap_set {κ α β : Type} [DecidableEq κ] (table : Table κ α) (key : κ) (value : α)
    (look : κ × α → Option β) (blind : ∀ value, look (key, value) = none) :
    (Table.set table key value).filterMap look = table.filterMap look := by
  induction table with
  | nil => rw [Table.set, List.filterMap_cons_none (blind value)]
  | cons entry table ih =>
    obtain ⟨first, held⟩ := entry
    rw [Table.set]
    split
    · next here =>
      subst here
      rw [List.filterMap_cons_none (blind value), List.filterMap_cons_none (blind held)]
    · rw [List.filterMap_cons, List.filterMap_cons, ih]

theorem documents_write (written : tree.write path text = .ok tree')
    (spares : isDocument (keyOf path) = false) : tree'.documents = tree.documents := by
  obtain ⟨-, rfl⟩ := write_eq_ok_iff.1 written
  unfold documents files
  rw [← List.filterMap_eq_filter, List.filterMap_filterMap, List.filterMap_filterMap]
  refine filterMap_set tree.items _ _ _ fun value => ?_
  cases value with
  | directory => rfl
  | file text =>
    simp [Option.guard, spares]

/-- A change that writes no document makes a tree grow. -/
theorem Grows.of_apply {change : Change} (spares : change.Spares)
    (done : change.apply tree = .ok tree') : tree.Grows tree' := by
  have keeps := Keeps.of_apply done
  cases change with
  | directory path =>
    have same : tree'.documents = tree.documents := by
      rw [FileTree.documents, files_makeDirectory done]
      rfl
    exact ⟨keeps, same, fun key text _ => (adds_of_makeDirectory done).file_iff⟩
  | file path text =>
    refine ⟨keeps, documents_write done spares, fun key held named => ?_⟩
    rw [get?_write done, if_neg]
    rintro rfl
    exact absurd named (Bool.eq_false_iff.1 spares)

theorem Grows.of_applyAll {changes : List Change} (spares : ∀ change ∈ changes, change.Spares)
    (done : tree.applyAll changes = .ok tree') : tree.Grows tree' := by
  induction changes generalizing tree with
  | nil =>
    cases done
    exact .refl _
  | cons change changes ih =>
    obtain ⟨here, rest⟩ := List.forall_mem_cons.1 spares
    obtain ⟨between, first, later⟩ := except_bind_eq_ok_iff.1 done
    exact (Grows.of_apply here first).trans (ih rest later)

/-- A path that led to a document still does. -/
theorem Grows.read (grows : tree.Grows tree') (named : isDocument (keyOf path) = true)
    (held : pathFault? path = none → ∃ text, tree.find path = .ok (.file text)) :
    tree'.read path = tree.read path := by
  have same : tree'.find path = tree.find path := by
    cases fault : pathFault? path with
    | some fault' => rw [find, find, fault]
    | none =>
      obtain ⟨text, found⟩ := held fault
      obtain ⟨-, leads, stands⟩ := find_eq_ok_iff.1 found
      exact (find_eq_ok_iff.2 ⟨fault, grows.keeps.locate leads,
        (grows.text _ _ named).2 stands⟩).trans found.symm
  unfold FileTree.read
  rw [same]

theorem Grows.find_directory (grows : tree.Grows tree') (there : tree.find path = .ok .directory) :
    tree'.find path = .ok .directory := by
  obtain ⟨sound, leads, stands⟩ := find_eq_ok_iff.1 there
  exact find_eq_ok_iff.2 ⟨sound, grows.keeps.locate leads, grows.keeps.directory stands⟩

/-- A path to a document leads to the same as before, unless something new stands at its end. -/
theorem Grows.find_document (grows : tree.Grows tree') (direct : Direct path)
    (named : isDocument (keyOf path) = true)
    (vacant : tree.get? (keyOf path) = none → tree'.get? (keyOf path) = none) :
    tree'.find path = tree.find path ∨ tree'.has path = false ∧ tree.has path = false := by
  cases sound : pathFault? path with
  | some fault =>
    unfold find
    rw [sound]
    exact .inl rfl
  | none =>
    unfold has
    rw [direct.find sound, direct.find sound]
    rcases held : tree.get? (keyOf path) with _ | _ | text
    · unfold follow
      rw [held, vacant held]
      exact .inr ⟨rfl, rfl⟩
    · rw [follow_eq_ok_iff.2 held, follow_eq_ok_iff.2 (grows.keeps.directory held)]
      exact .inl rfl
    · rw [follow_eq_ok_iff.2 held, follow_eq_ok_iff.2 ((grows.text _ _ named).2 held)]
      exact .inl rfl

/-! ## Searches -/

/-- The name of a file that is looked for has the ending. -/
theorem exists_of_selects {pattern : FilePattern} {below : List Text}
    (selected : pattern.selects below = true) :
    ∃ front name, below = front ++ [name] ∧ pattern.ending <:+ name := by
  have chosen : (FilePattern.judgedParts below).getLast?.any pattern.selectsName = true := by
    unfold FilePattern.selects at selected
    exact (Bool.and_eq_true_iff.1 selected).2
  have suffix {name : Text} (selects : pattern.selectsName name = true) : pattern.ending <:+ name := by
    unfold FilePattern.selectsName at selects
    exact List.isSuffixOf_iff_suffix.1 (Bool.and_eq_true_iff.1 selects).2
  cases below with
  | nil => cases chosen
  | cons part rest =>
    obtain rfl | ⟨front, last, rfl⟩ := List.eq_nil_or_concat rest
    · refine ⟨[], part, rfl, ?_⟩
      rw [FilePattern.judgedParts] at chosen
      split at chosen
      · exact (suffix chosen).trans (List.drop_suffix _ _)
      · exact suffix chosen
    · rw [List.concat_eq_append] at chosen ⊢
      refine ⟨part :: front, last, rfl, suffix ?_⟩
      rwa [FilePattern.judgedParts, ← List.cons_append, List.getLast?_concat, Option.any_some] at chosen

theorem isDocument_append {base front : List Text} {name : Text}
    (ends : Text.ofString ".json" <:+ name) : isDocument (base ++ (front ++ [name])) = true := by
  rw [isDocument, ← List.append_assoc, List.getLast?_concat]
  exact List.isSuffixOf_iff_suffix.2 ends

/-- Leaving out what is not chosen later on. -/
theorem filter_filterMap_filter {α β : Type} {look : α → Option β} {chosen : β → Bool}
    {kept : α → Bool} (list : List α)
    (needed : ∀ a b, look a = some b → chosen b = true → kept a = true) :
    ((list.filter kept).filterMap look).filter chosen = (list.filterMap look).filter chosen := by
  induction list with
  | nil => rfl
  | cons a list ih =>
    rw [List.filterMap_cons]
    cases seen : look a with
    | none =>
      rw [List.filter_cons]
      split
      · rw [List.filterMap_cons_none seen, ih]
      · exact ih
    | some b =>
      dsimp only
      rw [List.filter_cons, List.filter_cons]
      split
      · rw [List.filterMap_cons_some seen, List.filter_cons, ih]
      · next left =>
        rw [if_neg fun chosen => left (needed a b seen chosen), ih]

/-- A search looks at documents only. -/
theorem Grows.select (grows : tree.Grows tree') {pattern : FilePattern}
    (named : Text.ofString ".json" <:+ pattern.ending) (base : List Text) :
    pattern.select (tree'.filesBelow base) = pattern.select (tree.filesBelow base) := by
  have looks (tree : FileTree) : (tree.filesBelow base).filter pattern.selects =
      (tree.documents.filterMap fun file =>
        if base.isPrefixOf file.1 then some (file.1.drop base.length) else none).filter
          pattern.selects := by
    refine (filter_filterMap_filter tree.files fun ⟨key, text⟩ below seen selected => ?_).symm
    dsimp only at seen
    split at seen
    · next start =>
      obtain rfl := Option.some.inj seen
      obtain ⟨front, name, parts, ends⟩ := exists_of_selects selected
      rw [← List.prefix_iff_eq_append.1 (List.isPrefixOf_iff_prefix.1 start), parts]
      exact isDocument_append (named.trans ends)
    · cases seen
  unfold FilePattern.select
  rw [looks tree', looks tree, grows.documents]

/-- A search in a directory that was there finds the same paths as before. -/
theorem Grows.discover (grows : tree.Grows tree') {directory : Text} {pattern : FilePattern}
    (named : Text.ofString ".json" <:+ pattern.ending)
    (there : tree.find (slashed directory) = .ok .directory) :
    tree'.discover directory pattern = tree.discover directory pattern := by
  unfold FileTree.discover
  dsimp only
  rw [there, grows.find_directory there]
  dsimp only
  rw [grows.select named]

theorem discover_eq_ok_iff {directory : Text} {pattern : FilePattern} {found : List Text} :
    tree.discover directory pattern = .ok found ↔
      tree.find (slashed directory) = .error .notFound ∧ found = [] ∨
      tree.find (slashed directory) = .ok .directory ∧
        found = Text.sort ((pattern.select (tree.filesBelow (keyOf (slashed directory)))).map
          fun below => slashed (Path.join directory (Path.ofParts below))) := by
  unfold discover
  dsimp only
  rcases tree.find (slashed directory) with fault | _ | text
  · cases fault <;> simp [eq_comm]
  · simp [eq_comm]
  · simp

theorem exists_discover {directory : Text} (pattern : FilePattern)
    (there : tree.find (slashed directory) = .ok .directory) :
    ∃ found, tree.discover directory pattern = .ok found :=
  ⟨_, discover_eq_ok_iff.2 (.inr ⟨there, rfl⟩)⟩

/-! ## Directories that were missing -/

theorem mem_items_of_mem_files {key : List Text} {text : Text} (kept : (key, text) ∈ tree.files) :
    (key, .file text) ∈ tree.items := by
  obtain ⟨⟨other, item⟩, held, seen⟩ := List.mem_filterMap.1 kept
  cases item with
  | directory => cases seen
  | file other =>
    cases seen
    exact held

theorem mem_filesBelow {base below : List Text} :
    below ∈ tree.filesBelow base ↔ ∃ text, (base ++ below, text) ∈ tree.files := by
  refine List.mem_filterMap.trans ⟨?_, ?_⟩
  · rintro ⟨⟨key, text⟩, kept, seen⟩
    dsimp only at seen
    split at seen
    · next start =>
      obtain rfl := Option.some.inj seen
      refine ⟨text, ?_⟩
      rwa [List.prefix_iff_eq_append.1 (List.isPrefixOf_iff_prefix.1 start)]
    · cases seen
  · rintro ⟨text, kept⟩
    refine ⟨_, kept, ?_⟩
    dsimp only
    rw [if_pos (List.isPrefixOf_iff_prefix.2 (List.prefix_append _ _)), List.drop_left]

theorem isSome_of_mem_files {text : Text} (listed : (key, text) ∈ tree.files) :
    (tree.get? key).isSome := by
  unfold get?
  split
  · rfl
  · exact Table.has_iff.2 (List.mem_map_of_mem (mem_items_of_mem_files listed))

theorem Connected.filesBelow (connected : tree.Connected) {base : List Text}
    (absent : tree.get? base = none) : tree.filesBelow base = [] := by
  refine List.eq_nil_iff_forall_not_mem.2 fun below among => ?_
  obtain ⟨text, listed⟩ := mem_filesBelow.1 among
  have there := isSome_of_mem_files listed
  rw [connected.absent_below absent] at there
  cases there

/-- Where nothing stood, nothing is found once the directory is made. -/
theorem Connected.discover_made (connected : tree.Connected) {directory : Text}
    {pattern : FilePattern} {found : List Text} (plain : slashed directory = directory)
    (direct : Direct directory) (missing : tree.find directory = .error .notFound)
    (same : tree'.files = tree.files) (gives : tree'.discover directory pattern = .ok found) :
    found = [] := by
  obtain ⟨-, none⟩ | ⟨there, rfl⟩ := discover_eq_ok_iff.1 gives
  · exact none
  · rw [plain] at there ⊢
    obtain ⟨sound, -⟩ := find_eq_ok_iff.1 there
    rw [direct.find sound] at missing
    have absent : tree.get? (keyOf directory) = none := by
      cases held : tree.get? (keyOf directory) with
      | none => rfl
      | some item =>
        rw [follow_eq_ok_iff.2 held] at missing
        cases missing
    have none : tree'.filesBelow (keyOf directory) = [] := by
      rw [FileTree.filesBelow, same]
      exact connected.filesBelow absent
    rw [none]
    exact List.mergeSort_nil

/-! ## Backslashes -/

theorem mem_of_mem_keyOf {u : CodeUnit} (ascii : u < 0xD800) {part : Text}
    (listed : part ∈ keyOf path) (inside : u ∈ part) : u ∈ path := by
  obtain ⟨q, step, rfl⟩ := List.mem_map.1 listed
  obtain none | held := Path.mem_normalParts step
  · cases none
  · exact Text.mem_of_mem_splitAt (List.mem_filter.1 held).1 ((Text.mem_wellFormed_iff ascii).1 inside)

theorem parts_resolve (directory path : Text) :
    ∃ ps, Path.parts (Path.resolve directory path) = Path.normalParts true [] ps ∧
      Path.resolve directory path = Path.slash :: Path.ofParts (Path.normalParts true [] ps) := by
  refine ⟨_, ?_, rfl⟩
  rw [Path.resolve, Path.parts_cons_slash]
  refine Path.parts_ofParts fun q listed => ?_
  obtain none | held := Path.mem_normalParts listed
  · cases none
  · exact Path.mem_parts held

theorem direct_resolve (directory path : Text) : Direct (Path.resolve directory path) := by
  obtain ⟨ps, parts, -⟩ := parts_resolve directory path
  exact direct_of_parts parts

theorem slashed_eq_self (plain : unit '\\' ∉ path) : slashed path = path := by
  unfold slashed
  refine (List.map_congr_left fun u inside => if_neg ?_).trans (List.map_id _)
  rintro rfl
  exact plain inside

theorem not_mem_slashed (path : Text) : unit '\\' ∉ slashed path := by
  intro inside
  obtain ⟨u, -, same⟩ := List.mem_map.1 inside
  split at same
  · exact absurd same (by decide)
  · next other => exact other same

/-- A path with slashes only does not lead into a directory whose path holds a backslash. -/
theorem keyOf_slashed_ne {directory file : Text} (backslash : unit '\\' ∈ Path.resolve directory path)
    (below : List Text) :
    keyOf (slashed file) ≠ keyOf (Path.resolve directory path) ++ below := by
  intro same
  obtain ⟨ps, parts, written⟩ := parts_resolve directory path
  rw [written, List.mem_cons] at backslash
  obtain slash | inside := backslash
  · exact absurd slash (by decide)
  obtain slash | ⟨q, listed, held⟩ := Path.mem_ofParts inside
  · exact absurd slash (by decide)
  have kept : unit '\\' ∈ q.wellFormed := (Text.mem_wellFormed_iff (by decide)).2 held
  refine not_mem_slashed file (mem_of_mem_keyOf (by decide) ?_ kept)
  rw [same, keyOf, Path.steps, parts, Path.normalParts_normalParts]
  exact List.mem_append_left _ (List.mem_map_of_mem listed)

end FileTree

end Highlight
