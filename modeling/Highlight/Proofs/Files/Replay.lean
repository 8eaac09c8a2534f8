import Highlight.Proofs.Files.Changes

/-!
# Changes that are made again

A row of changes that the files allowed is allowed on what it left, and leaves that as it is
(`FileTree.applyAll_again`). What stays of a tree under changes is its shape: a directory stays a
directory and a file a file (`FileTree.Keeps`), and whether a change is allowed is a matter of the
shape alone. So each change of the row finds again what it needs. The texts on the way are those of
earlier changes of the row, and the last change of each file is the one that stays.
-/

namespace Highlight

/-- What stands there is a directory. -/
def FileItem.isDirectory : FileItem → Bool
  | directory => true
  | file _ => false

namespace FileTree

variable {tree tree' tree'' : FileTree} {path text : Text} {key : List Text}

/-! ## Connected trees -/

/-- Every path in the tree runs through directories of the tree. -/
def Connected (tree : FileTree) : Prop :=
  ∀ key part, (tree.get? (key ++ [part])).isSome → tree.get? key = some .directory

/-- Nothing stands below a place where nothing stands. -/
theorem Connected.absent_below (connected : tree.Connected) {above : List Text}
    (absent : tree.get? above = none) (rest : List Text) : tree.get? (above ++ rest) = none := by
  induction rest generalizing above with
  | nil => rwa [List.append_nil]
  | cons part rest ih =>
    rw [List.append_cons]
    refine ih ?_
    cases held : tree.get? (above ++ [part]) with
    | none => rfl
    | some item =>
      have directory := connected above part (by rw [held]; rfl)
      rw [absent] at directory
      cases directory

/-- It is enough to look at what the tree keeps. -/
theorem Connected.of_items (above : ∀ entry ∈ tree.items,
    tree.get? entry.1.dropLast = some .directory) : tree.Connected := by
  intro key part held
  obtain ⟨item, stands⟩ := Option.isSome_iff_exists.1 held
  rw [get?, List.isEmpty_eq_false_iff.2 (List.append_ne_nil_of_right_ne_nil _ (List.cons_ne_nil _ _)),
    if_neg nofun] at stands
  have here := above _ (Table.mem_of_get? stands)
  rwa [List.dropLast_concat] at here

theorem mem_keysBelow {above rest key : List Text} :
    key ∈ keysBelow above rest ↔ ∃ front, front ≠ [] ∧ front <+: rest ∧ key = above ++ front := by
  induction rest generalizing above with
  | nil => simp [keysBelow]
  | cons part rest ih =>
    rw [keysBelow, List.mem_cons, ih]
    constructor
    · rintro (rfl | ⟨front, some, below, rfl⟩)
      · exact ⟨[part], nofun, ⟨rest, rfl⟩, rfl⟩
      · exact ⟨part :: front, nofun, List.cons_prefix_cons.2 ⟨rfl, below⟩, List.append_assoc _ _ _⟩
    · rintro ⟨front, some, below, rfl⟩
      cases front with
      | nil => exact absurd rfl some
      | cons first front =>
        obtain ⟨rfl, rest⟩ := List.cons_prefix_cons.1 below
        cases front with
        | nil => exact .inl rfl
        | cons second front =>
          exact .inr ⟨second :: front, nofun, rest, (List.append_assoc _ [first] _).symm⟩

theorem get?_append_directories (tree : FileTree) (keys : List (List Text)) (key : List Text) :
    (FileTree.mk (tree.items ++ keys.map fun key => (key, .directory))).get? key =
      (tree.get? key).or (if key ∈ keys then some .directory else none) := by
  unfold get?
  cases key with
  | nil => rfl
  | cons part key =>
    rw [List.isEmpty_cons, if_neg nofun, if_neg nofun, Table.get?_append]
    congr 1
    induction keys with
    | nil => rfl
    | cons first keys ih =>
      rw [List.map_cons, Table.get?, ih]
      by_cases here : first = part :: key
      · rw [if_pos here, if_pos (here ▸ List.mem_cons_self)]
      · rw [if_neg here]
        simp [Ne.symm here]

/-- The directories of a path are there when they have been made, and the tree stays connected. -/
theorem Connected.makeFrom (connected : tree.Connected) {above rest : List Text}
    (start : tree.get? above = some .directory) (made : tree.makeFrom above rest = .ok tree') :
    tree'.Connected ∧ tree'.get? (above ++ rest) = some .directory := by
  fun_induction FileTree.makeFrom tree above rest with
  | case1 above =>
    cases made
    exact ⟨connected, by rwa [List.append_nil]⟩
  | case2 above part rest free long => cases made
  | case3 above part rest free short =>
    cases made
    have new (front : List Text) (below : front <+: part :: rest) :
        (FileTree.mk (tree.items ++ (keysBelow above (part :: rest)).map fun key =>
          (key, .directory))).get? (above ++ front) = some .directory := by
      rw [get?_append_directories]
      cases front with
      | nil =>
        rw [List.append_nil, start]
        rfl
      | cons first front =>
        have among : above ++ first :: front ∈ keysBelow above (part :: rest) :=
          mem_keysBelow.2 ⟨first :: front, List.cons_ne_nil _ _, below, rfl⟩
        obtain ⟨rfl, -⟩ := List.cons_prefix_cons.1 below
        rw [if_pos among, List.append_cons, connected.absent_below free]
        rfl
    refine ⟨fun key last held => ?_, new _ List.prefix_rfl⟩
    rw [get?_append_directories] at held
    cases old : tree.get? (key ++ [last]) with
    | some item =>
      rw [get?_append_directories, connected key last (by rw [old]; rfl)]
      rfl
    | none =>
      rw [old, Option.none_or] at held
      split at held
      · next added =>
        obtain ⟨front, some, below, same⟩ := mem_keysBelow.1 added
        obtain ⟨first, _, rfl⟩ : ∃ first final, front = first ++ [final] :=
          ⟨_, _, (List.dropLast_append_getLast some).symm⟩
        rw [← List.append_assoc] at same
        obtain ⟨rfl, -⟩ := List.append_inj' same rfl
        exact new first ((List.prefix_append _ _).trans below)
      · cases held
  | case4 above part rest directory ih =>
    obtain ⟨kept, there⟩ := ih directory made
    exact ⟨kept, by rwa [List.append_cons]⟩
  | case5 above part rest text file => cases made

theorem makeDirectory_eq_ok (made : tree.makeDirectory path = .ok tree') :
    pathFault? path = none ∧
      (tree' = tree ∧ tree.get? (keyOf path) = some .directory ∨
        tree.makeFrom [] (keyOf path) = .ok tree') := by
  unfold makeDirectory at made
  dsimp only at made
  cases fault : pathFault? path with
  | some fault' =>
    rw [fault] at made
    cases made
  | none =>
    rw [fault] at made
    dsimp only at made
    split at made
    · next there =>
      cases made
      exact ⟨rfl, .inl ⟨rfl, there⟩⟩
    · cases steps : tree.makeFrom [] (keyOf path) with
      | error e =>
        rw [steps] at made
        cases made
      | ok other =>
        rw [steps] at made
        cases made
        exact ⟨rfl, .inr rfl⟩

theorem Connected.makeDirectory (connected : tree.Connected)
    (made : tree.makeDirectory path = .ok tree') :
    tree'.Connected ∧ tree'.get? (keyOf path) = some .directory := by
  obtain ⟨rfl, there⟩ | steps := (makeDirectory_eq_ok made).2
  · exact ⟨connected, there⟩
  · exact connected.makeFrom rfl steps

/-- A directory that is there need not be made. -/
theorem makeDirectory_there (sound : pathFault? path = none)
    (there : tree.get? (keyOf path) = some .directory) : tree.makeDirectory path = .ok tree := by
  unfold FileTree.makeDirectory
  rw [sound]
  dsimp only
  rw [if_pos there]
  rfl

/-! ## Writing -/

/-- The shape of the tree allows a file at the path. -/
structure Writable (tree : FileTree) (path : Text) : Prop where
  sound : pathFault? path = none
  above : tree.get? (keyOf path).dropLast = some .directory
  short : (keyOf path).any isTooLong = false
  free : tree.get? (keyOf path) ≠ some .directory

theorem follow_eq_ok_iff {item : FileItem} :
    tree.follow key = .ok item ↔ tree.get? key = some item := by
  unfold follow
  cases tree.get? key with
  | none => exact ⟨nofun, nofun⟩
  | some other =>
    constructor <;> intro same <;> cases same <;> rfl

theorem writeFault?_eq_none_iff : tree.writeFault? key = none ↔
    tree.get? key.dropLast = some .directory ∧ key.any isTooLong = false ∧
      tree.get? key ≠ some .directory := by
  have above : tree.follow key.dropLast = .ok .directory ↔
      tree.get? key.dropLast = some .directory := follow_eq_ok_iff
  unfold writeFault?
  cases followed : tree.follow key.dropLast with
  | error fault =>
    rw [followed] at above
    exact ⟨nofun, fun all => nomatch above.2 all.1⟩
  | ok item =>
    rw [followed] at above
    cases item with
    | file text => exact ⟨nofun, fun all => nomatch above.2 all.1⟩
    | directory =>
      dsimp only
      cases key.any isTooLong with
      | true => exact ⟨nofun, fun all => nomatch all.2.1⟩
      | false =>
        rw [if_neg nofun]
        by_cases there : tree.get? key = some .directory
        · rw [if_pos there]
          exact ⟨nofun, fun all => absurd there all.2.2⟩
        · rw [if_neg there]
          exact ⟨fun _ => ⟨above.1 rfl, rfl, there⟩, fun _ => rfl⟩

/-- A file can be written where the shape of the tree allows it. -/
theorem write_eq_ok_iff : tree.write path text = .ok tree' ↔
    tree.Writable path ∧ tree' = ⟨Table.set tree.items (keyOf path) (.file text.wellFormed)⟩ := by
  have free : (pathFault? path <|> tree.writeFault? (keyOf path)) = none ↔ tree.Writable path := by
    cases fault : pathFault? path with
    | some fault' => exact ⟨nofun, fun all => nomatch fault.symm.trans all.sound⟩
    | none =>
      refine writeFault?_eq_none_iff.trans ⟨fun all => ⟨fault, all.1, all.2.1, all.2.2⟩,
        fun all => ⟨all.above, all.short, all.free⟩⟩
  unfold write
  dsimp only
  rw [← free]
  cases pathFault? path <|> tree.writeFault? (keyOf path) with
  | some fault => exact ⟨nofun, nofun⟩
  | none =>
    constructor
    · intro same
      cases same
      exact ⟨rfl, rfl⟩
    · rintro ⟨-, rfl⟩
      rfl

theorem Connected.write (connected : tree.Connected) (written : tree.write path text = .ok tree') :
    tree'.Connected := by
  intro key part held
  obtain ⟨writable, -⟩ := write_eq_ok_iff.1 written
  rw [get?_write written] at held ⊢
  by_cases here : keyOf path = key ++ [part]
  · have above := writable.above
    rw [here, List.dropLast_concat] at above
    have other : keyOf path ≠ key := by
      intro same
      exact absurd (congrArg List.length (here.symm.trans same)) (by simp)
    rwa [if_neg other]
  · rw [if_neg here] at held
    have above := connected key part held
    have other : keyOf path ≠ key := fun same => writable.free (same.symm ▸ above)
    rwa [if_neg other]

theorem Connected.apply {change : Change} (connected : tree.Connected)
    (done : change.apply tree = .ok tree') : tree'.Connected := by
  cases change with
  | directory path => exact (connected.makeDirectory done).1
  | file path text => exact connected.write done

theorem Connected.applyAll {changes : List Change} (connected : tree.Connected)
    (done : tree.applyAll changes = .ok tree') : tree'.Connected := by
  induction changes generalizing tree with
  | nil =>
    cases done
    exact connected
  | cons change changes ih =>
    obtain ⟨between, first, rest⟩ := except_bind_eq_ok_iff.1 done
    exact ih (connected.apply first) rest

/-! ## Shapes -/

/-- Whether a directory or a file stands there, whatever the file holds. -/
def kind? (tree : FileTree) (key : List Text) : Option Bool :=
  (tree.get? key).map FileItem.isDirectory

theorem kind?_eq_true_iff : tree.kind? key = some true ↔ tree.get? key = some .directory := by
  unfold kind?
  rcases tree.get? key with _ | _ | text <;> simp [FileItem.isDirectory]

/-- What stands in one tree stands in the other one, as a directory or as a file. -/
def Keeps (tree tree' : FileTree) : Prop :=
  ∀ key kind, tree.kind? key = some kind → tree'.kind? key = some kind

theorem Keeps.refl (tree : FileTree) : tree.Keeps tree := fun _ _ => id

theorem Keeps.trans (first : tree.Keeps tree') (second : tree'.Keeps tree'') :
    tree.Keeps tree'' := fun key kind stands => second key kind (first key kind stands)

theorem Keeps.directory (keeps : tree.Keeps tree') (stands : tree.get? key = some .directory) :
    tree'.get? key = some .directory :=
  kind?_eq_true_iff.1 (keeps key true (kind?_eq_true_iff.2 stands))

theorem kind?_write (written : tree.write path text = .ok tree') (key : List Text) :
    tree'.kind? key = if keyOf path = key then some false else tree.kind? key := by
  unfold kind?
  rw [get?_write written]
  split <;> rfl

/-- A change leaves the shape of what stands. -/
theorem Keeps.of_apply {change : Change} (done : change.apply tree = .ok tree') :
    tree.Keeps tree' := by
  intro key kind stands
  cases change with
  | directory path =>
    obtain same | ⟨absent, -⟩ := adds_of_makeDirectory done key
    · rwa [kind?, same]
    · rw [kind?, absent] at stands
      cases stands
  | file path text =>
    obtain ⟨writable, -⟩ := write_eq_ok_iff.1 done
    rw [kind?_write done]
    by_cases here : keyOf path = key
    · rw [if_pos here]
      subst here
      cases kind with
      | false => rfl
      | true => exact absurd (kind?_eq_true_iff.1 stands) writable.free
    · rwa [if_neg here]

theorem Keeps.of_applyAll {changes : List Change} (done : tree.applyAll changes = .ok tree') :
    tree.Keeps tree' := by
  induction changes generalizing tree with
  | nil =>
    cases done
    exact .refl _
  | cons change changes ih =>
    obtain ⟨between, first, rest⟩ := except_bind_eq_ok_iff.1 done
    exact (Keeps.of_apply first).trans (ih rest)

/-! ## New directories -/

/-- The directories that changes add lie on the way to one that they make. -/
theorem directory_of_makeFrom {above rest : List Text} (made : tree.makeFrom above rest = .ok tree')
    (stands : tree'.get? key = some .directory) :
    tree.get? key = some .directory ∨ key <+: above ++ rest := by
  fun_induction makeFrom tree above rest with
  | case1 above =>
    cases made
    exact .inl stands
  | case2 above part rest free long => cases made
  | case3 above part rest free short =>
    cases made
    rw [get?_append_directories] at stands
    cases old : tree.get? key with
    | some item =>
      rw [old] at stands
      exact .inl stands
    | none =>
      rw [old, Option.none_or] at stands
      split at stands
      · next added =>
        obtain ⟨front, -, below, rfl⟩ := mem_keysBelow.1 added
        exact .inr ((List.prefix_append_right_inj above).2 below)
      · cases stands
  | case4 above part rest directory ih =>
    rw [List.append_cons]
    exact ih made
  | case5 above part rest text file => cases made

theorem directory_of_applyAll {changes : List Change} (done : tree.applyAll changes = .ok tree')
    (stands : tree'.get? key = some .directory) :
    tree.get? key = some .directory ∨
      ∃ path, Change.directory path ∈ changes ∧ key <+: keyOf path := by
  induction changes generalizing tree with
  | nil =>
    cases done
    exact .inl stands
  | cons change changes ih =>
    obtain ⟨between, first, rest⟩ := except_bind_eq_ok_iff.1 done
    obtain there | ⟨path, listed, above⟩ := ih rest
    · cases change with
      | directory path =>
        obtain ⟨rfl, -⟩ | steps := (makeDirectory_eq_ok first).2
        · exact .inl there
        · obtain old | above := directory_of_makeFrom steps there
          · exact .inl old
          · exact .inr ⟨path, List.mem_cons_self, above⟩
      | file path text =>
        rw [get?_write first] at there
        split at there
        · cases there
        · exact .inl there
    · exact .inr ⟨path, List.mem_cons_of_mem _ listed, above⟩

/-! ## The last change of a file -/

/-- What a change leaves in a file. -/
def Change.leaves? (key : List Text) : Change → Option FileItem
  | directory _ => none
  | file path text => if keyOf path = key then some (.file text.wellFormed) else none

/-- What the last change of a file leaves there. -/
def last? (key : List Text) : List Change → Option FileItem
  | [] => none
  | change :: changes => (last? key changes).or (change.leaves? key)

theorem get?_of_apply {change : Change} {item : FileItem} (done : change.apply tree = .ok tree')
    (stands : (change.leaves? key).or (tree.get? key) = some item) : tree'.get? key = some item := by
  cases change with
  | directory path =>
    obtain same | ⟨absent, -⟩ := adds_of_makeDirectory done key
    · rwa [same]
    · rw [Change.leaves?, absent] at stands
      cases stands
  | file path text =>
    rw [get?_write done]
    rw [Change.leaves?] at stands
    split
    · next here => rwa [if_pos here] at stands
    · next other => rwa [if_neg other] at stands

/-- What the last change of a file leaves stays there, and so does what no change is about. -/
theorem get?_of_applyAll {changes : List Change} {item : FileItem}
    (done : tree.applyAll changes = .ok tree')
    (stands : (last? key changes).or (tree.get? key) = some item) : tree'.get? key = some item := by
  induction changes generalizing tree with
  | nil =>
    cases done
    exact stands
  | cons change changes ih =>
    obtain ⟨between, first, rest⟩ := except_bind_eq_ok_iff.1 done
    refine ih rest ?_
    rw [last?, Option.or_assoc] at stands
    cases later : last? key changes with
    | some other => rwa [later] at stands
    | none =>
      rw [later, Option.none_or] at stands
      rw [Option.none_or]
      exact get?_of_apply first stands

/-! ## Making changes again -/

/-- A row of changes is allowed over any tree with the shape of what it leads to. -/
theorem applyAll_over {changes : List Change} {base final : FileTree} (connected : tree.Connected)
    (done : tree.applyAll changes = .ok tree') (keeps : tree'.Keeps final)
    (shape : ∀ key, base.kind? key = final.kind? key) :
    ∃ base', base.applyAll changes = .ok base' ∧
      ∀ key, base'.get? key = (last? key changes).or (base.get? key) := by
  induction changes generalizing tree base with
  | nil => exact ⟨base, rfl, fun key => rfl⟩
  | cons change changes ih =>
    obtain ⟨between, first, rest⟩ := except_bind_eq_ok_iff.1 done
    have later : between.Keeps final := (Keeps.of_applyAll rest).trans keeps
    have here {key : List Text} {kind : Bool} (stands : between.kind? key = some kind) :
        base.kind? key = some kind := (shape key).trans (later key kind stands)
    cases change with
    | directory path =>
      have sound := (makeDirectory_eq_ok first).1
      obtain ⟨kept, made⟩ := connected.makeDirectory first
      have there := kind?_eq_true_iff.1 (here (kind?_eq_true_iff.2 made))
      obtain ⟨base', goes, leaves⟩ := ih kept rest shape
      refine ⟨base', ?_, fun key => ?_⟩
      · rw [applyAll_cons, Change.apply, makeDirectory_there sound there]
        exact goes
      · rw [leaves, last?, Change.leaves?, Option.or_none]
    | file path text =>
      obtain ⟨writable, -⟩ := write_eq_ok_iff.1 first
      have above := (Keeps.of_apply first).directory writable.above
      have stands : between.kind? (keyOf path) = some false := by
        rw [kind?_write first, if_pos rfl]
      have free : base.get? (keyOf path) ≠ some .directory := by
        intro directory
        have kinds := here stands
        rw [kind?_eq_true_iff.2 directory] at kinds
        cases kinds
      have again : base.write path text =
          .ok ⟨Table.set base.items (keyOf path) (.file text.wellFormed)⟩ :=
        write_eq_ok_iff.2 ⟨⟨writable.sound, kind?_eq_true_iff.1 (here (kind?_eq_true_iff.2 above)),
          writable.short, free⟩, rfl⟩
      obtain ⟨base', goes, leaves⟩ := ih (connected.write first) rest fun key => by
        rw [kind?_write again]
        split
        · next same =>
          subst same
          exact (here stands).symm.trans (shape _)
        · exact shape key
      refine ⟨base', ?_, fun key => ?_⟩
      · rw [applyAll_cons, Change.apply, again]
        exact goes
      · rw [leaves, last?, Option.or_assoc, get?_write again, Change.leaves?]
        split <;> rfl

/-- A row of changes that was made can be made again, and then changes nothing. -/
theorem applyAll_again {changes : List Change} (connected : tree.Connected)
    (done : tree.applyAll changes = .ok tree') :
    ∃ again, tree'.applyAll changes = .ok again ∧ ∀ key, again.get? key = tree'.get? key := by
  obtain ⟨again, goes, leaves⟩ := applyAll_over connected done (.refl _) fun _ => rfl
  refine ⟨again, goes, fun key => ?_⟩
  rw [leaves]
  cases last : last? key changes with
  | none => rfl
  | some item => exact (get?_of_applyAll done (by rw [last]; rfl)).symm

end FileTree

end Highlight
