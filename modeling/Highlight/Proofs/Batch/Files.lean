import Highlight.FileTree
import Highlight.Proofs.Outcome
import Highlight.Proofs.Table
import Highlight.Proofs.Text.Pieces

/-!
# Where files stand, and what writing changes

A tree keeps a file under the parts of its path. However the path of a directory and a name are
joined, the last part of the name is the last part of the key (`FileTree.exists_keyOf_join`), so
that files whose names end differently never stand in one place. A write changes what stands at one
key (`FileTree.get?_write`), a row of writes leaves the last text for each key
(`FileTree.get?_writeAll`), and making a directory changes no file (`FileTree.get?_makeDirectory`).
-/

namespace Highlight

namespace Text

variable {u : CodeUnit}

theorem scalars_append_plain (plain : u.isTrailing = false) (t : Text) :
    scalars (t ++ [u]) = scalars t ++ [u.toNat] := by
  fun_induction scalars t with
  | case1 => rfl
  | case2 v => rw [List.singleton_append, scalars, plain, Bool.and_false]; rfl
  | case3 v w r paired ih => rw [List.cons_append, List.cons_append, scalars, if_pos paired, ih]; rfl
  | case4 v w r single ih => rw [List.cons_append, List.cons_append, scalars, if_neg single,
      ← List.cons_append, ih]; rfl

/-- A unit that is no half of a pair is written as it is. -/
theorem wellFormed_append_plain (plain : u < 0xD800) (t : Text) :
    wellFormed (t ++ [u]) = wellFormed t ++ [u] := by
  have small : u.toNat < 0xD800 := plain
  have whole : u.isTrailing = false := by
    rw [CodeUnit.isTrailing, Bool.and_eq_false_iff, decide_eq_false_iff_not, UInt16.not_le]
    exact .inl (UInt16.lt_trans plain (by decide))
  rw [wellFormed, scalars_append_plain whole, List.map_append, ofScalars, List.flatMap_append]
  rw [List.map_singleton, List.flatMap_singleton, if_neg (by omega), CodeUnit.ofScalar,
    if_pos (by omega)]
  rw [Nat.toUInt16, UInt16.ofNat_toNat]
  rfl

end Text

namespace Path

variable {qs before : List Text} {p : Text}

theorem parts_append_slash (s t : Text) : parts (s ++ slash :: t) = parts s ++ parts t := by
  rw [parts, Text.splitAt_append_sep, List.filter_append, parts, parts]

theorem mem_parts {q path : Text} (inside : q ∈ parts path) : q ≠ [] ∧ slash ∉ q := by
  obtain ⟨listed, filled⟩ := List.mem_filter.1 inside
  refine ⟨?_, Text.not_mem_of_mem_splitAt listed⟩
  rintro rfl
  cases filled

/-- A path ends with the part that its last units stand in. -/
theorem exists_parts_append {t : Text} (plain : slash ∉ t) (filled : t ≠ []) (s : Text) :
    ∃ before front, parts (s ++ t) = before ++ [front ++ t] := by
  obtain ⟨before, front, split⟩ := Text.exists_splitAt_append plain s
  refine ⟨before.filter fun part => !part.isEmpty, front, ?_⟩
  have kept : [front ++ t].filter (fun part => !part.isEmpty) = [front ++ t] := by simp [filled]
  rw [parts, split, List.filter_append, kept]

theorem parts_part {q : Text} (filled : q ≠ []) (plain : slash ∉ q) : parts q = [q] := by
  rw [parts, Text.splitAt_plain plain]
  simp [filled]

/-- Parts that are written with slashes between them are read back. -/
theorem parts_ofParts (sound : ∀ q ∈ qs, q ≠ [] ∧ slash ∉ q) : parts (ofParts qs) = qs := by
  induction qs with
  | nil => rfl
  | cons q qs ih =>
    obtain ⟨filled, plain⟩ := sound q List.mem_cons_self
    have rest := ih fun other listed => sound other (List.mem_cons_of_mem _ listed)
    cases qs with
    | nil => rw [ofParts, Text.join, List.intercalate_singleton, parts_part filled plain]
    | cons next qs =>
      rw [ofParts, Text.join, List.intercalate_cons_cons, List.append_assoc, List.singleton_append,
        parts_append_slash, parts_part filled plain]
      exact congrArg (q :: ·) rest

theorem mem_normalParts {absolute : Bool} {taken ps : List Text} {q : Text}
    (inside : q ∈ normalParts absolute taken ps) : q ∈ taken ∨ q ∈ ps := by
  fun_induction normalParts absolute taken ps <;> grind

/-- A part that leads somewhere stays the last one. -/
theorem normalParts_append (absolute : Bool) (single : p ≠ Text.ofString ".")
    (double : p ≠ Text.ofString "..") (taken ps : List Text) :
    normalParts absolute taken (ps ++ [p]) = normalParts absolute taken ps ++ [p] := by
  fun_induction normalParts absolute taken ps <;> simp_all [normalParts]

theorem parts_cons_slash (path : Text) : parts (slash :: path) = parts path :=
  (parts_append_slash [] path).trans (List.nil_append _)

theorem parts_append_end (path : Text) : parts (path ++ [slash]) = parts path :=
  (parts_append_slash path []).trans (List.append_nil _)

/-- The parts of a path without parts that lead nowhere. -/
theorem parts_normal {path : Text} (some : normalParts (isAbsolute path) [] (parts path) ≠ []) :
    parts (normal path) = normalParts (isAbsolute path) [] (parts path) := by
  have sound : ∀ q ∈ normalParts (isAbsolute path) [] (parts path), q ≠ [] ∧ slash ∉ q := by
    intro q inside
    obtain none | inside := mem_normalParts inside
    · cases none
    · exact mem_parts inside
  have body := parts_ofParts sound
  have filled : (ofParts (normalParts (isAbsolute path) [] (parts path))).isEmpty = false := by
    rw [Bool.eq_false_iff, Ne, List.isEmpty_iff]
    intro none
    rw [none] at body
    exact some body.symm
  unfold normal
  simp only [filled, Bool.false_eq_true, if_false]
  split <;> split <;>
    simp only [List.append_nil, List.cons_append, parts_cons_slash, parts_append_end, body]

/-- The last part of a name is the last one on the way to it, whatever directory it is in. -/
theorem exists_steps_join (single : p ≠ Text.ofString ".") (double : p ≠ Text.ofString "..")
    {name : Text} (ends : parts name = before ++ [p]) (directory : Text) :
    ∃ above, steps (join directory name) = above ++ [p] := by
  have given : name.isEmpty = false := by
    rw [Bool.eq_false_iff, Ne, List.isEmpty_iff]
    rintro rfl
    exact absurd ends.symm (List.append_ne_nil_of_right_ne_nil _ (List.cons_ne_nil _ _))
  obtain ⟨path, front, joined, ends⟩ : ∃ path front, join directory name = normal path ∧
      parts path = front ++ [p] := by
    unfold join
    rw [given, Bool.and_false]
    by_cases nowhere : directory.isEmpty = true
    · rw [if_pos nowhere]
      exact ⟨name, before, rfl, ends⟩
    · rw [if_neg nowhere]
      refine ⟨directory ++ slash :: name, parts directory ++ before, rfl, ?_⟩
      rw [parts_append_slash, ends, List.append_assoc]
  have last := normalParts_append (isAbsolute path) single double [] front
  rw [← ends] at last
  rw [joined, steps, parts_normal, last, normalParts_append true single double]
  · exact ⟨_, rfl⟩
  · rw [last]
    exact List.append_ne_nil_of_right_ne_nil _ (List.cons_ne_nil _ _)

end Path

namespace FileTree

variable {tree tree' : FileTree} {path text : Text}

theorem exists_keyOf_join {p name : Text} {before : List Text} (single : p ≠ Text.ofString ".")
    (double : p ≠ Text.ofString "..") (ends : Path.parts name = before ++ [p]) (directory : Text) :
    ∃ above, keyOf (Path.join directory name) = above ++ [p.wellFormed] := by
  obtain ⟨above, steps⟩ := Path.exists_steps_join single double ends directory
  refine ⟨above.map Text.wellFormed, ?_⟩
  rw [keyOf, steps, List.map_append, List.map_singleton]

/-- A file that is written holds the text, and everything else is as it was. -/
theorem get?_write (written : tree.write path text = .ok tree') (key : List Text) :
    tree'.get? key = if keyOf path = key then some (.file text.wellFormed) else tree.get? key := by
  unfold write at written
  dsimp only at written
  split at written
  · cases written
  · next free =>
    cases written
    have below : keyOf path ≠ [] := by
      intro top
      rw [top] at free
      cases fault : pathFault? path <;> rw [fault] at free <;> cases free
    unfold get?
    cases key with
    | nil => rw [if_pos List.isEmpty_nil, if_pos List.isEmpty_nil, if_neg below]
    | cons part key => exact Table.get?_set tree.items _ _ _

/-- The tree with several texts, each written to its path. -/
def writeAll (tree : FileTree) (writes : List (Text × Text)) : Except FileError FileTree :=
  writes.foldlM (fun tree file => tree.write file.1 file.2) tree

/-- The last one of several texts that is written at a key. -/
def written? (writes : List (Text × Text)) (key : List Text) : Option FileItem :=
  (writes.reverse.find? fun file => keyOf file.1 = key).map fun file => .file file.2.wellFormed

theorem get?_writeAll {writes : List (Text × Text)} (done : tree.writeAll writes = .ok tree')
    (key : List Text) : tree'.get? key = (written? writes key).or (tree.get? key) := by
  induction writes generalizing tree with
  | nil =>
    cases done
    rfl
  | cons file writes ih =>
    obtain ⟨next, first, rest⟩ := except_bind_eq_ok_iff.1 done
    rw [ih rest, get?_write first, written?, written?, List.reverse_cons, List.find?_append,
      List.find?_singleton]
    cases last : writes.reverse.find? fun file => keyOf file.1 = key with
    | some later => rfl
    | none =>
      by_cases here : keyOf file.1 = key
      · simp [here]
      · simp [here]

theorem written?_append (first second : List (Text × Text)) (key : List Text) :
    written? (first ++ second) key = (written? second key).or (written? first key) := by
  unfold written?
  rw [List.reverse_append, List.find?_append, Option.map_or]

/-- What one tree has beyond another is directories. -/
def Adds (tree tree' : FileTree) : Prop :=
  ∀ key, tree'.get? key = tree.get? key ∨ tree.get? key = none ∧ tree'.get? key = some .directory

theorem Adds.refl (tree : FileTree) : tree.Adds tree := fun _ => .inl rfl

/-- Directories that are added change no file. -/
theorem Adds.file_iff (adds : tree.Adds tree') {key : List Text} :
    tree'.get? key = some (.file text) ↔ tree.get? key = some (.file text) := by
  obtain same | ⟨none, directory⟩ := adds key
  · rw [same]
  · rw [none, directory]
    exact ⟨nofun, nofun⟩

theorem adds_of_makeFrom {above rest : List Text} (made : tree.makeFrom above rest = .ok tree') :
    tree.Adds tree' := by
  fun_induction makeFrom tree above rest with
  | case1 above =>
    cases made
    exact .refl _
  | case2 above part rest free long => cases made
  | case3 above part rest free short =>
    cases made
    intro key
    unfold get?
    split
    · exact .inl rfl
    · dsimp only
      rw [Table.get?_append]
      cases held : Table.get? tree.items key with
      | some item => exact .inl rfl
      | none =>
        rw [Option.none_or]
        cases new : Table.get? ((keysBelow above (part :: rest)).map (·, FileItem.directory)) key with
        | none => exact .inl rfl
        | some item =>
          obtain ⟨_, -, same⟩ := List.mem_map.1 (Table.mem_of_get? new)
          cases same
          exact .inr ⟨rfl, rfl⟩
  | case4 above part rest directory ih => exact ih made
  | case5 above part rest text file => cases made

/-- Making a directory adds directories only. -/
theorem adds_of_makeDirectory (made : tree.makeDirectory path = .ok tree') : tree.Adds tree' := by
  unfold makeDirectory at made
  dsimp only at made
  split at made
  · cases made
  · split at made
    · cases made
      exact .refl _
    · cases from_ : tree.makeFrom [] (keyOf path) with
      | error fault =>
        rw [from_] at made
        cases made
      | ok tree'' =>
        rw [from_] at made
        cases made
        exact adds_of_makeFrom from_

end FileTree

end Highlight
