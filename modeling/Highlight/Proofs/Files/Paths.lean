import Highlight.Proofs.Batch.Files

/-!
# Paths of files in a directory

Parts that were normalised lead the same way from the top as before
(`Path.normalParts_normalParts`), so a file name stands directly in the directory it is joined to,
however the path of that directory is written (`FileTree.keyOf_join`).
-/

namespace Highlight

namespace Path

variable {absolute : Bool} {taken ps : List Text} {p last : Text}

/-- A part that leads neither nowhere nor up. -/
def IsName (p : Text) : Prop := p ≠ Text.ofString "." ∧ p ≠ Text.ofString ".."

theorem normalParts_nil : normalParts absolute taken [] = taken.reverse := by
  cases taken <;> simp [normalParts]

theorem normalParts_dot :
    normalParts absolute taken (Text.ofString "." :: ps) = normalParts absolute taken ps := by
  cases taken <;> simp [normalParts]

theorem normalParts_name (sound : IsName p) :
    normalParts absolute taken (p :: ps) = normalParts absolute (p :: taken) ps := by
  cases taken <;> rw [normalParts, if_neg sound.1, if_neg sound.2]

theorem normalParts_up_top : normalParts absolute [] (Text.ofString ".." :: ps) =
    normalParts absolute (if absolute then [] else [Text.ofString ".."]) ps := by
  rw [normalParts, if_neg (by decide), if_pos rfl]

theorem normalParts_up_name (sound : IsName last) :
    normalParts absolute (last :: taken) (Text.ofString ".." :: ps) =
      normalParts absolute taken ps := by
  rw [normalParts, if_neg (by decide), if_pos rfl]
  exact if_neg sound.2

theorem normalParts_up_up : normalParts absolute (Text.ofString ".." :: taken)
      (Text.ofString ".." :: ps) =
    normalParts absolute (Text.ofString ".." :: Text.ofString ".." :: taken) ps := by
  rw [normalParts, if_neg (by decide), if_pos rfl]
  exact if_pos rfl

theorem normalParts_names (names : ∀ p ∈ ps, IsName p) (taken : List Text) :
    normalParts absolute taken ps = taken.reverse ++ ps := by
  induction ps generalizing taken with
  | nil => rw [normalParts_nil, List.append_nil]
  | cons p ps ih =>
    obtain ⟨sound, rest⟩ := List.forall_mem_cons.1 names
    rw [normalParts_name sound, ih rest, List.reverse_cons, List.append_assoc]
    rfl

/-- Steps up lead nowhere from the top. -/
theorem normalParts_ups (count : Nat) (ps : List Text) :
    normalParts true [] (List.replicate count (Text.ofString "..") ++ ps) =
      normalParts true [] ps := by
  induction count with
  | zero => rfl
  | succ count ih => rwa [List.replicate_succ, List.cons_append, normalParts_up_top, if_pos rfl]

/-- From the top, only names are kept. -/
theorem isName_of_mem_normalParts (sound : ∀ p ∈ taken, IsName p) :
    ∀ p ∈ normalParts true taken ps, IsName p := by
  induction ps generalizing taken with
  | nil =>
    rw [normalParts_nil]
    exact fun p listed => sound p (List.mem_reverse.1 listed)
  | cons p ps ih =>
    by_cases nowhere : p = Text.ofString "."
    · rw [nowhere, normalParts_dot]
      exact ih sound
    by_cases up : p = Text.ofString ".."
    · rw [up]
      cases taken with
      | nil =>
        rw [normalParts_up_top, if_pos rfl]
        exact ih sound
      | cons last taken =>
        obtain ⟨plain, rest⟩ := List.forall_mem_cons.1 sound
        rw [normalParts_up_name plain]
        exact ih rest
    · rw [normalParts_name ⟨nowhere, up⟩]
      exact ih (List.forall_mem_cons.2 ⟨⟨nowhere, up⟩, sound⟩)

/-- What is kept are some steps up, and behind them the names that are kept from the top. -/
theorem exists_normalParts (absolute : Bool) {names : List Text} (sound : ∀ p ∈ names, IsName p) (count : Nat)
    (ps : List Text) :
    ∃ ups, normalParts absolute (names ++ List.replicate count (Text.ofString "..")) ps =
      List.replicate ups (Text.ofString "..") ++ normalParts true names ps := by
  induction ps generalizing names count with
  | nil =>
    rw [normalParts_nil, List.reverse_append, List.reverse_replicate, normalParts_nil]
    exact ⟨count, rfl⟩
  | cons p ps ih =>
    by_cases nowhere : p = Text.ofString "."
    · rw [nowhere, normalParts_dot, normalParts_dot]
      exact ih sound count
    by_cases up : p = Text.ofString ".."
    · rw [up]
      cases names with
      | cons last names =>
        obtain ⟨plain, rest⟩ := List.forall_mem_cons.1 sound
        rw [List.cons_append, normalParts_up_name plain, normalParts_up_name plain]
        exact ih rest count
      | nil =>
        rw [normalParts_up_top, if_pos rfl]
        cases count with
        | zero =>
          cases absolute with
          | true => exact ih sound 0
          | false => exact ih sound 1
        | succ count =>
          rw [List.nil_append, List.replicate_succ, normalParts_up_up]
          exact ih sound (count + 2)
    · rw [normalParts_name ⟨nowhere, up⟩, normalParts_name ⟨nowhere, up⟩]
      exact ih (List.forall_mem_cons.2 ⟨⟨nowhere, up⟩, sound⟩) count

/-- Parts that were normalised lead the same way from the top as before. -/
theorem normalParts_normalParts (absolute : Bool) (ps : List Text) :
    normalParts true [] (normalParts absolute [] ps) = normalParts true [] ps := by
  obtain ⟨ups, kept⟩ := exists_normalParts absolute (List.forall_mem_nil IsName) 0 ps
  rw [List.nil_append, List.replicate_zero] at kept
  rw [kept, normalParts_ups, normalParts_names (isName_of_mem_normalParts (List.forall_mem_nil _))]
  rfl

/-- A name that is a single part of a path and leads to something below. -/
structure IsFileName (name : Text) : Prop where
  filled : name ≠ []
  plain : slash ∉ name
  sound : IsName name

instance (name : Text) : Decidable (IsFileName name) :=
  decidable_of_iff (name ≠ [] ∧ slash ∉ name ∧ name ≠ Text.ofString "." ∧ name ≠ Text.ofString "..")
    ⟨fun all => ⟨all.1, all.2.1, all.2.2⟩, fun sound => ⟨sound.filled, sound.plain, sound.sound⟩⟩

/-- What ends in a plain ending is a name if it holds no slash. -/
theorem IsFileName.append {front ending : Text} {u : CodeUnit} (plain : slash ∉ front ++ ending)
    (ends : ending.getLast? = some u) (letter : u ≠ unit '.') : IsFileName (front ++ ending) := by
  have last : (front ++ ending).getLast? = some u := by rw [List.getLast?_append, ends, Option.some_or]
  refine ⟨?_, plain, ?_, ?_⟩ <;> intro same <;> rw [same] at last <;> cases last
  · exact letter rfl
  · exact letter rfl

theorem normalParts_append_names {names : List Text} (sound : ∀ p ∈ names, IsName p)
    (taken ps : List Text) :
    normalParts absolute taken (ps ++ names) = normalParts absolute taken ps ++ names := by
  induction names generalizing ps with
  | nil => rw [List.append_nil, List.append_nil]
  | cons p names ih =>
    obtain ⟨here, rest⟩ := List.forall_mem_cons.1 sound
    rw [List.append_cons, ih rest, normalParts_append absolute here.1 here.2, List.append_assoc]
    rfl

/-- File names come behind the parts of the directory that they are joined to. -/
theorem exists_parts_join {below : List Text} (sound : ∀ p ∈ below, IsFileName p)
    (filled : below ≠ []) (directory : Text) : ∃ absolute,
      parts (join directory (ofParts below)) = normalParts absolute [] (parts directory ++ below) := by
  have names : ∀ p ∈ below, IsName p := fun p listed => (sound p listed).sound
  have written : parts (ofParts below) = below :=
    parts_ofParts fun p listed => ⟨(sound p listed).filled, (sound p listed).plain⟩
  have given : (ofParts below).isEmpty = false := by
    rw [List.isEmpty_eq_false_iff]
    intro none
    rw [none] at written
    exact filled written.symm
  obtain ⟨path, joined, leads⟩ : ∃ path, join directory (ofParts below) = normal path ∧
      parts path = parts directory ++ below := by
    unfold join
    rw [given, Bool.and_false]
    cases directory with
    | nil => exact ⟨_, rfl, written⟩
    | cons u directory =>
      refine ⟨u :: directory ++ slash :: ofParts below, rfl, ?_⟩
      rw [parts_append_slash, written]
  have kept : normalParts (isAbsolute path) [] (parts path) ≠ [] := by
    rw [leads, normalParts_append_names names]
    exact List.append_ne_nil_of_right_ne_nil _ filled
  refine ⟨isAbsolute path, ?_⟩
  rw [joined, parts_normal kept, leads]

theorem ofParts_singleton (p : Text) : ofParts [p] = p := by
  rw [ofParts, Text.join, List.intercalate_singleton]

theorem IsFileName.exists_parts_join {name : Text} (sound : IsFileName name) (directory : Text) :
    ∃ absolute, parts (join directory name) =
      normalParts absolute [] (parts directory ++ [name]) := by
  have joined := Path.exists_parts_join (List.forall_mem_singleton.2 sound) (List.cons_ne_nil _ _)
    directory
  rwa [ofParts_singleton] at joined

/-- File names stand below the directory that they are joined to. -/
theorem steps_join {below : List Text} (sound : ∀ p ∈ below, IsFileName p) (filled : below ≠ [])
    (directory : Text) : steps (join directory (ofParts below)) = steps directory ++ below := by
  obtain ⟨absolute, joined⟩ := Path.exists_parts_join sound filled directory
  rw [steps, joined, normalParts_normalParts,
    normalParts_append_names fun p listed => (sound p listed).sound]
  rfl

/-! ## Units of paths -/

variable {u : CodeUnit} {path first second : Text}

theorem mem_ofParts (inside : u ∈ ofParts ps) :
    u = slash ∨ ∃ q ∈ ps, u ∈ q := by
  induction ps with
  | nil => cases inside
  | cons p ps ih =>
    cases ps with
    | nil =>
      rw [ofParts, Text.join, List.intercalate_singleton] at inside
      exact .inr ⟨p, List.mem_cons_self, inside⟩
    | cons next ps =>
      rw [ofParts, Text.join, List.intercalate_cons_cons, List.mem_append, List.mem_append,
        List.mem_singleton] at inside
      obtain (here | slash) | later := inside
      · exact .inr ⟨p, List.mem_cons_self, here⟩
      · exact .inl slash
      · obtain slash | ⟨q, listed, held⟩ := ih later
        · exact .inl slash
        · exact .inr ⟨q, List.mem_cons_of_mem _ listed, held⟩

theorem mem_normal (inside : u ∈ normal path) : u = slash ∨ u = unit '.' ∨ u ∈ path := by
  have kept (absolute : Bool) (held : u ∈ ofParts (normalParts absolute [] (parts path))) :
      u = slash ∨ u = unit '.' ∨ u ∈ path := by
    obtain here | ⟨q, listed, held⟩ := mem_ofParts held
    · exact .inl here
    · obtain none | listed := mem_normalParts listed
      · cases none
      · exact .inr (.inr (Text.mem_of_mem_splitAt (List.mem_filter.1 listed).1 held))
  have trailing (flag : Bool) (held : u ∈ if flag then [slash] else []) : u = slash := by
    cases flag with
    | true => exact List.mem_singleton.1 held
    | false => cases held
  have dots (text : Text) (only : text.all (fun v => v = slash ∨ v = unit '.') = true)
      (held : u ∈ text) : u = slash ∨ u = unit '.' ∨ u ∈ path :=
    (of_decide_eq_true (List.all_eq_true.1 only u held)).imp_right .inl
  unfold normal at inside
  dsimp only at inside
  split at inside
  · split at inside
    · exact .inl (List.mem_singleton.1 inside)
    · rw [List.cons_append, List.mem_cons, List.mem_append] at inside
      obtain here | held | ends := inside
      · exact .inl here
      · exact kept _ held
      · exact .inl (trailing _ ends)
  · split at inside
    · split at inside
      · exact dots _ rfl inside
      · exact dots _ rfl inside
    · obtain held | ends := List.mem_append.1 inside
      · exact kept _ held
      · exact .inl (trailing _ ends)

theorem mem_join (inside : u ∈ join first second) :
    u = slash ∨ u = unit '.' ∨ u ∈ first ∨ u ∈ second := by
  unfold join at inside
  split at inside
  · exact .inr (.inl (List.mem_singleton.1 inside))
  · split at inside
    · exact (mem_normal inside).imp_right (Or.imp_right .inr)
    · split at inside
      · exact (mem_normal inside).imp_right (Or.imp_right .inl)
      · obtain here | dot | held := mem_normal inside
        · exact .inl here
        · exact .inr (.inl dot)
        · obtain held | held := List.mem_append.1 held
          · exact .inr (.inr (.inl held))
          · obtain here | held := List.mem_cons.1 held
            · exact .inl here
            · exact .inr (.inr (.inr held))

end Path

theorem FileTree.keyOf_join_parts {below : List Text} (sound : ∀ p ∈ below, Path.IsFileName p)
    (filled : below ≠ []) (directory : Text) :
    keyOf (Path.join directory (Path.ofParts below)) =
      keyOf directory ++ below.map Text.wellFormed := by
  rw [keyOf, Path.steps_join sound filled, List.map_append]
  rfl

/-- A file name stands directly in the directory that it is joined to. -/
theorem FileTree.keyOf_join {name : Text} (sound : Path.IsFileName name) (directory : Text) :
    keyOf (Path.join directory name) = keyOf directory ++ [name.wellFormed] := by
  have joined := FileTree.keyOf_join_parts (List.forall_mem_singleton.2 sound)
    (List.cons_ne_nil _ _) directory
  rwa [Path.ofParts_singleton] at joined

end Highlight
