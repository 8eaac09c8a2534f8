import Highlight.Proofs.Style.Palette

/-!
# Names for the colours of a palette

A palette with at least one colour gives a colour to each name of the destination, so the three
tables of names are maps of one list (`ColorNames.ofPalette_eq`). A colour that several names take
keeps the last of them, and a colour that no name takes goes to the name of the nearest colour that
one does (`ColorNames.nameFor?_stands`).
-/

namespace Highlight.ColorNames

variable {palette : Palette} {names : ColorNames} {name hex chosen : Text}

/-- The colour of a palette that a colour of the destination takes. -/
def pick (palette : Palette) (color : Rgb) : Text := (palette.closest? color).getD []

theorem closest?_isNearest (nonempty : palette ≠ []) (color : Rgb) :
    palette.closest? color = some (pick palette color) ∧
      ∃ found, color.IsNearest palette (pick palette color) found := by
  obtain ⟨hex, found, chosen, nearest⟩ := color.nearest?_eq_some nonempty
  have picked : pick palette color = hex := by
    rw [pick, Palette.closest?, chosen]
    rfl
  rw [picked]
  exact ⟨chosen, found, nearest⟩

/-- Names are entered in three tables side by side. -/
theorem foldl_enter (colors : List (Text × Rgb)) (hexFor : Rgb → Text) (names : ColorNames) :
    colors.foldl (fun names entry => names.enter entry.1 (hexFor entry.2)) names =
      { hexOf := colors.foldl (fun table entry => Table.set table entry.1 (hexFor entry.2)) names.hexOf
        nameOf := colors.foldl (fun table entry => Table.set table (hexFor entry.2) entry.1) names.nameOf
        indexOf := colors.foldl (fun table entry => Table.set table entry.1
          (Color.terminalIndex (Rgb.ofHex (hexFor entry.2)))) names.indexOf } := by
  induction colors generalizing names with
  | nil => rfl
  | cons entry colors ih => exact ih _

theorem nodup_logical : (Color.logical.map (·.1)).Nodup := by decide +kernel

theorem ofList_logical {α : Type} (f : Rgb → α) :
    Table.ofList (Color.logical.map fun entry => (entry.1, f entry.2)) =
      Color.logical.map fun entry => (entry.1, f entry.2) := by
  refine Table.ofList_of_nodup ?_
  rw [Table.keys, List.map_map]
  exact nodup_logical

theorem ofPalette_eq (nonempty : palette ≠ []) : ofPalette palette =
    { hexOf := Color.logical.map fun entry => (entry.1, pick palette entry.2)
      nameOf := Table.ofList (Color.logical.map fun entry => (pick palette entry.2, entry.1))
      indexOf := Color.logical.map fun entry =>
        (entry.1, Color.terminalIndex (Rgb.ofHex (pick palette entry.2))) } := by
  have chosen (color : Rgb) : palette.closest? color = some (pick palette color) :=
    (closest?_isNearest nonempty color).1
  simp only [ofPalette, chosen]
  rw [foldl_enter, ← ofList_logical (pick palette),
    ← ofList_logical fun color => Color.terminalIndex (Rgb.ofHex (pick palette color))]
  simp only [Table.ofList, List.foldl_map]

theorem hexOf_eq (nonempty : palette ≠ []) : (ofPalette palette).hexOf =
    Color.logical.map fun entry => (entry.1, pick palette entry.2) := by
  rw [ofPalette_eq nonempty]

theorem nameOf_eq (nonempty : palette ≠ []) : (ofPalette palette).nameOf =
    Table.ofList (Color.logical.map fun entry => (pick palette entry.2, entry.1)) := by
  rw [ofPalette_eq nonempty]

theorem indexOf_eq (nonempty : palette ≠ []) : (ofPalette palette).indexOf =
    Color.logical.map fun entry =>
      (entry.1, Color.terminalIndex (Rgb.ofHex (pick palette entry.2))) := by
  rw [ofPalette_eq nonempty]

theorem ofPalette_nil : ofPalette [] = ⟨[], [], []⟩ := rfl

/-- Every name of the destination takes a colour of the palette, the nearest to its own. -/
theorem ofPalette_nearest (nonempty : palette ≠ []) :
    Table.keys (ofPalette palette).hexOf = Color.logical.map (·.1) ∧
      ∀ entry ∈ Color.logical, ∃ hex color, Table.get? (ofPalette palette).hexOf entry.1 = some hex ∧
        entry.2.IsNearest palette hex color := by
  rw [hexOf_eq nonempty]
  have keys : Table.keys (Color.logical.map fun entry => (entry.1, pick palette entry.2)) =
      Color.logical.map (·.1) := List.map_map
  refine ⟨keys, fun entry listed => ?_⟩
  obtain ⟨_, color, nearest⟩ := closest?_isNearest nonempty entry.2
  refine ⟨_, color, Table.get?_of_mem (keys ▸ nodup_logical) ?_, nearest⟩
  exact List.mem_map_of_mem (f := fun entry => (entry.1, pick palette entry.2)) listed

/-- A colour that some name takes is a colour of the palette. -/
theorem has_of_mem_nameOf (taken : hex ∈ Table.keys (ofPalette palette).nameOf) :
    Table.has palette hex = true := by
  obtain rfl | nonempty := Decidable.em (palette = [])
  · cases taken
  · rw [nameOf_eq nonempty, Table.mem_keys_ofList] at taken
    obtain ⟨_, held, rfl⟩ := List.mem_map.1 taken
    obtain ⟨entry, _, rfl⟩ := List.mem_map.1 held
    obtain ⟨_, color, nearest⟩ := closest?_isNearest nonempty entry.2
    exact Table.has_iff.2 (List.mem_map.2 ⟨_, nearest.mem, rfl⟩)

/-- `name` stands for `hex` among names: it has a terminal index and a colour that some name takes,
no such colour is nearer to `hex`, and if `hex` is such a colour itself, then `name` is the last
name that takes it. -/
structure Stands (names : ColorNames) (palette : Palette) (hex name chosen : Text) (index : Nat) :
    Prop where
  indexed : Table.get? names.indexOf name = some index
  takes : Table.get? names.hexOf name = some chosen
  inside : Table.has palette chosen = true
  nearest : ∀ other ∈ Table.values names.hexOf,
    (Rgb.ofHex hex).distance (Rgb.ofHex chosen) ≤ (Rgb.ofHex hex).distance (Rgb.ofHex other)
  exact : hex ∈ Table.values names.hexOf → chosen = hex ∧
    ∃ before after, names.hexOf = before ++ (name, hex) :: after ∧ hex ∉ Table.values after
  least : 16 ≤ index ∧ index ≤ 255 ∧ ∀ other, 16 ≤ other → other ≤ 255 →
    (Rgb.ofHex chosen).distance (Color.terminal index) ≤
        (Rgb.ofHex chosen).distance (Color.terminal other) ∧
      ((Rgb.ofHex chosen).distance (Color.terminal other) =
        (Rgb.ofHex chosen).distance (Color.terminal index) → index ≤ other)

/-- What a name of the destination has in the three tables. -/
theorem stands_of_mem (nonempty : palette ≠ []) {color : Rgb} (listed : (name, color) ∈ Color.logical)
    (nearest : ∀ other ∈ Table.values (ofPalette palette).hexOf,
      (Rgb.ofHex hex).distance (Rgb.ofHex (pick palette color)) ≤
        (Rgb.ofHex hex).distance (Rgb.ofHex other))
    (exact : hex ∈ Table.values (ofPalette palette).hexOf → pick palette color = hex ∧
      ∃ before after, (ofPalette palette).hexOf = before ++ (name, hex) :: after ∧
        hex ∉ Table.values after) :
    Stands (ofPalette palette) palette hex name (pick palette color)
      (Color.terminalIndex (Rgb.ofHex (pick palette color))) := by
  have held {α : Type} (f : Rgb → α) :
      Table.get? (Color.logical.map fun entry => (entry.1, f entry.2)) name = some (f color) := by
    refine Table.get?_of_mem ?_ (List.mem_map_of_mem (f := fun entry => (entry.1, f entry.2)) listed)
    rw [Table.keys, List.map_map]
    exact nodup_logical
  obtain ⟨_, found, near⟩ := closest?_isNearest nonempty color
  refine ⟨?_, ?_, ?_, nearest, exact, Color.terminalIndex_least _⟩
  · rw [indexOf_eq nonempty]
    exact held fun color => Color.terminalIndex (Rgb.ofHex (pick palette color))
  · rw [hexOf_eq nonempty]
    exact held (pick palette)
  · exact Table.has_iff.2 (List.mem_map.2 ⟨_, near.mem, rfl⟩)

theorem values_picked (entries : List (Text × Rgb)) :
    Table.values (entries.map fun entry => (entry.1, pick palette entry.2)) =
      Table.keys (entries.map fun entry => (pick palette entry.2, entry.1)) := by
  rw [Table.values, Table.keys, List.map_map, List.map_map]
  rfl

/-- A colour that is taken: the table of names has kept the last name. -/
theorem stands_of_taken (nonempty : palette ≠ [])
    (taken : Table.get? (ofPalette palette).nameOf hex = some name) :
    ∃ chosen index, Stands (ofPalette palette) palette hex name chosen index := by
  rw [nameOf_eq nonempty, Table.get?_ofList_eq_some_iff] at taken
  obtain ⟨before, after, split, fresh⟩ := taken
  obtain ⟨front, rest, listed, rfl, others⟩ := List.map_eq_append_iff.1 split
  obtain ⟨⟨name, color⟩, back, rfl, same, rfl⟩ := List.map_eq_cons_iff.1 others
  cases same
  refine ⟨_, _, stands_of_mem nonempty (listed ▸ by simp) (fun other _ => ?_) fun _ => ⟨rfl, ?_⟩⟩
  · rw [Rgb.distance_self]
    exact Rgb.distance_nonneg _ _
  · rw [← values_picked back] at fresh
    refine ⟨front.map fun entry => (entry.1, pick palette entry.2), _, ?_, fresh⟩
    rw [hexOf_eq nonempty, listed, List.map_append, List.map_cons]

/-- A colour that is not taken gets the name of the nearest one that is. -/
theorem stands_of_untaken (nonempty : palette ≠ [])
    (untaken : Table.get? (ofPalette palette).nameOf hex = none)
    (found : (Rgb.ofHex hex).nearest? ((ofPalette palette).hexOf.map fun entry =>
      (entry.1, Rgb.ofHex entry.2)) = some name) :
    ∃ chosen index, Stands (ofPalette palette) palette hex name chosen index := by
  have absent : hex ∉ Table.values (ofPalette palette).hexOf := by
    rw [hexOf_eq nonempty, values_picked, ← Table.mem_keys_ofList, ← nameOf_eq nonempty]
    exact Table.get?_eq_none_iff.1 untaken
  have some_name : ((ofPalette palette).hexOf.map fun entry => (entry.1, Rgb.ofHex entry.2)) ≠ [] := by
    rw [hexOf_eq nonempty]
    exact List.cons_ne_nil _ _
  obtain ⟨key, color, chosen, nearest⟩ := (Rgb.ofHex hex).nearest?_eq_some some_name
  obtain rfl : key = name := Option.some.inj (chosen.symm.trans found)
  obtain ⟨⟨_, taken⟩, same, least⟩ := nearest.of_map
  cases same
  have inside := least.mem
  rw [hexOf_eq nonempty] at inside
  obtain ⟨⟨_, own⟩, listed, same⟩ := List.mem_map.1 inside
  cases same
  refine ⟨_, _, stands_of_mem nonempty listed (fun other held => ?_) fun held => absurd held absent⟩
  obtain ⟨entry, member, rfl⟩ := List.mem_map.1 held
  exact least.le member

theorem nameFor?_stands (nonempty : palette ≠ [])
    (found : (ofPalette palette).nameFor? hex = some name) :
    ∃ chosen index, Stands (ofPalette palette) palette hex name chosen index := by
  unfold nameFor? at found
  split at found
  · next last taken =>
    cases found
    exact stands_of_taken nonempty taken
  · next untaken => exact stands_of_untaken nonempty untaken found

end Highlight.ColorNames
