import Highlight.Document.Reader
import Highlight.Proofs.Table
import Mathlib.Data.List.Sort

/-!
# The order of keys

The fields of an object stand in key order: a key once, list positions first and rising. Every object
of a document that is read is in key order (`Document.keyed_of_read?`), and an object that is made of
entries in key order keeps them as they are (`Document.ofFields_of_inKeyOrder`).
-/

namespace Highlight

namespace Table

variable {α : Type} {table : Table Text α} {keys : List Text}

/-- Of two keys the first may stand in front: if the second is a list position, the first is one that
is not above it. -/
def Precedes (first second : Text) : Prop :=
  ∀ n ∈ position? second, ∃ m ∈ position? first, m ≤ n

/-- Each key stands once, and the keys that are list positions stand first and rise. -/
structure InKeyOrder (keys : List Text) : Prop where
  single : keys.Nodup
  rising : keys.Pairwise Precedes

instance : DecidableRel Precedes := fun _ _ => inferInstanceAs (Decidable (∀ _ ∈ _, _))

instance : Decidable (InKeyOrder keys) :=
  decidable_of_iff (keys.Nodup ∧ keys.Pairwise Precedes)
    ⟨fun ⟨single, rising⟩ => ⟨single, rising⟩, fun order => ⟨order.single, order.rising⟩⟩

/-! ## Positions and the other keys -/

/-- The entries of a table whose keys are list positions, with the positions. -/
def positions (table : Table Text α) : List (Nat × Text × α) :=
  table.filterMap fun entry => (position? entry.1).map fun n => (n, entry)

/-- The entries of a table whose keys are no list positions. -/
def others (table : Table Text α) : Table Text α :=
  table.filter fun entry => (position? entry.1).isNone

theorem positionsFirst_eq (table : Table Text α) : positionsFirst table =
    ((positions table).mergeSort fun p q => decide (p.1 ≤ q.1)).map (·.2) ++ others table := rfl

theorem position?_of_mem_positions {n : Nat} {entry : Text × α}
    (listed : (n, entry) ∈ positions table) : position? entry.1 = some n := by
  obtain ⟨other, -, numbers⟩ := List.mem_filterMap.1 listed
  obtain ⟨number, known, same⟩ := Option.map_eq_some_iff.1 numbers
  cases same
  exact known

theorem perm_parts (table : Table Text α) :
    ((positions table).map (·.2) ++ others table).Perm table := by
  induction table with
  | nil => exact .nil
  | cons entry table ih =>
    cases number : position? entry.1 with
    | none =>
      have left : positions (entry :: table) = positions table :=
        List.filterMap_cons_none (by rw [number]; rfl)
      have right : others (entry :: table) = entry :: others table :=
        List.filter_cons_of_pos (by rw [number]; rfl)
      rw [left, right]
      exact List.perm_middle.trans (ih.cons entry)
    | some n =>
      have left : positions (entry :: table) = (n, entry) :: positions table :=
        List.filterMap_cons_some (by rw [number]; rfl)
      have right : others (entry :: table) = others table :=
        List.filter_cons_of_neg (by rw [number]; nofun)
      rw [left, right]
      exact ih.cons entry

theorem perm_positionsFirst (table : Table Text α) : (positionsFirst table).Perm table :=
  (((List.mergeSort_perm _ _).map _).append_right _).trans (perm_parts table)

theorem pairwise_mergeSort_positions (table : Table Text α) :
    ((positions table).mergeSort fun p q => decide (p.1 ≤ q.1)).Pairwise (·.1 ≤ ·.1) := by
  have sorted := @List.pairwise_mergeSort _ (fun p q : Nat × Text × α => decide (p.1 ≤ q.1))
    (fun p q r => by simpa using Nat.le_trans) (fun p q => by simpa using Nat.le_total p.1 q.1)
    (positions table)
  exact sorted.imp of_decide_eq_true

/-- Positions first is key order. -/
theorem inKeyOrder_positionsFirst (single : (Table.keys table).Nodup) :
    InKeyOrder (Table.keys (positionsFirst table)) := by
  refine ⟨((perm_positionsFirst table).map _).nodup_iff.2 single, ?_⟩
  rw [Table.keys, List.pairwise_map, positionsFirst_eq, List.pairwise_append, List.pairwise_map]
  have noPosition {entry : Text × α} (listed : entry ∈ others table) : position? entry.1 = none :=
    Option.isNone_iff_eq_none.1 (List.mem_filter.1 listed).2
  refine ⟨(pairwise_mergeSort_positions table).imp_of_mem ?_, ?_, ?_⟩
  · intro p q first second le n known
    have number := position?_of_mem_positions (List.mem_mergeSort.1 first)
    have number' := position?_of_mem_positions (List.mem_mergeSort.1 second)
    rw [number'] at known
    cases known
    exact ⟨p.1, number, le⟩
  · refine List.pairwise_of_forall_mem_list fun first _ second other n known => ?_
    rw [noPosition other] at known
    cases known
  · rintro _ - _ other n known
    rw [noPosition other] at known
    cases known

/-- In a table in key order the positions stand in front of the other keys. -/
theorem parts_eq_self (rising : (Table.keys table).Pairwise Precedes) :
    (positions table).map (·.2) ++ others table = table := by
  induction table with
  | nil => rfl
  | cons entry table ih =>
    obtain ⟨first, rising⟩ := List.pairwise_cons.1 rising
    cases number : position? entry.1 with
    | none =>
      -- Behind a key that is no position there is none, so nothing is left to be moved.
      have none (other : Text × α) (listed : other ∈ table) : position? other.1 = none := by
        by_contra known
        obtain ⟨n, known⟩ := Option.ne_none_iff_exists'.1 known
        obtain ⟨m, inside, -⟩ := first _ (List.mem_map_of_mem listed) n known
        rw [number] at inside
        cases inside
      have left : positions (entry :: table) = [] := by
        refine List.filterMap_eq_nil_iff.2 fun other listed => ?_
        obtain rfl | later := List.mem_cons.1 listed
        · rw [number]
          rfl
        · rw [none other later]
          rfl
      have right : others (entry :: table) = entry :: table := by
        refine List.filter_eq_self.2 fun other listed => ?_
        obtain rfl | later := List.mem_cons.1 listed
        · rw [number]
          rfl
        · rw [none other later]
          rfl
      rw [left, right]
      rfl
    | some n =>
      have left : positions (entry :: table) = (n, entry) :: positions table :=
        List.filterMap_cons_some (by rw [number]; rfl)
      have right : others (entry :: table) = others table :=
        List.filter_cons_of_neg (by rw [number]; nofun)
      rw [left, right, List.map_cons, List.cons_append, ih rising]

/-- A table in key order is not moved. -/
theorem positionsFirst_of_rising (rising : (Table.keys table).Pairwise Precedes) :
    positionsFirst table = table := by
  have sorted : (positions table).Pairwise fun p q => decide (p.1 ≤ q.1) = true := by
    rw [positions, List.pairwise_filterMap]
    refine (List.pairwise_map.1 rising).imp ?_
    intro first second precedes p numbers q numbers'
    obtain ⟨m, known, rfl⟩ := Option.map_eq_some_iff.1 numbers
    obtain ⟨n, known', rfl⟩ := Option.map_eq_some_iff.1 numbers'
    obtain ⟨number, inside, le⟩ := precedes n known'
    rw [known] at inside
    cases inside
    exact decide_eq_true le
  rw [positionsFirst_eq, List.mergeSort_of_pairwise sorted, parts_eq_self rising]

end Table

namespace Document

variable {items : List Document} {fields : Table Text Document}

/-- Every object in a document has its fields in key order. -/
inductive Keyed : Document → Prop where
  | null : Keyed null
  | bool (value : Bool) : Keyed (bool value)
  | number (value : Number) : Keyed (number value)
  | text (value : Text) : Keyed (text value)
  | list {items : List Document} (each : ∀ item ∈ items, Keyed item) : Keyed (list items)
  | object {fields : Table Text Document} (order : Table.InKeyOrder (Table.keys fields))
    (each : ∀ field ∈ fields, Keyed field.2) : Keyed (object fields)

theorem keyed_list_iff : (list items).Keyed ↔ ∀ item ∈ items, item.Keyed :=
  ⟨fun | .list each => each, .list⟩

theorem keyed_object_iff : (object fields).Keyed ↔
    Table.InKeyOrder (Table.keys fields) ∧ ∀ field ∈ fields, field.2.Keyed :=
  ⟨fun | .object order each => ⟨order, each⟩, fun ⟨order, each⟩ => .object order each⟩

/-- An object made of entries in key order has them as its fields. -/
theorem ofFields_of_inKeyOrder {entries : List (Text × Document)}
    (order : Table.InKeyOrder (Table.keys entries)) : ofFields entries = object entries := by
  rw [ofFields, Table.ofList_of_nodup order.single, Table.positionsFirst_of_rising order.rising]

theorem keyed_ofFields {entries : List (Text × Document)}
    (each : ∀ entry ∈ entries, entry.2.Keyed) : (ofFields entries).Keyed := by
  refine .object (Table.inKeyOrder_positionsFirst (Table.nodup_keys_ofList entries)) ?_
  exact fun field held => each field (Table.mem_of_mem_ofList (Table.mem_of_positionsFirst held))

/-! ## What is read -/

variable {value : Text → Option (Document × Text)}

theorem keyed_of_readItems (each : ∀ t item rest, value t = some (item, rest) → item.Keyed)
    {fuel : Nat} {t rest : Text} (read : readItems value fuel t = some (items, rest)) :
    ∀ item ∈ items, item.Keyed := by
  induction fuel generalizing t items with
  | zero => cases read
  | succ fuel ih =>
    rw [readItems] at read
    obtain ⟨⟨item, behind⟩, first, read⟩ := Option.bind_eq_some_iff.1 read
    have here := each _ _ _ first
    dsimp only at read
    split at read
    · cases read
    split at read
    · obtain ⟨⟨others, behind⟩, later, read⟩ := Option.bind_eq_some_iff.1 read
      cases read
      exact List.forall_mem_cons.2 ⟨here, ih later⟩
    split at read
    · cases read
      exact List.forall_mem_singleton.2 here
    · cases read

theorem keyed_of_readFields (each : ∀ t item rest, value t = some (item, rest) → item.Keyed)
    {fuel : Nat} {t rest : Text} {entries : List (Text × Document)}
    (read : readFields value fuel t = some (entries, rest)) :
    ∀ entry ∈ entries, entry.2.Keyed := by
  induction fuel generalizing t entries with
  | zero => cases read
  | succ fuel ih =>
    rw [readFields] at read
    obtain ⟨opened, -, read⟩ := Option.bind_eq_some_iff.1 read
    obtain ⟨⟨key, behind⟩, -, read⟩ := Option.bind_eq_some_iff.1 read
    obtain ⟨separated, -, read⟩ := Option.bind_eq_some_iff.1 read
    obtain ⟨⟨item, behind⟩, first, read⟩ := Option.bind_eq_some_iff.1 read
    have here := each _ _ _ first
    dsimp only at read
    split at read
    · cases read
    split at read
    · obtain ⟨⟨others, behind⟩, later, read⟩ := Option.bind_eq_some_iff.1 read
      cases read
      exact List.forall_mem_cons.2 ⟨here, ih later⟩
    split at read
    · cases read
      exact List.forall_mem_singleton.2 here
    · cases read

theorem keyed_of_readValue {depth : Nat} {t rest : Text} {document : Document}
    (read : readValue depth t = some (document, rest)) : document.Keyed := by
  induction depth generalizing t rest document with
  | zero => cases read
  | succ depth ih =>
    have each (t : Text) (item : Document) (rest : Text)
        (read : readValue depth t = some (item, rest)) : item.Keyed := ih read
    rw [readValue] at read
    split at read
    · cases read
    split at read
    · split at read
      · cases read
      split at read
      · cases read
        exact .object (by decide) nofun
      · obtain ⟨⟨entries, behind⟩, inside, read⟩ := Option.map_eq_some_iff.1 read
        cases read
        exact keyed_ofFields (keyed_of_readFields each inside)
    split at read
    · split at read
      · cases read
      split at read
      · cases read
        exact .list nofun
      · obtain ⟨⟨items, behind⟩, inside, read⟩ := Option.map_eq_some_iff.1 read
        cases read
        exact .list (keyed_of_readItems each inside)
    split at read
    · obtain ⟨⟨t, behind⟩, -, read⟩ := Option.map_eq_some_iff.1 read
      cases read
      exact .text t
    split at read
    · obtain ⟨behind, -, read⟩ := Option.map_eq_some_iff.1 read
      cases read
      exact .bool true
    split at read
    · obtain ⟨behind, -, read⟩ := Option.map_eq_some_iff.1 read
      cases read
      exact .bool false
    split at read
    · obtain ⟨behind, -, read⟩ := Option.map_eq_some_iff.1 read
      cases read
      exact .null
    · obtain ⟨⟨n, behind⟩, -, read⟩ := Option.map_eq_some_iff.1 read
      cases read
      exact .number n

/-- Every object of a document that is read is in key order. -/
theorem keyed_of_read? {t : Text} {document : Document} (read : read? t = some document) :
    document.Keyed := by
  rw [read?] at read
  split at read
  · next found =>
    split at read
    · cases read
      exact keyed_of_readValue found
    · cases read
  · cases read

end Document

end Highlight
