import Highlight.Text.Basic
import Mathlib.Data.List.Forall2

/-!
# Steps that may fail

How a step that succeeded or failed is taken apart, so that later proofs never open the error monad.
-/

namespace Highlight

variable {ε α β : Type}

/-- Two branches on one condition are related as their cases are. -/
theorem rel_ite {R : α → β → Prop} {p : Prop} [Decidable p] {x x' : α} {y y' : β}
    (yes : p → R x y) (no : ¬p → R x' y') : R (if p then x else x') (if p then y else y') := by
  by_cases holds : p
  · rw [if_pos holds, if_pos holds]
    exact yes holds
  · rw [if_neg holds, if_neg holds]
    exact no holds

/-- A sequence of results is one if both of its parts are. -/
theorem except_bind_eq_ok_iff {e : Except ε α} {next : α → Except ε β} {b : β} :
    (e >>= next) = .ok b ↔ ∃ a, e = .ok a ∧ next a = .ok b := by
  constructor
  · intro h
    cases e with
    | error e => cases h
    | ok a => exact ⟨a, rfl, h⟩
  · rintro ⟨a, rfl, h⟩
    exact h

theorem except_map_eq_ok_iff {e : Except ε α} {f : α → β} {b : β} :
    e.map f = .ok b ↔ ∃ a, e = .ok a ∧ b = f a := by
  cases e with
  | error x => exact ⟨nofun, nofun⟩
  | ok a =>
    constructor
    · intro same
      cases same
      exact ⟨a, rfl, rfl⟩
    · rintro ⟨a, same, rfl⟩
      cases same
      rfl

theorem except_mapError_eq_ok_iff {δ : Type} {e : Except ε α} {f : ε → δ} {a : α} :
    e.mapError f = .ok a ↔ e = .ok a := by
  cases e with
  | error x => exact ⟨nofun, nofun⟩
  | ok b =>
    constructor <;> intro same <;> cases same <;> rfl

theorem except_map_eq_error_iff {e : Except ε α} {f : α → β} {x : ε} :
    e.map f = .error x ↔ e = .error x := by
  cases e with
  | error y =>
    constructor <;> intro same <;> cases same <;> rfl
  | ok a => exact ⟨nofun, nofun⟩

/-- A sequence fails if its first part does, or its second part behind a first one that succeeds. -/
theorem except_bind_eq_error_iff {e : Except ε α} {next : α → Except ε β} {x : ε} :
    (e >>= next) = .error x ↔ e = .error x ∨ ∃ a, e = .ok a ∧ next a = .error x := by
  cases e with
  | error y =>
    constructor
    · intro h
      cases h
      exact .inl rfl
    · rintro (h | ⟨a, absurd, -⟩)
      · cases h
        rfl
      · cases absurd
  | ok a =>
    constructor
    · intro h
      exact .inr ⟨a, rfl, h⟩
    · rintro (absurd | ⟨b, same, h⟩)
      · cases absurd
      · cases same
        exact h

/-- What a list of steps gives was given by one of them. -/
theorem exists_of_mapM_eq_ok {f : α → Except ε β} {xs : List α} {ys : List β}
    (mapped : xs.mapM f = .ok ys) {y : β} (inside : y ∈ ys) : ∃ x ∈ xs, f x = .ok y := by
  induction xs generalizing ys with
  | nil =>
    cases mapped
    cases inside
  | cons x xs ih =>
    rw [List.mapM_cons] at mapped
    obtain ⟨first, gives, mapped⟩ := except_bind_eq_ok_iff.1 mapped
    obtain ⟨rest, others, mapped⟩ := except_bind_eq_ok_iff.1 mapped
    cases mapped
    cases inside with
    | head => exact ⟨x, List.mem_cons_self, gives⟩
    | tail _ inside =>
      obtain ⟨x, listed, gives⟩ := ih others inside
      exact ⟨x, List.mem_cons_of_mem _ listed, gives⟩

/-- Each of a list of steps that all succeed gives something. -/
theorem mem_of_mapM_eq_ok {f : α → Except ε β} {xs : List α} {ys : List β}
    (mapped : xs.mapM f = .ok ys) {x : α} (inside : x ∈ xs) : ∃ y ∈ ys, f x = .ok y := by
  induction xs generalizing ys with
  | nil => cases inside
  | cons first xs ih =>
    rw [List.mapM_cons] at mapped
    obtain ⟨y, gives, mapped⟩ := except_bind_eq_ok_iff.1 mapped
    obtain ⟨rest, others, mapped⟩ := except_bind_eq_ok_iff.1 mapped
    cases mapped
    cases inside with
    | head => exact ⟨y, List.mem_cons_self, gives⟩
    | tail _ inside =>
      obtain ⟨y, listed, gives⟩ := ih others inside
      exact ⟨y, List.mem_cons_of_mem _ listed, gives⟩

/-- A list of steps that all succeed gives one result for each of them, in order. -/
theorem forall₂_of_mapM_eq_ok {f : α → Except ε β} {xs : List α} {ys : List β}
    (mapped : xs.mapM f = .ok ys) : List.Forall₂ (fun x y => f x = .ok y) xs ys := by
  induction xs generalizing ys with
  | nil =>
    cases mapped
    exact .nil
  | cons x xs ih =>
    rw [List.mapM_cons] at mapped
    obtain ⟨first, gives, mapped⟩ := except_bind_eq_ok_iff.1 mapped
    obtain ⟨rest, others, mapped⟩ := except_bind_eq_ok_iff.1 mapped
    cases mapped
    exact .cons gives (ih others)

/-- A list of steps gives a list just if each of its steps gives the item there. -/
theorem mapM_eq_ok_iff {f : α → Except ε β} {xs : List α} {ys : List β} :
    xs.mapM f = .ok ys ↔ List.Forall₂ (fun x y => f x = .ok y) xs ys := by
  refine ⟨forall₂_of_mapM_eq_ok, fun each => ?_⟩
  induction each with
  | nil => rfl
  | cons gives _ ih => rw [List.mapM_cons, gives, ih]; rfl

/-- Each member of the second of two lists that go together has one of the first beside it. -/
theorem exists_of_forall₂ {R : α → β → Prop} {xs : List α} {ys : List β} {y : β}
    (each : List.Forall₂ R xs ys) (listed : y ∈ ys) : ∃ x, R x y := by
  induction each with
  | nil => cases listed
  | cons here _ ih =>
    obtain rfl | listed := List.mem_cons.1 listed
    · exact ⟨_, here⟩
    · exact ih listed

/-- The error of a step that failed. -/
def failure? : Except ε α → Option ε
  | .ok _ => none
  | .error e => some e

theorem failure?_map (result : Except ε α) (f : α → β) :
    failure? (result.map f) = failure? result := by
  cases result <;> rfl

/-- A list of steps fails with the error of the first one that fails. -/
theorem failure?_mapM (f : α → Except ε β) (xs : List α) :
    failure? (xs.mapM f) = xs.findSome? fun x => failure? (f x) := by
  induction xs with
  | nil => rfl
  | cons x xs ih =>
    rw [List.mapM_cons, List.findSome?_cons, ← ih]
    cases f x with
    | error e => rfl
    | ok y =>
      cases xs.mapM f <;> rfl

/-- A list of steps that fails has a step that fails so. -/
theorem exists_of_mapM_eq_error {f : α → Except ε β} {xs : List α} {e : ε}
    (mapped : xs.mapM f = .error e) : ∃ x ∈ xs, f x = .error e := by
  have failed := failure?_mapM f xs
  rw [mapped] at failed
  obtain ⟨x, listed, fails⟩ := List.exists_of_findSome?_eq_some failed.symm
  refine ⟨x, listed, ?_⟩
  cases step : f x with
  | ok y =>
    rw [step] at fails
    cases fails
  | error other =>
    rw [step] at fails
    cases fails
    rfl

/-- Steps that all succeed give what each of them gives. -/
theorem eq_map_of_mapM_eq_ok {f : α → Except ε β} {g : α → β} {xs : List α} {ys : List β}
    (mapped : xs.mapM f = .ok ys) (gives : ∀ x y, f x = .ok y → y = g x) : ys = xs.map g := by
  induction xs generalizing ys with
  | nil =>
    cases mapped
    rfl
  | cons x xs ih =>
    rw [List.mapM_cons] at mapped
    obtain ⟨first, here, mapped⟩ := except_bind_eq_ok_iff.1 mapped
    obtain ⟨rest, others, mapped⟩ := except_bind_eq_ok_iff.1 mapped
    cases mapped
    rw [List.map_cons, gives x first here, ih others]

theorem eq_ok_of_toOption {result : Except ε α} {a : α} (some : result.toOption = some a) :
    result = .ok a := by
  cases result with
  | error e => cases some
  | ok b =>
    cases some
    rfl

end Highlight
