import Highlight.Statement

/-!
# Blocks in a list of statements

A list of statements is a block tree from a depth on when, read from the top, blocks are closed
only after they were opened, every statement says how many blocks stand around it, and comments
and opened blocks come in pairs. `IsBlockTree` says this of positions in the list. `Blocks` is the
same shape as a derivation, which also keeps what is known of each line and of each block.

`Blocks.stands` is the bridge: it says what can stand at a position of a derived list, and
`Blocks.isBlockTree` reads the rest off it.
-/

namespace Highlight.Statement

/-- The statement opens a block. -/
def isBlockStart : Statement → Bool
  | blockStart .. => true
  | _ => false

/-- The statement closes a block. -/
def isBlockEnd : Statement → Bool
  | blockEnd _ => true
  | _ => false

/-- The binding of a statement that has one. -/
def binding? : Statement → Option Binding
  | rule _ binding | leave _ binding _ | blockStart _ binding => some binding
  | comment .. | blockEnd _ => none

/-- How many blocks a list of statements opens. -/
def opens (lines : List Statement) : Nat := lines.countP isBlockStart

/-- How many blocks a list of statements closes. -/
def closes (lines : List Statement) : Nat := lines.countP isBlockEnd

@[simp] theorem opens_nil : opens [] = 0 := rfl

@[simp] theorem closes_nil : closes [] = 0 := rfl

@[simp] theorem opens_cons (s : Statement) (lines : List Statement) :
    opens (s :: lines) = opens lines + if s.isBlockStart then 1 else 0 := List.countP_cons

@[simp] theorem closes_cons (s : Statement) (lines : List Statement) :
    closes (s :: lines) = closes lines + if s.isBlockEnd then 1 else 0 := List.countP_cons

@[simp] theorem opens_append (xs ys : List Statement) : opens (xs ++ ys) = opens xs + opens ys :=
  List.countP_append

@[simp] theorem closes_append (xs ys : List Statement) :
    closes (xs ++ ys) = closes xs + closes ys :=
  List.countP_append

/-- The statements are a block tree in blocks from `depth` on. A closing statement stands, like the
opening one, outside its block. -/
structure IsBlockTree (depth : Nat) (lines : List Statement) : Prop where
  closes_le : ∀ before after, lines = before ++ after → closes before ≤ opens before
  closes_eq : closes lines = opens lines
  depth_eq : ∀ before s after, lines = before ++ s :: after →
    s.depth + closes (before ++ [s]) = depth + opens before
  comment_opens : ∀ before d text after, lines = before ++ comment d text :: after →
    ∃ binding rest, after = blockStart d binding :: rest
  opens_commented : ∀ before d binding after, lines = before ++ blockStart d binding :: after →
    ∃ front text, before = front ++ [comment d text]

section Blocks

variable (Line : Statement → Prop) (Block : Nat → Text → Binding → List Statement → Prop)

/-- Statements derived at a depth: lines of which `Line` holds, and blocks under a comment, of
whose head and inside `Block` holds. -/
inductive Blocks : Nat → List Statement → Prop where
  | nil {d : Nat} : Blocks d []
  | rule {d : Nat} {binding : Binding} (line : Line (.rule d binding)) :
    Blocks d [.rule d binding]
  | leave {d : Nat} {binding : Binding} {count : Number} (line : Line (.leave d binding count)) :
    Blocks d [.leave d binding count]
  | append {d : Nat} {xs ys : List Statement} (left : Blocks d xs) (right : Blocks d ys) :
    Blocks d (xs ++ ys)
  | block {d : Nat} {text : Text} {binding : Binding} {inner : List Statement}
    (head : Block d text binding inner) (inside : Blocks (d + 1) inner) :
    Blocks d (.comment d text :: .blockStart d binding :: (inner ++ [.blockEnd d]))

/-- What can stand, at a level, between the statements before it and those after it. -/
inductive Stands : List Statement → Nat → Statement → List Statement → Prop where
  | rule {before after : List Statement} {e : Nat} {binding : Binding}
    (line : Line (.rule e binding)) : Stands before e (.rule e binding) after
  | leave {before after : List Statement} {e : Nat} {binding : Binding} {count : Number}
    (line : Line (.leave e binding count)) : Stands before e (.leave e binding count) after
  | comment {before inner rest : List Statement} {e : Nat} {text : Text} {binding : Binding} :
    Stands before e (.comment e text) (.blockStart e binding :: (inner ++ .blockEnd e :: rest))
  | blockStart (front rest : List Statement) {inner : List Statement} {e : Nat} {text : Text}
    {binding : Binding} (head : Block e text binding inner)
    (inside : Blocks Line Block (e + 1) inner) :
    Stands (front ++ [.comment e text]) e (.blockStart e binding) (inner ++ .blockEnd e :: rest)
  | blockEnd {before rest : List Statement} {e : Nat} : Stands before (e + 1) (.blockEnd e) rest

end Blocks

section Stands

variable {Line : Statement → Prop} {Block : Nat → Text → Binding → List Statement → Prop}

/-- A position stays what it is when statements are added at both ends. -/
theorem Stands.extend {before after : List Statement} {e : Nat} {s : Statement}
    (h : Stands Line Block before e s after) (pre post : List Statement) :
    Stands Line Block (pre ++ before) e s (after ++ post) := by
  cases h with
  | rule line => exact .rule line
  | leave line => exact .leave line
  | comment =>
    simp only [List.cons_append, List.append_assoc]
    exact .comment
  | blockStart front rest head inside =>
    have whole := Stands.blockStart (pre ++ front) (rest ++ post) head inside
    simpa only [List.append_assoc, List.cons_append] using whole
  | blockEnd => exact .blockEnd

/-- The depth that a statement tells is its level, or for a closing one the level outside. -/
theorem Stands.depth_eq {before after : List Statement} {e : Nat} {s : Statement}
    (h : Stands Line Block before e s after) : s.depth + (if s.isBlockEnd then 1 else 0) = e := by
  cases h <;> rfl

theorem position_singleton {α : Type} {x s : α} {before after : List α}
    (h : [x] = before ++ s :: after) : before = [] ∧ s = x ∧ after = [] := by
  cases before with
  | nil =>
    cases h
    exact ⟨rfl, rfl, rfl⟩
  | cons first before => simp at h

/-- Where a position of two joined lists lies. -/
theorem position_append {α : Type} {xs ys before after : List α} {s : α}
    (h : xs ++ ys = before ++ s :: after) :
    (∃ rest, xs = before ++ s :: rest ∧ after = rest ++ ys) ∨
      ∃ front, before = xs ++ front ∧ ys = front ++ s :: after := by
  rcases List.append_eq_append_iff.1 h with ⟨front, hb, hy⟩ | ⟨rest, hx, hs⟩
  · exact .inr ⟨front, hb, hy⟩
  · cases rest with
    | nil => exact .inr ⟨[], by simpa using hx.symm, by simpa using hs.symm⟩
    | cons t rest =>
      cases hs
      exact .inl ⟨rest, hx, rfl⟩

theorem Blocks.closes_eq {d : Nat} {lines : List Statement} (h : Blocks Line Block d lines) :
    closes lines = opens lines := by
  induction h with
  | nil => rfl
  | rule => rfl
  | leave => rfl
  | append _ _ left right => simp [left, right]
  | block _ _ inside => simp [isBlockStart, isBlockEnd, inside]

/-- What stands at a position of derived statements. Its level is the depth of the list and the
blocks that are open there. -/
theorem Blocks.stands {d : Nat} {lines : List Statement} (h : Blocks Line Block d lines)
    {before after : List Statement} {s : Statement} (located : lines = before ++ s :: after) :
    ∃ e, d ≤ e ∧ e + closes before = d + opens before ∧ Stands Line Block before e s after := by
  induction h generalizing before after with
  | nil => simp at located
  | rule line =>
    obtain ⟨rfl, rfl, rfl⟩ := position_singleton located
    exact ⟨_, Nat.le_refl _, rfl, .rule line⟩
  | leave line =>
    obtain ⟨rfl, rfl, rfl⟩ := position_singleton located
    exact ⟨_, Nat.le_refl _, rfl, .leave line⟩
  | @append d xs ys left right leftIH rightIH =>
    rcases position_append located with ⟨rest, hx, rfl⟩ | ⟨front, rfl, hy⟩
    · obtain ⟨e, le, level, stands⟩ := leftIH hx
      exact ⟨e, le, level, by simpa using stands.extend [] ys⟩
    · obtain ⟨e, le, level, stands⟩ := rightIH hy
      refine ⟨e, le, ?_, by simpa using stands.extend xs []⟩
      have balanced := left.closes_eq
      simp only [closes_append, opens_append]
      omega
  | @block d text binding inner head inside insideIH =>
    cases before with
    | nil =>
      cases located
      exact ⟨d, Nat.le_refl _, rfl, .comment⟩
    | cons first before =>
      obtain ⟨rfl, at₁⟩ := List.cons.inj located
      cases before with
      | nil =>
        cases at₁
        exact ⟨d, Nat.le_refl _, rfl, Stands.blockStart [] [] head inside⟩
      | cons second before =>
        obtain ⟨rfl, at₂⟩ := List.cons.inj at₁
        rcases position_append at₂ with ⟨rest, hi, rfl⟩ | ⟨front, rfl, he⟩
        · obtain ⟨e, le, level, stands⟩ := insideIH hi
          refine ⟨e, by omega, ?_, stands.extend [_, _] [_]⟩
          simp [isBlockStart, isBlockEnd]
          omega
        · obtain ⟨rfl, rfl, rfl⟩ := position_singleton he
          refine ⟨d + 1, by omega, ?_, .blockEnd⟩
          have balanced := inside.closes_eq
          simp [isBlockStart, isBlockEnd, balanced]
          omega

/-- Derived statements are a block tree. -/
theorem Blocks.isBlockTree {d : Nat} {lines : List Statement} (h : Blocks Line Block d lines) :
    IsBlockTree d lines where
  closes_le before after same := by
    cases after with
    | nil =>
      have balanced := h.closes_eq
      simp only [List.append_nil] at same
      rw [← same]
      omega
    | cons s after =>
      obtain ⟨e, le, level, -⟩ := h.stands same
      omega
  closes_eq := h.closes_eq
  depth_eq before s after same := by
    obtain ⟨e, -, level, stands⟩ := h.stands same
    have here := stands.depth_eq
    simp only [closes_append, closes_cons, closes_nil]
    omega
  comment_opens before d text after same := by
    obtain ⟨e, -, -, stands⟩ := h.stands same
    cases stands
    exact ⟨_, _, rfl⟩
  opens_commented before d binding after same := by
    obtain ⟨e, -, -, stands⟩ := h.stands same
    cases stands
    exact ⟨_, _, rfl⟩

end Stands

end Highlight.Statement
