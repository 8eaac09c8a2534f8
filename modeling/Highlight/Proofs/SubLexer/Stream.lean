import Highlight.Proofs.Regex.Reach
import Highlight.SubLexer.Machine

/-!
# The stream of tokens

The tokens of a run lie one behind the other, whatever states the run goes through: each step takes
a part of the text that starts where the part before ended (`Run.take_tiles`). Nothing is lost, so
that the tokens of a run that ends give the whole text.
-/

namespace Highlight

namespace SubLexer

variable {text : Array CodeUnit} {start middle stop : Nat}

theorem slice_eq (text : Array CodeUnit) (start stop : Nat) :
    slice text start stop = (text.toList.drop start).take (stop - start) := by
  rw [slice, Array.toList_extract, List.extract_eq_take_drop]

theorem length_slice (forward : start ≤ stop) (inside : stop ≤ text.size) :
    (slice text start stop).length = stop - start := by
  rw [slice, Array.length_toList, Array.size_extract]
  omega

theorem slice_to_end (text : Array CodeUnit) (start : Nat) :
    slice text start text.size = text.toList.drop start := by
  rw [slice_eq]
  apply List.take_of_length_le
  simp

theorem slice_append (first : start ≤ middle) (second : middle ≤ stop) :
    slice text start middle ++ slice text middle stop = slice text start stop := by
  rw [slice, slice, ← Array.toList_append, Array.extract_append_extract, Nat.min_eq_left first,
    Nat.max_eq_right second]
  rfl

end SubLexer

/-- Tokens that lie one behind the other in a text, from one place to another. -/
inductive Tiles (text : Array CodeUnit) : Nat → List Token → Nat → Prop
  | nil (place : Nat) : Tiles text place [] place
  | cons {start middle stop : Nat} {token : Token} {tokens : List Token}
    (offset : token.offset = start) (part : token.text = SubLexer.slice text start middle)
    (forward : start ≤ middle) (inside : middle ≤ text.size)
    (rest : Tiles text middle tokens stop) : Tiles text start (token :: tokens) stop

/-- Tokens that lie one behind the other from the start of a text. -/
structure Lossless (text : Text) (tokens : List Token) : Prop where
  first : ∀ token, tokens.head? = some token → token.offset = 0
  next : ∀ before left right after, tokens = before ++ left :: right :: after →
    right.offset = left.offset + left.text.length
  slice : ∀ token ∈ tokens, token.offset + token.text.length ≤ text.length ∧
    token.text = (text.drop token.offset).take token.text.length

namespace Tiles

variable {text : Array CodeUnit} {start stop : Nat} {tokens : List Token}

theorem forward (tiles : Tiles text start tokens stop) : start ≤ stop := by
  induction tiles with
  | nil place => exact Nat.le_refl place
  | cons _ _ forward _ _ ih => exact Nat.le_trans forward ih

theorem concat (tiles : Tiles text start tokens stop) :
    tokens.flatMap (·.text) = SubLexer.slice text start stop := by
  induction tiles with
  | nil place => simp [SubLexer.slice]
  | cons _ part forward _ rest ih =>
    rw [List.flatMap_cons, part, ih]
    exact SubLexer.slice_append forward rest.forward

theorem head (tiles : Tiles text start tokens stop) {token : Token}
    (first : tokens.head? = some token) : token.offset = start := by
  cases tiles with
  | nil => cases first
  | cons offset =>
    cases first
    exact offset

theorem next (tiles : Tiles text start tokens stop) {before after : List Token}
    {left right : Token} (parts : tokens = before ++ left :: right :: after) :
    right.offset = left.offset + left.text.length := by
  induction tiles generalizing before with
  | nil => simp at parts
  | cons offset part forward inside rest ih =>
    cases before with
    | nil =>
      obtain ⟨rfl, rfl⟩ := List.cons.inj parts
      have length := SubLexer.length_slice forward inside
      rw [rest.head rfl, offset, part, length]
      omega
    | cons token before => exact ih (List.cons.inj parts).2

theorem slice (tiles : Tiles text start tokens stop) {token : Token} (listed : token ∈ tokens) :
    token.offset + token.text.length ≤ text.size ∧
      token.text = (text.toList.drop token.offset).take token.text.length := by
  induction tiles with
  | nil => cases listed
  | cons offset part forward inside _ ih =>
    cases listed with
    | head =>
      have length := SubLexer.length_slice forward inside
      rw [← part] at length
      constructor
      · omega
      · rw [length, offset, part]
        exact SubLexer.slice_eq ..
    | tail _ listed => exact ih listed

theorem lossless {text : Text} (tiles : Tiles text.toArray 0 tokens stop) :
    Lossless text tokens where
  first _ := tiles.head
  next _ _ _ _ := tiles.next
  slice token listed := by simpa using tiles.slice listed

end Tiles

namespace SubLexer

theorem firstMatch_ahead {rules : List ActiveRule} {text : Array CodeUnit} {position stop : Nat}
    {rule : LexRule} (inside : position ≤ text.size)
    (found : firstMatch rules text position = some (rule, stop)) :
    position ≤ stop ∧ stop ≤ text.size := by
  obtain ⟨active, _, found⟩ := List.exists_of_findSome?_eq_some found
  obtain ⟨last, matched, same⟩ := Option.map_eq_some_iff.1 found
  cases same
  have ahead := Regex.matchAt_reach _ inside matched
  exact ⟨ahead.behind, ahead.inside⟩

theorem follow_position (m : Machine) (move : Move) : (m.follow move).position = m.position := by
  unfold Machine.follow
  split
  · rfl
  · rfl
  · split <;> rfl

/-- A step takes the part of the text from where the machine stood to where it stands then. -/
theorem step_part (lexer : SubLexer) {text : Array CodeUnit} {m : Machine}
    (inside : m.position ≤ text.size) :
    (lexer.step text m).1.offset = m.position ∧
      (lexer.step text m).1.text = slice text m.position (lexer.step text m).2.position ∧
      m.position ≤ (lexer.step text m).2.position ∧
      (lexer.step text m).2.position ≤ text.size := by
  unfold step
  split
  · exact ⟨rfl, rfl, inside, Nat.le_refl _⟩
  · rename_i rule stop found
    obtain ⟨forward, within⟩ := firstMatch_ahead inside found
    rw [follow_position]
    exact ⟨rfl, rfl, forward, within⟩

end SubLexer

namespace Run

variable {run run' last : Run} {token : Token} {tokens : List Token} {count : Nat}

/-- The run after one step. -/
def stepped (run : Run) : Run :=
  { run with machine := (run.lexer.step run.text run.machine).2 }

theorem next_ended (ended : run.text.size ≤ run.machine.position) : run.next = .ok none := by
  simp [Run.next, SubLexer.next, Array.getElem?_eq_none ended, Except.map]

theorem next_named (left : run.machine.position < run.text.size) (named : run.machine.state ≠ []) :
    run.next = .ok (some ((run.lexer.step run.text run.machine).1, run.stepped)) := by
  simp [Run.next, SubLexer.next, Array.getElem?_eq_getElem left, named, Except.map, stepped]

theorem next_nameless (left : run.machine.position < run.text.size)
    (nameless : run.machine.state = []) : ∃ breakdown, run.next = .error breakdown := by
  simp [Run.next, SubLexer.next, Array.getElem?_eq_getElem left, nameless, Except.map]

theorem next_eq_some (next : run.next = .ok (some (token, run'))) :
    run.machine.position < run.text.size ∧
      token = (run.lexer.step run.text run.machine).1 ∧ run' = run.stepped := by
  by_cases left : run.machine.position < run.text.size
  · by_cases named : run.machine.state = []
    · obtain ⟨breakdown, broken⟩ := next_nameless left named
      rw [broken] at next
      cases next
    · rw [next_named left named] at next
      cases next
      exact ⟨left, rfl, rfl⟩
  · rw [next_ended (by omega)] at next
    cases next

theorem next_eq_none (next : run.next = .ok none) : run.text.size ≤ run.machine.position := by
  by_cases left : run.machine.position < run.text.size
  · by_cases named : run.machine.state = []
    · obtain ⟨breakdown, broken⟩ := next_nameless left named
      rw [broken] at next
      cases next
    · rw [next_named left named] at next
      cases next
  · omega

theorem take_ended (next : run.next = .ok none) (count : Nat) : run.take count = .ok ([], run) := by
  cases count with
  | zero => rfl
  | succ count =>
    rw [take, next]
    rfl

theorem take_next (next : run.next = .ok (some (token, run'))) (count : Nat) :
    run.take (count + 1) =
      (run'.take count).map fun (tokens, last) => (token :: tokens, last) := by
  rw [take, next]
  show (run'.take count >>= _) = _
  cases run'.take count <;> rfl

theorem take_cases (taken : run.take (count + 1) = .ok (tokens, last)) :
    (run.next = .ok none ∧ tokens = [] ∧ last = run) ∨
      ∃ token rest, run.next = .ok (some (token, run.stepped)) ∧
        run.stepped.take count = .ok (rest, last) ∧ tokens = token :: rest := by
  cases next : run.next with
  | error breakdown =>
    rw [take, next] at taken
    cases taken
  | ok result =>
    cases result with
    | none =>
      rw [take_ended next] at taken
      cases taken
      exact .inl ⟨rfl, rfl, rfl⟩
    | some result =>
      obtain ⟨token, run'⟩ := result
      obtain ⟨_, _, rfl⟩ := next_eq_some next
      rw [take_next next] at taken
      cases rest : run.stepped.take count with
      | error breakdown =>
        rw [rest] at taken
        cases taken
      | ok result =>
        rw [rest] at taken
        cases taken
        exact .inr ⟨token, result.1, rfl, rfl, rfl⟩

/-- The tokens that are taken cover the text between the places of the run. -/
theorem take_tiles (inside : run.machine.position ≤ run.text.size)
    (taken : run.take count = .ok (tokens, last)) :
    Tiles run.text run.machine.position tokens last.machine.position ∧
      last.machine.position ≤ run.text.size ∧ last.text = run.text ∧ last.lexer = run.lexer := by
  induction count generalizing run tokens with
  | zero =>
    cases taken
    exact ⟨.nil _, inside, rfl, rfl⟩
  | succ count ih =>
    obtain ⟨_, rfl, rfl⟩ | ⟨token, rest, next, others, rfl⟩ := take_cases taken
    · exact ⟨.nil _, inside, rfl, rfl⟩
    · obtain ⟨_, rfl, _⟩ := next_eq_some next
      obtain ⟨offset, part, forward, within⟩ := run.lexer.step_part inside
      have stands : run.stepped.machine.position ≤ run.stepped.text.size := within
      obtain ⟨tiles, stop, same⟩ := ih stands others
      exact ⟨.cons offset part forward within tiles, stop, same⟩

/-- Fewer tokens than were asked for are all there are. -/
theorem take_short (taken : run.take count = .ok (tokens, last)) (short : tokens.length < count) :
    last.next = .ok none := by
  induction count generalizing run tokens with
  | zero => omega
  | succ count ih =>
    obtain ⟨ended, _, rfl⟩ | ⟨token, rest, _, others, rfl⟩ := take_cases taken
    · exact ended
    · exact ih others (Nat.lt_of_succ_lt_succ short)

/-- After the first tokens, the others are those of the run from there. -/
theorem take_split {before : List Token} {middle : Run}
    (started : run.take before.length = .ok (before, middle))
    (taken : run.take count = .ok (tokens, last)) (le : before.length ≤ count) :
    ∃ after, tokens = before ++ after ∧
      middle.take (count - before.length) = .ok (after, last) := by
  induction before generalizing run tokens count with
  | nil =>
    cases started
    exact ⟨tokens, rfl, taken⟩
  | cons first before ih =>
    obtain ⟨_, absurd, _⟩ | ⟨token, rest, next, started, same⟩ := take_cases started
    · cases absurd
    · obtain ⟨rfl, rfl⟩ := List.cons.inj same
      cases count with
      | zero => simp at le
      | succ count =>
        obtain ⟨ended, _⟩ | ⟨token, rest, next', others, rfl⟩ := take_cases taken
        · rw [next] at ended
          cases ended
        · rw [next] at next'
          cases next'
          obtain ⟨after, rfl, remaining⟩ := ih started others (Nat.le_of_succ_le_succ le)
          exact ⟨after, rfl, by rwa [List.length_cons, Nat.add_sub_add_right]⟩

/-- There is text left, and no rule of the state matches where the run stands. -/
structure Unmatched (run : Run) : Prop where
  left : run.machine.position < run.text.size
  none : SubLexer.firstMatch (run.lexer.rulesOf run.machine.state) run.text
    run.machine.position = none

/-- Text that no rule matches is one token to the end of the text, and the last one. -/
theorem take_unmatched (unmatched : run.Unmatched)
    (taken : run.take (count + 1) = .ok (tokens, last)) :
    tokens = [⟨.error, SubLexer.slice run.text run.machine.position run.text.size,
      run.machine.position⟩] ∧ last.next = .ok none := by
  have step : run.lexer.step run.text run.machine =
      (⟨.error, SubLexer.slice run.text run.machine.position run.text.size,
        run.machine.position⟩, { run.machine with position := run.text.size }) := by
    rw [SubLexer.step, unmatched.none]
  obtain ⟨ended, _⟩ | ⟨token, rest, next, others, rfl⟩ := take_cases taken
  · have := next_eq_none ended
    have := unmatched.left
    omega
  · obtain ⟨_, rfl, _⟩ := next_eq_some next
    have ended : run.stepped.next = .ok none := by
      apply next_ended
      simp [stepped, step]
    rw [take_ended ended] at others
    cases others
    exact ⟨by rw [step], ended⟩

end Run

end Highlight
