import Highlight.Proofs.Compilation.History
import Highlight.Proofs.SubLexer.Names

/-!
# Streams that are read by turns

All that a stream gives depends on the run it would take its next token from (`TokenStream.run?`,
`TokenStream.answers_eq`), and a call of one stream leaves that run of another as it was, unless both
read from one sub-lexer, the one that is called has not ended and the other has begun
(`TokenStream.run?_call`). So streams on different sub-lexers answer as if each were alone. On one
sub-lexer a stream that begins takes the run away from one that has not ended, and from then on the
answers that it would have given alone are dealt to the calls of both (`TokenStream.Shared`).
`Context.together_dealt` is what two streams give under any order of calls, and
`Context.together_mixed` two streams that do not get their own tokens.
-/

namespace Highlight

/-- What a call of a stream gives: a token, nothing at the end, or an error. -/
abbrev Answer := Except GrammarError (Option Token)

namespace Run

variable {run after : Run} {token : Token}

/-- What a run gives to calls: its tokens, and nothing once it has ended or broken down. -/
def answers : Run → Nat → List Answer
  | _, 0 => []
  | run, count + 1 =>
    match run.next with
    | .error cause => .error (.ofFault (.breakdown cause)) :: List.replicate count (.ok none)
    | .ok none => .ok none :: List.replicate count (.ok none)
    | .ok (some (token, after)) => .ok (some token) :: answers after count

theorem answers_ended (ended : run.next = .ok none) (count : Nat) :
    run.answers count = List.replicate count (.ok none) := by
  cases count with
  | zero => rfl
  | succ count =>
    rw [answers, ended]
    rfl

theorem answers_next (next : run.next = .ok (some (token, after))) (count : Nat) :
    run.answers (count + 1) = .ok (some token) :: after.answers count := by
  rw [answers, next]

/-- A run that gives a token does not start in a state without a name. -/
theorem state_of_answers {count : Nat} {answers : List Answer}
    (given : run.answers (count + 1) = .ok (some token) :: answers) : run.machine.state ≠ [] := by
  intro nameless
  rw [Run.answers] at given
  by_cases left : run.machine.position < run.text.size
  · obtain ⟨cause, broken⟩ := next_nameless left nameless
    rw [broken] at given
    cases given
  · rw [next_ended (Nat.le_of_not_lt left)] at given
    cases given

end Run

namespace TokenStream

variable {stream other : TokenStream} {σ : Session} {run after : Run} {token : Token}

/-- A call of a stream. A stream that broke down has ended. -/
def call (stream : TokenStream) (σ : Session) : Answer × TokenStream × Session :=
  match stream.next.run.run σ with
  | (.ok (token, stream), σ) => (.ok token, stream, σ)
  | (.error e, σ) => (.error e, stream.ended, σ)

/-- The run from which the next token of a stream is taken. -/
def run? (stream : TokenStream) (σ : Session) : Option Run :=
  if stream.finished then none else (Table.get? σ stream.key).map stream.resume

theorem call_idle (idle : stream.run? σ = none) :
    stream.call σ = (.ok none, { stream with finished := true }, σ) := by
  unfold run? at idle
  rw [call, next_run]
  by_cases finished : stream.finished = true
  · rw [if_pos finished]
    obtain ⟨key, text, started, _⟩ := stream
    cases finished
    rfl
  · rw [if_neg finished] at idle ⊢
    rw [Option.map_eq_none_iff.1 idle]

theorem call_running (held : stream.run? σ = some run) :
    stream.call σ = match run.next with
      | .error cause =>
        (.error (.ofFault (.breakdown cause)), stream.ended, Table.set σ stream.key run)
      | .ok none => (.ok none, stream.ended, Table.set σ stream.key run)
      | .ok (some (token, after)) =>
        (.ok (some token), { stream with started := true },
          Table.set (Table.set σ stream.key run) stream.key after) := by
  unfold run? at held
  rw [call, next_run]
  by_cases finished : stream.finished = true
  · rw [if_pos finished] at held
    cases held
  · rw [if_neg finished] at held ⊢
    obtain ⟨kept, found, rfl⟩ := Option.map_eq_some_iff.1 held
    rw [found]
    dsimp only
    rcases (stream.resume kept).next with cause | _ | ⟨token, after⟩ <;> rfl

theorem key_call (stream : TokenStream) (σ : Session) : (stream.call σ).2.1.key = stream.key := by
  cases held : stream.run? σ with
  | none => rw [call_idle held]
  | some run =>
    rw [call_running held]
    rcases run.next with cause | _ | ⟨token, after⟩ <;> rfl

/-- A call changes what is kept for its own sub-lexer only. -/
theorem get?_call {key : Text} (differs : stream.key ≠ key) :
    Table.get? (stream.call σ).2.2 key = Table.get? σ key := by
  cases held : stream.run? σ with
  | none => rw [call_idle held]
  | some run =>
    rw [call_running held]
    rcases run.next with cause | _ | ⟨token, after⟩ <;>
      simp only [Table.get?_set, if_neg differs]

theorem lexer?_call (stream : TokenStream) (σ : Session) (key : Text) :
    Session.lexer? (stream.call σ).2.2 key = σ.lexer? key := by
  rw [← stream.next_lexer? σ key, call]
  rcases stream.next.run.run σ with ⟨e | ⟨token, stream⟩, τ⟩ <;> rfl

/-- A stream that has not begun starts a run of the lexer that is kept for it. -/
theorem run?_fresh (fresh : stream.started = false) (unfinished : stream.finished = false) :
    stream.run? σ = (σ.lexer? stream.key).map fun lexer => Run.start lexer stream.text := by
  unfold run? Session.lexer? resume
  rw [unfinished, fresh, Option.map_map]
  rfl

/-- One of two streams can be called without harm to the other. -/
def Spares (stream other : TokenStream) : Prop :=
  stream.key ≠ other.key ∨ stream.finished = true ∨ other.finished = true ∨ other.started = false

/-- A call leaves the run of another stream, unless that one has begun on the same sub-lexer and
neither has ended. -/
theorem run?_call (spares : stream.Spares other) :
    other.run? (stream.call σ).2.2 = other.run? σ := by
  obtain differs | ended | ended | fresh := spares
  · unfold run?
    rw [get?_call differs]
  · rw [call_idle (if_pos ended)]
  · unfold run?
    rw [if_pos ended, if_pos ended]
  · by_cases ended : other.finished = true
    · unfold run?
      rw [if_pos ended, if_pos ended]
    · rw [Bool.not_eq_true] at ended
      rw [run?_fresh fresh ended, run?_fresh fresh ended, lexer?_call]

/-- The answers of a stream to a number of calls, and what they leave. -/
def calls : Nat → TokenStream → Session → List Answer × TokenStream × Session
  | 0, stream, σ => ([], stream, σ)
  | count + 1, stream, σ =>
    let (answer, stream, σ) := stream.call σ
    let (answers, stream, σ) := calls count stream σ
    (answer :: answers, stream, σ)

theorem calls_succ (stream : TokenStream) (count : Nat) (σ : Session) :
    stream.calls (count + 1) σ =
      ((stream.call σ).1 :: ((stream.call σ).2.1.calls count (stream.call σ).2.2).1,
        ((stream.call σ).2.1.calls count (stream.call σ).2.2).2) := rfl

theorem calls_add (stream : TokenStream) (σ : Session) (first count : Nat) :
    (stream.calls (first + count) σ).1 = (stream.calls first σ).1 ++
      ((stream.calls first σ).2.1.calls count (stream.calls first σ).2.2).1 := by
  induction first generalizing stream σ with
  | zero => rw [Nat.zero_add, calls, List.nil_append]
  | succ first ih => rw [Nat.succ_add, calls_succ, calls_succ, ih, List.cons_append]

theorem length_calls (stream : TokenStream) (count : Nat) (σ : Session) :
    (stream.calls count σ).1.length = count := by
  induction count generalizing stream σ with
  | zero => rfl
  | succ count ih => rw [calls_succ, List.length_cons, ih]

theorem key_calls (stream : TokenStream) (count : Nat) (σ : Session) :
    (stream.calls count σ).2.1.key = stream.key := by
  induction count generalizing stream σ with
  | zero => rfl
  | succ count ih => rw [calls_succ, ih, key_call]

/-- Calls leave the run that a stream will begin with. -/
theorem run?_calls (fresh : other.started = false) (count : Nat) :
    other.run? (stream.calls count σ).2.2 = other.run? σ := by
  induction count generalizing stream σ with
  | zero => rfl
  | succ count ih => rw [calls_succ, ih, run?_call (.inr (.inr (.inr fresh)))]

theorem run?_finished (finished : stream.finished = true) : stream.run? σ = none :=
  if_pos finished

theorem finish_finished (finished : stream.finished = true) :
    { stream with finished := true } = stream := by
  obtain ⟨key, text, started, _⟩ := stream
  cases finished
  rfl

theorem call_finished (finished : stream.finished = true) : stream.call σ = (.ok none, stream, σ) := by
  rw [call_idle (run?_finished finished), finish_finished finished]

theorem calls_finished (finished : stream.finished = true) (count : Nat) :
    stream.calls count σ = (List.replicate count (.ok none), stream, σ) := by
  induction count with
  | zero => rfl
  | succ count ih =>
    rw [calls_succ, call_finished finished, ih]
    rfl

theorem unfinished_of_run? (held : stream.run? σ = some run) : stream.finished ≠ true := by
  intro finished
  rw [run?_finished finished] at held
  cases held

/-- After a token, a stream goes on from the run behind it. -/
theorem run?_of_token (held : stream.run? σ = some run)
    (next : run.next = .ok (some (token, after))) :
    (stream.call σ).2.1.run? (stream.call σ).2.2 = some after := by
  rw [call_running held, next]
  dsimp only [run?]
  rw [if_neg (unfinished_of_run? held), Table.get?_set, if_pos rfl]
  rfl

/-- The answers of a stream are those of the run that it goes on with. -/
theorem answers_eq (stream : TokenStream) (σ : Session) (count : Nat) :
    (stream.calls count σ).1 = match stream.run? σ with
      | none => List.replicate count (.ok none)
      | some run => run.answers count := by
  induction count generalizing stream σ with
  | zero => cases stream.run? σ <;> rfl
  | succ count ih =>
    cases held : stream.run? σ with
    | none =>
      rw [calls_succ, call_idle held, calls_finished rfl]
      rfl
    | some run =>
      have called := call_running held
      rw [calls_succ]
      dsimp only
      rw [Run.answers]
      rcases next : run.next with cause | _ | ⟨token, after⟩
      · rw [called, next, calls_finished rfl]
      · rw [called, next, calls_finished rfl]
      · rw [ih, run?_of_token held next, called, next]

theorem answers_of_run? (held : stream.run? σ = some run) (count : Nat) :
    (stream.calls count σ).1 = run.answers count := by
  rw [answers_eq, held]

/-- Streams with the same run give the same. -/
theorem answers_congr {τ : Session} (same : stream.run? σ = other.run? τ) (count : Nat) :
    (stream.calls count σ).1 = (other.calls count τ).1 := by
  rw [answers_eq, answers_eq, same]

section Turns

variable {ι : Type} [DecidableEq ι] {streams : ι → TokenStream}

/-- Streams that are called in some order: each answer, by the stream that gave it. -/
def turns : (ι → TokenStream) → Session → List ι → List (ι × Answer)
  | _, _, [] => []
  | streams, σ, which :: calls =>
    let (answer, stream, σ) := (streams which).call σ
    (which, answer) :: turns (Function.update streams which stream) σ calls

/-- The answers that one of the streams gave. -/
def answersOf (which : ι) (answers : List (ι × Answer)) : List Answer :=
  answers.filterMap fun answer => if answer.1 = which then some answer.2 else none

theorem turns_cons (streams : ι → TokenStream) (σ : Session) (which : ι) (order : List ι) :
    turns streams σ (which :: order) = [((streams which).call σ).1].map (which, ·) ++
      turns (Function.update streams which ((streams which).call σ).2.1)
        ((streams which).call σ).2.2 order := rfl

theorem answersOf_append (which : ι) (left right : List (ι × Answer)) :
    answersOf which (left ++ right) = answersOf which left ++ answersOf which right :=
  List.filterMap_append

theorem answersOf_own (which : ι) (answers : List Answer) :
    answersOf which (answers.map (which, ·)) = answers := by
  simp [answersOf, List.filterMap_map]

theorem answersOf_other {which other : ι} (apart : other ≠ which) (answers : List Answer) :
    answersOf which (answers.map (other, ·)) = [] := by
  simp [answersOf, List.filterMap_map, apart]

/-- Streams of which no two have begun on one sub-lexer without having ended. -/
def Separate (streams : ι → TokenStream) : Prop :=
  ∀ which other, which ≠ other → (streams which).key ≠ (streams other).key ∨
    (streams which).finished = true ∨ (streams other).finished = true

theorem Separate.call (separate : Separate streams) (called : ι) (σ : Session) :
    Separate (Function.update streams called ((streams called).call σ).2.1) := by
  have key (which : ι) : (Function.update streams called ((streams called).call σ).2.1 which).key =
      (streams which).key := by
    rw [Function.update_apply]
    split
    · next same => rw [same, key_call]
    · rfl
  have finished (which : ι) (ended : (streams which).finished = true) :
      (Function.update streams called ((streams called).call σ).2.1 which).finished = true := by
    rw [Function.update_apply]
    split
    · next same => rw [call_finished (same ▸ ended), ← same, ended]
    · exact ended
  intro which other apart
  rw [key, key]
  exact (separate which other apart).imp_right (.imp (finished which) (finished other))

/-- Separate streams answer as each would alone, whatever the order of calls. -/
theorem Separate.answersOf_turns (separate : Separate streams) (σ : Session) (order : List ι)
    (which : ι) : answersOf which (turns streams σ order) =
      ((streams which).calls (order.count which) σ).1 := by
  induction order generalizing streams σ with
  | nil => rfl
  | cons called order ih =>
    have rest := ih (separate.call called σ) ((streams called).call σ).2.2
    rw [turns_cons, answersOf_append, rest]
    by_cases own : called = which
    · subst own
      rw [Function.update_self, List.count_cons_self, calls_succ]
      rw [answersOf_own]
      rfl
    · have spares : (streams called).Spares (streams which) :=
        (separate called which own).imp_right (.imp_right .inl)
      rw [Function.update_of_ne (Ne.symm own), List.count_cons_of_ne own, answersOf_other own,
        answers_congr (run?_call spares)]
      rfl

/-- A stream that is called a number of times before the others. -/
theorem turns_replicate (streams : ι → TokenStream) (σ : Session) (which : ι) (count : Nat)
    (order : List ι) : turns streams σ (List.replicate count which ++ order) =
      ((streams which).calls count σ).1.map (which, ·) ++
        turns (Function.update streams which ((streams which).calls count σ).2.1)
          ((streams which).calls count σ).2.2 order := by
  induction count generalizing streams σ with
  | zero => simp [calls]
  | succ count ih =>
    rw [List.replicate_succ, List.cons_append, turns_cons, ih, Function.update_self,
      Function.update_idem, calls_succ, List.map_cons]
    rfl

/-- Streams that have all begun on one sub-lexer, so that they go on with one run. -/
structure Shared (streams : ι → TokenStream) (σ : Session) (run : Run) : Prop where
  key : ∀ which other, (streams which).key = (streams other).key
  started : ∀ which, (streams which).started = true
  kept : ∀ which, Table.get? σ (streams which).key = some run
  ended : ∀ which, (streams which).finished = true → run.next = .ok none
  lexer : run.lexer.Named
  stands : run.machine.Named

/-- A stream takes over the run for all that have begun on its sub-lexer. -/
theorem shared_update {which : ι} {τ : Session}
    (key : ∀ one other, (streams one).key = (streams other).key)
    (started : ∀ other, other ≠ which → (streams other).started = true)
    (ended : ∀ other, other ≠ which → (streams other).finished = true → after.next = .ok none)
    (own : stream.key = (streams which).key) (begun : stream.started = true)
    (kept : Table.get? τ (streams which).key = some after)
    (spent : stream.finished = true → after.next = .ok none) (lexer : after.lexer.Named)
    (stands : after.machine.Named) : Shared (Function.update streams which stream) τ after := by
  have keys : ∀ other, (Function.update streams which stream other).key = (streams which).key :=
    (Function.forall_update_iff streams fun _ s => s.key = (streams which).key).2
      ⟨own, fun other _ => key other which⟩
  refine ⟨fun one other => (keys one).trans (keys other).symm, ?_, ?_, ?_, lexer, stands⟩
  · exact (Function.forall_update_iff streams fun _ s => s.started = true).2 ⟨begun, started⟩
  · intro other
    rw [keys]
    exact kept
  · exact (Function.forall_update_iff streams fun _ s => s.finished = true → after.next = _).2
      ⟨spent, ended⟩

/-- When one stream is called and all others have begun, those that have not ended go on behind what
it took. -/
theorem shared_of_call {which : ι} (key : ∀ one other, (streams one).key = (streams other).key)
    (started : ∀ other, other ≠ which → (streams other).started = true)
    (ended : ∀ other, other ≠ which → (streams other).finished = true → run.next = .ok none)
    (held : (streams which).run? σ = some run) (lexer : run.lexer.Named)
    (stands : run.machine.Named) :
    ∃ after, Shared (Function.update streams which ((streams which).call σ).2.1)
        ((streams which).call σ).2.2 after ∧
      ∀ count, run.answers (count + 1) = ((streams which).call σ).1 :: after.answers count := by
  have unfinished := unfinished_of_run? held
  rw [call_running held]
  by_cases left : run.machine.position < run.text.size
  · have next := Run.next_named left stands.state
    have goes : run.next ≠ .ok none := by
      rw [next]
      nofun
    rw [next]
    refine ⟨run.stepped, ?_, Run.answers_next next⟩
    refine shared_update key started ?_ rfl rfl ?_ ?_ lexer (lexer.step stands _)
    · exact fun other apart finished => absurd (ended other apart finished) goes
    · rw [Table.get?_set, if_pos rfl]
    · exact fun finished => absurd finished unfinished
  · have spent := Run.next_ended (Nat.le_of_not_lt left)
    rw [spent]
    refine ⟨run, ?_, fun count => ?_⟩
    · refine shared_update key started ended rfl rfl ?_ (fun _ => spent) lexer stands
      rw [Table.get?_set, if_pos rfl]
    · rw [Run.answers_ended spent, Run.answers_ended spent]
      rfl

namespace Shared

/-- A call of any of the streams takes what the run gives next. -/
theorem call (shared : Shared streams σ run) (which : ι) :
    ∃ after, Shared (Function.update streams which ((streams which).call σ).2.1)
        ((streams which).call σ).2.2 after ∧
      ∀ count, run.answers (count + 1) = ((streams which).call σ).1 :: after.answers count := by
  by_cases finished : (streams which).finished = true
  · have ended := shared.ended which finished
    rw [call_finished finished, Function.update_eq_self]
    refine ⟨run, shared, fun count => ?_⟩
    rw [Run.answers_ended ended, Run.answers_ended ended]
    rfl
  · have held : (streams which).run? σ = some run := by
      rw [run?, if_neg finished, shared.kept, Option.map_some, resume,
        if_pos (shared.started which)]
    exact shared_of_call shared.key (fun other _ => shared.started other)
      (fun other _ => shared.ended other) held shared.lexer shared.stands

/-- Whatever the order of calls, streams with one run give what that run would give to one. -/
theorem turns_eq (shared : Shared streams σ run) (order : List ι) :
    (turns streams σ order).map Prod.snd = run.answers order.length := by
  induction order generalizing streams σ run with
  | nil => rfl
  | cons which order ih =>
    obtain ⟨after, shared, answers⟩ := shared.call which
    rw [List.length_cons, answers, turns, List.map_cons, ih shared]

end Shared

end Turns

/-- A stream that gives a token has begun, and one that gives anything else has ended. -/
theorem call_cases (stream : TokenStream) (σ : Session) :
    (∃ token, (stream.call σ).1 = .ok (some token) ∧ (stream.call σ).2.1.started = true ∧
      (stream.call σ).2.1.finished = false) ∨
    ((∀ token, (stream.call σ).1 ≠ .ok (some token)) ∧ (stream.call σ).2.1.finished = true) := by
  cases held : stream.run? σ with
  | none =>
    rw [call_idle held]
    exact .inr ⟨nofun, rfl⟩
  | some run =>
    have unfinished := Bool.eq_false_iff.2 (unfinished_of_run? held)
    rw [call_running held]
    rcases run.next with cause | _ | ⟨token, after⟩
    · exact .inr ⟨nofun, rfl⟩
    · exact .inr ⟨nofun, rfl⟩
    · exact .inl ⟨token, rfl, rfl, unfinished⟩

/-- A stream that has not ended has given tokens only. -/
theorem calls_unfinished {count : Nat} (unfinished : (stream.calls count σ).2.1.finished = false) :
    ∃ tokens : List Token, (stream.calls count σ).1 = tokens.map (.ok ∘ some) := by
  induction count generalizing stream σ with
  | zero => exact ⟨[], rfl⟩
  | succ count ih =>
    rw [calls_succ] at unfinished ⊢
    obtain ⟨token, given, -⟩ | ⟨-, ended⟩ := stream.call_cases σ
    · obtain ⟨tokens, rest⟩ := ih unfinished
      refine ⟨token :: tokens, ?_⟩
      rw [given, rest]
      rfl
    · rw [calls_finished ended] at unfinished
      exact absurd (ended.symm.trans unfinished) nofun

/-- A stream that gave tokens only has begun and not ended. -/
theorem calls_tokens {count : Nat} {tokens : List Token} (unfinished : stream.finished = false)
    (given : (stream.calls count σ).1 = tokens.map (.ok ∘ some)) :
    (stream.calls count σ).2.1.finished = false ∧
      (tokens ≠ [] ∨ stream.started = true → (stream.calls count σ).2.1.started = true) := by
  induction count generalizing stream σ tokens with
  | zero =>
    rw [calls, eq_comm, List.map_eq_nil_iff] at given
    exact ⟨unfinished, fun begun => begun.resolve_left fun some => some given⟩
  | succ count ih =>
    rw [calls_succ] at given ⊢
    obtain ⟨token, tokens, rfl, first, rest⟩ := List.map_eq_cons_iff.1 given.symm
    obtain ⟨_, -, begun, goes⟩ | ⟨other, -⟩ := stream.call_cases σ
    · obtain ⟨goes, begins⟩ := ih goes rest.symm
      exact ⟨goes, fun _ => begins (.inr begun)⟩
    · exact absurd first.symm (other token)

section Two

variable {streams : Bool → TokenStream}

/-- Of two streams, one that ends before the other is called takes nothing away from it. -/
theorem answersOf_turns (fresh : ∀ which, (streams which).started = false) {first : Bool}
    {count : Nat} {rest : List Bool}
    (spent : rest = [] ∨ ((streams first).calls count σ).2.1.finished = true) (which : Bool) :
    answersOf which (turns streams σ (List.replicate count first ++ rest)) =
      ((streams which).calls ((List.replicate count first ++ rest).count which) σ).1 := by
  have tail : answersOf which (turns
      (Function.update streams first ((streams first).calls count σ).2.1)
      ((streams first).calls count σ).2.2 rest) =
        ((Function.update streams first ((streams first).calls count σ).2.1 which).calls
          (rest.count which) ((streams first).calls count σ).2.2).1 := by
    obtain rfl | finished := spent
    · rfl
    · apply Separate.answersOf_turns
      intro one other apart
      by_cases own : one = first
      · subst own
        rw [Function.update_self]
        exact .inr (.inl finished)
      · have own : other = first := by
          cases one <;> cases other <;> cases first <;> trivial
        subst own
        rw [Function.update_self]
        exact .inr (.inr finished)
  rw [turns_replicate, answersOf_append, tail, List.count_append, List.count_replicate]
  by_cases own : first = which
  · subst own
    rw [answersOf_own, Function.update_self, if_pos (beq_self_eq_true first), calls_add]
  · rw [answersOf_other own, Function.update_of_ne (Ne.symm own), List.nil_append,
      answers_congr (run?_calls (fresh which) count), if_neg (mt beq_iff_eq.1 own), Nat.zero_add]

/-- A stream that begins on the sub-lexer of one that has not ended gives to both. -/
theorem turns_taken {first : Bool} (key : ∀ one other, (streams one).key = (streams other).key)
    (begun : (streams first).started = true) (goes : (streams first).finished = false)
    (held : (streams !first).run? σ = some run) (lexer : run.lexer.Named)
    (stands : run.machine.Named) (rest : List Bool) :
    (turns streams σ ((!first) :: rest)).map Prod.snd = run.answers (rest.length + 1) := by
  have others : ∀ other, other ≠ !first → other = first := by
    intro other apart
    cases other <;> cases first <;> trivial
  obtain ⟨after, shared, answers⟩ := shared_of_call key
    (fun other apart => others other apart ▸ begun)
    (fun other apart ended => absurd (others other apart ▸ ended) (Bool.eq_false_iff.1 goes))
    held lexer stands
  rw [turns_cons, List.map_append, shared.turns_eq, answers]
  rfl

/-- Of two streams on one sub-lexer, one that begins when the other has given tokens and not ended
takes its run. -/
theorem turns_dealt (key : ∀ one other, (streams one).key = (streams other).key)
    (fresh : ∀ which, (streams which).started = false)
    (unfinished : ∀ which, (streams which).finished = false) {first : Bool} {tokens : List Token}
    (begun : tokens ≠ [])
    (given : ((streams first).calls tokens.length σ).1 = tokens.map (.ok ∘ some))
    (held : (streams !first).run? σ = some run) (lexer : run.lexer.Named)
    (stands : run.machine.Named) (rest : List Bool) :
    (turns streams σ (List.replicate tokens.length first ++ (!first) :: rest)).map Prod.snd =
      tokens.map (.ok ∘ some) ++ run.answers (rest.length + 1) := by
  obtain ⟨goes, starts⟩ := calls_tokens (unfinished first) given
  have differ : (!first) ≠ first := by cases first <;> nofun
  have keys : ∀ other, (Function.update streams first
      ((streams first).calls tokens.length σ).2.1 other).key = (streams first).key :=
    (Function.forall_update_iff streams fun _ s => s.key = (streams first).key).2
      ⟨key_calls _ _ _, fun other _ => key other first⟩
  rw [turns_replicate, List.map_append, List.map_map, given,
    turns_taken (fun one other => (keys one).trans (keys other).symm) _ _ _ lexer stands]
  · rw [Function.comp_def, List.map_id']
  · rw [Function.update_self]
    exact starts (.inl begun)
  · rw [Function.update_self]
    exact goes
  · rw [Function.update_of_ne differ, run?_calls (fresh _), held]

/-- The calls up to the first one of another stream, and the rest. -/
theorem exists_first_turn (order : List Bool) : ∃ first count rest,
    order = List.replicate count first ++ rest ∧
      (rest = [] ∨ 0 < count ∧ ∃ rest', rest = (!first) :: rest') := by
  induction order with
  | nil => exact ⟨false, 0, [], rfl, .inl rfl⟩
  | cons which order ih =>
    obtain ⟨first, count, rest, rfl, spent⟩ := ih
    by_cases own : which = first
    · subst own
      exact ⟨which, count + 1, rest, rfl, spent.imp_right fun more => ⟨Nat.succ_pos count, more.2⟩⟩
    · have other : first = !which := by
        cases which <;> cases first <;> trivial
      subst other
      cases count with
      | zero =>
        obtain rfl | ⟨none, -⟩ := spent
        · exact ⟨which, 1, [], rfl, .inl rfl⟩
        · cases none
      | succ count => exact ⟨which, 1, _, rfl, .inr ⟨Nat.one_pos, _, rfl⟩⟩

end Two

end TokenStream

namespace Context

open TokenStream

variable {ctx : Context} {ref : LexerRef} {text : Text} {stream : TokenStream} {σ τ : Session}
  {lexer : SubLexer}

/-- The answers of a stream to a number of calls when it is read alone on a fresh context. -/
def alone (ctx : Context) (ref : LexerRef) (text : Text) (count : Nat) :
    Except GrammarError (List Answer) :=
  match (ctx.invoke ref text).run.run [] with
  | (.error e, _) => .error e
  | (.ok stream, σ) => .ok (stream.calls count σ).1

/-- The answers of two streams that are opened one after the other and then called in some order. -/
def together (ctx : Context) (σ : Session) (refs : Bool → LexerRef) (texts : Bool → Text)
    (order : List Bool) : Except GrammarError (List (Bool × Answer)) :=
  match (ctx.invoke (refs false) (texts false)).run.run σ with
  | (.error e, _) => .error e
  | (.ok first, σ) =>
    match (ctx.invoke (refs true) (texts true)).run.run σ with
    | (.error e, _) => .error e
    | (.ok second, σ) => .ok (turns (fun | false => first | true => second) σ order)

/-- A stream that was opened and has not begun, with the lexer that is kept for it. -/
structure Opened (ctx : Context) (ref : LexerRef) (text : Text) (stream : TokenStream) (σ : Session)
    (language : Language) (state : Text) (lexer : SubLexer) : Prop where
  located : ctx.located ref = .ok (language, state)
  built : SubLexer.build language state = .ok lexer
  stream_eq : stream = ⟨sessionKey language state, text, false, false⟩
  kept : σ.lexer? stream.key = some lexer

theorem Kept.opened (apart : ctx.NamesApart) (kept : ctx.Kept σ)
    (opens : (ctx.invoke ref text).run.run σ = (.ok stream, τ)) :
    ∃ language state lexer, Opened ctx ref text stream τ language state lexer := by
  rw [invoke_run] at opens
  rcases located : ctx.located ref with e | ⟨language, state⟩
  · rw [located] at opens
    cases opens
  · rw [located] at opens
    dsimp only at opens
    split at opens
    · next has =>
      cases opens
      obtain ⟨lexer, held⟩ := Session.has_iff.1 has
      obtain ⟨language', state', reached, same, built⟩ := kept _ _ held
      obtain ⟨rfl, rfl⟩ := apart.key_inj (reaches_of_located located) reached same
      exact ⟨language, state, lexer, located, built, rfl, held⟩
    · rcases built : SubLexer.build language state with e | lexer
      · rw [built] at opens
        cases opens
      · rw [built] at opens
        cases opens
        refine ⟨language, state, lexer, located, built, rfl, ?_⟩
        rw [Session.lexer?_set, if_pos rfl]
        rfl

namespace Opened

variable {language : Language} {state : Text}

/-- Opening another stream keeps the lexer of one that was opened. -/
theorem invoke (opened : Opened ctx ref text stream σ language state lexer) (ref' : LexerRef)
    (text' : Text) :
    Opened ctx ref text stream ((ctx.invoke ref' text').run.run σ).2 language state lexer := by
  refine ⟨opened.located, opened.built, opened.stream_eq, ?_⟩
  rcases ctx.invoke_lexer? ref' text' σ stream.key with same | ⟨_, _, _, -, -, missing, -⟩
  · rw [same, opened.kept]
  · rw [opened.kept] at missing
    cases missing

theorem run?_eq (opened : Opened ctx ref text stream σ language state lexer) :
    stream.run? σ = some (Run.start lexer text) := by
  have kept := opened.kept
  obtain rfl := opened.stream_eq
  rw [run?_fresh rfl rfl, kept]
  rfl

/-- On a fresh context the stream would start the same run. -/
theorem alone_eq (opened : Opened ctx ref text stream σ language state lexer) (count : Nat) :
    ctx.alone ref text count = .ok (stream.calls count σ).1 := by
  rw [answers_of_run? opened.run?_eq, alone, invoke_run, opened.located]
  dsimp only
  rw [if_neg nofun, opened.built]
  dsimp only
  rw [answers_of_run?]
  rw [run?_fresh rfl rfl, Session.lexer?_set, if_pos rfl]
  rfl

/-- Two streams are on one sub-lexer if their references name one state of one language. -/
theorem key_eq_iff (apart : ctx.NamesApart) {ref' : LexerRef} {text' : Text}
    {stream' : TokenStream} {language' : Language} {state' : Text} {lexer' : SubLexer}
    (opened : Opened ctx ref text stream σ language state lexer)
    (opened' : Opened ctx ref' text' stream' σ language' state' lexer') :
    stream.key = stream'.key ↔ ctx.located ref = ctx.located ref' := by
  rw [opened.stream_eq, opened'.stream_eq, opened.located, opened'.located]
  constructor
  · intro same
    obtain ⟨rfl, rfl⟩ := apart.key_inj (reaches_of_located opened.located)
      (reaches_of_located opened'.located) same
    rfl
  · intro same
    cases same
    rfl

theorem fresh (opened : Opened ctx ref text stream σ language state lexer) :
    stream.started = false := by
  rw [opened.stream_eq]

theorem unfinished (opened : Opened ctx ref text stream σ language state lexer) :
    stream.finished = false := by
  rw [opened.stream_eq]

end Opened

/-- Of two streams on one sub-lexer, one begins when the other has given tokens and not ended. -/
structure BreaksIn (ctx : Context) (refs : Bool → LexerRef) (texts : Bool → Text)
    (order : List Bool) (first : Bool) (tokens : List Token) (rest : List Bool) : Prop where
  same : ctx.located (refs false) = ctx.located (refs true)
  begun : tokens ≠ []
  given : ctx.alone (refs first) (texts first) tokens.length = .ok (tokens.map (.ok ∘ some))
  order_eq : order = List.replicate tokens.length first ++ (!first) :: rest

variable {refs : Bool → LexerRef} {texts : Bool → Text} {order : List Bool}
  {answers : List (Bool × Answer)}

/-- Two streams that were opened and have not begun. -/
def OpenedBoth (ctx : Context) (refs : Bool → LexerRef) (texts : Bool → Text)
    (streams : Bool → TokenStream) (σ : Session) : Prop :=
  ∀ which, ∃ language state lexer,
    Opened ctx (refs which) (texts which) (streams which) σ language state lexer

/-- Two streams that were opened on sessions that keep what was built. -/
theorem opened_of_together (apart : ctx.NamesApart) (kept : ctx.Kept σ)
    (read : ctx.together σ refs texts order = .ok answers) :
    ∃ streams τ, answers = turns streams τ order ∧ OpenedBoth ctx refs texts streams τ := by
  unfold together at read
  split at read
  · cases read
  · next first σ₁ opens =>
    split at read
    · cases read
    · next second τ opens' =>
      cases read
      refine ⟨_, τ, rfl, ?_⟩
      have kept₁ : ctx.Kept σ₁ := by
        have left := kept.invoke (refs false) (texts false)
        rwa [opens] at left
      obtain ⟨language, state, lexer, opened⟩ := kept.opened apart opens
      rintro (_ | _)
      · have stays := opened.invoke (refs true) (texts true)
        rw [opens'] at stays
        exact ⟨language, state, lexer, stays⟩
      · exact kept₁.opened apart opens'

namespace OpenedBoth

variable {streams : Bool → TokenStream}

theorem alone_eq (opened : OpenedBoth ctx refs texts streams σ) (which : Bool) (count : Nat) :
    ctx.alone (refs which) (texts which) count = .ok ((streams which).calls count σ).1 := by
  obtain ⟨_, _, _, opened⟩ := opened which
  exact opened.alone_eq count

theorem fresh (opened : OpenedBoth ctx refs texts streams σ) (which : Bool) :
    (streams which).started = false := by
  obtain ⟨_, _, _, opened⟩ := opened which
  exact opened.fresh

theorem unfinished (opened : OpenedBoth ctx refs texts streams σ) (which : Bool) :
    (streams which).finished = false := by
  obtain ⟨_, _, _, opened⟩ := opened which
  exact opened.unfinished

/-- The streams are on one sub-lexer if their references name one state of one language. -/
theorem key_eq_iff (apart : ctx.NamesApart) (opened : OpenedBoth ctx refs texts streams σ) :
    (streams false).key = (streams true).key ↔
      ctx.located (refs false) = ctx.located (refs true) := by
  obtain ⟨_, _, _, first⟩ := opened false
  obtain ⟨_, _, _, second⟩ := opened true
  exact first.key_eq_iff apart second

theorem separate (opened : OpenedBoth ctx refs texts streams σ) (apart : ctx.NamesApart)
    (differ : ctx.located (refs false) ≠ ctx.located (refs true)) : Separate streams := by
  have keys := mt (key_eq_iff apart opened).1 differ
  rintro (_ | _) (_ | _) other
  · exact absurd rfl other
  · exact .inl keys
  · exact .inl (Ne.symm keys)
  · exact absurd rfl other

/-- Where no stream breaks into the run of the other, each gives what it would give alone. -/
theorem answersOf_eq (opened : OpenedBoth ctx refs texts streams σ) (apart : ctx.NamesApart)
    (whole : ∀ first tokens rest, ¬ ctx.BreaksIn refs texts order first tokens rest)
    (which : Bool) :
    ctx.alone (refs which) (texts which) (order.count which) =
      .ok (answersOf which (turns streams σ order)) := by
  rw [opened.alone_eq which]
  by_cases same : ctx.located (refs false) = ctx.located (refs true)
  · obtain ⟨first, count, rest, rfl, spent⟩ := exists_first_turn order
    rw [answersOf_turns opened.fresh]
    refine spent.imp_right fun ⟨more, rest', shape⟩ => ?_
    by_contra goes
    obtain ⟨tokens, given⟩ := calls_unfinished (Bool.eq_false_iff.2 goes)
    have length := congrArg List.length given
    rw [length_calls, List.length_map] at length
    subst length
    rw [shape] at whole
    refine whole first tokens rest' ⟨same, List.ne_nil_of_length_pos more, ?_, rfl⟩
    rw [opened.alone_eq, given]
  · rw [(opened.separate apart same).answersOf_turns]

/-- Where a stream breaks into the run of the other, both are dealt what it would give alone. -/
theorem answers_dealt (opened : OpenedBoth ctx refs texts streams σ) (apart : ctx.NamesApart)
    {first : Bool} {tokens : List Token} {rest : List Bool}
    (breaks : ctx.BreaksIn refs texts order first tokens rest) : ∃ dealt,
      ctx.alone (refs !first) (texts !first) (rest.length + 1) = .ok dealt ∧
        (turns streams σ order).map Prod.snd = tokens.map (.ok ∘ some) ++ dealt := by
  obtain ⟨same, begun, given, rfl⟩ := breaks
  have keys := (key_eq_iff apart opened).2 same
  have key (one other : Bool) : (streams one).key = (streams other).key := by
    cases one <;> cases other
    · rfl
    · exact keys
    · exact keys.symm
    · rfl
  obtain ⟨language, state, lexer, opened₁⟩ := opened first
  obtain ⟨_, _, _, opened₂⟩ := opened !first
  have place := (opened₁.key_eq_iff apart opened₂).1 (key first !first)
  rw [opened₁.located, opened₂.located] at place
  cases place
  obtain rfl := Except.ok.inj (opened₁.built.symm.trans opened₂.built)
  rw [opened.alone_eq] at given ⊢
  have given := Except.ok.inj given
  have named : lexer.start ≠ [] := by
    obtain ⟨token, tokens, rfl⟩ := List.exists_cons_of_ne_nil begun
    rw [answers_of_run? opened₁.run?_eq] at given
    exact Run.state_of_answers given
  refine ⟨_, rfl, ?_⟩
  rw [answers_of_run? opened₂.run?_eq]
  exact turns_dealt key opened.fresh opened.unfinished begun given opened₂.run?_eq
    (SubLexer.build_named opened₂.built) ⟨named, nofun⟩ rest

end OpenedBoth

/-- Two streams that are read by turns. Each gives what it would give alone on a fresh context, unless
both are on one sub-lexer and one begins when the other has given tokens and not ended. If so, what
the one that begins would give alone is dealt, from then on, to the calls of both. -/
theorem together_dealt (apart : ctx.NamesApart) (acts : List Act)
    (read : ctx.together (Act.after ctx acts) refs texts order = .ok answers) :
    ((∀ first tokens rest, ¬ ctx.BreaksIn refs texts order first tokens rest) → ∀ which,
      ctx.alone (refs which) (texts which) (order.count which) =
        .ok (answersOf which answers)) ∧
    ∀ first tokens rest, ctx.BreaksIn refs texts order first tokens rest → ∃ dealt,
      ctx.alone (refs !first) (texts !first) (rest.length + 1) = .ok dealt ∧
        answers.map Prod.snd = tokens.map (.ok ∘ some) ++ dealt := by
  obtain ⟨streams, σ, rfl, opened⟩ := opened_of_together apart (Act.kept_after apart acts) read
  exact ⟨opened.answersOf_eq apart, fun _ _ _ breaks => opened.answers_dealt apart breaks⟩

/-- A language of two rules. -/
def letters : Language where
  name := "letters"
  aliases := []
  filenames := []
  aliasFilenames := []
  graph := [("root", [.literal "a" (.literal "A"), .literal "b" (.literal "B")])]
  sourceFile := none

/-- The context in which `letters` is compiled alone. -/
def lettersContext : Context := ⟨letters, .standard, fun _ => none⟩

theorem lettersContext_namesApart : lettersContext.NamesApart := by
  have own : ∀ language, lettersContext.Reaches language → language = letters := by
    rintro language (_ | found)
    · rfl
    · cases found
  constructor
  · intro first second left right _
    rw [own first left, own second right]
  · intro language reached
    rw [own language reached]
    decide

/-- Answers that are no errors. -/
theorem answers_of_toOption {answers : List Answer} (found : List (Option Token))
    (same : answers.map Except.toOption = found.map some) : answers = found.map .ok := by
  induction answers generalizing found with
  | nil =>
    rw [List.map_nil, eq_comm, List.map_eq_nil_iff] at same
    rw [same, List.map_nil]
  | cons answer answers ih =>
    obtain ⟨first, found, rfl, here, rest⟩ := List.map_eq_cons_iff.1 same.symm
    rw [List.map_cons, ← ih found rest.symm, eq_ok_of_toOption here.symm]

theorem alone_of_toOption {count : Nat} (found : List (Option Token))
    (same : (ctx.alone ref text count).toOption.map (List.map Except.toOption) =
      some (found.map some)) : ctx.alone ref text count = .ok (found.map .ok) := by
  obtain ⟨answers, read, same⟩ := Option.map_eq_some_iff.1 same
  rw [eq_ok_of_toOption read, answers_of_toOption found same]

/-- The rules that the streams on `letters` follow. -/
def letterRef (_ : Bool) : LexerRef := ⟨"this", none⟩

/-- The texts of two streams on `letters`. -/
def letterText (which : Bool) : Text := if which then "ba" else "ab"

/-- A stream that was opened before and is read once, and the start of a compilation. -/
def letterActs : List Act := [.invoke ⟨"this", none⟩ "bb", .read 0, .walk "root" 0]

/-- The second stream begins once when the first has ended, and once when it has given a token. -/
theorem together_dealt_letters : lettersContext.NamesApart ∧
    (∃ answers, lettersContext.together (Act.after lettersContext letterActs) letterRef letterText
      [false, false, false, true, false, true] = .ok answers ∧
      answersOf true answers = [.ok (some ⟨"B", "b", 0⟩), .ok (some ⟨"A", "a", 1⟩)]) ∧
    ∃ answers, lettersContext.together (Act.after lettersContext letterActs) letterRef letterText
      [false, true, false, true] = .ok answers ∧
      answers.map Prod.snd = [.ok (some ⟨"A", "a", 0⟩), .ok (some ⟨"B", "b", 0⟩),
        .ok (some ⟨"A", "a", 1⟩), .ok none] := by
  have apart := lettersContext_namesApart
  have one : lettersContext.alone (letterRef false) (letterText false) 1 =
      .ok [.ok (some ⟨"A", "a", 0⟩)] :=
    alone_of_toOption [some ⟨"A", "a", 0⟩] (by decide +kernel)
  have ended : lettersContext.alone (letterRef false) (letterText false) 3 =
      .ok [.ok (some ⟨"A", "a", 0⟩), .ok (some ⟨"B", "b", 1⟩), .ok none] :=
    alone_of_toOption [some ⟨"A", "a", 0⟩, some ⟨"B", "b", 1⟩, none] (by decide +kernel)
  have three : lettersContext.alone (letterRef true) (letterText true) 3 =
      .ok [.ok (some ⟨"B", "b", 0⟩), .ok (some ⟨"A", "a", 1⟩), .ok none] :=
    alone_of_toOption [some ⟨"B", "b", 0⟩, some ⟨"A", "a", 1⟩, none] (by decide +kernel)
  have two : lettersContext.alone (letterRef true) (letterText true) 2 =
      .ok [.ok (some ⟨"B", "b", 0⟩), .ok (some ⟨"A", "a", 1⟩)] :=
    alone_of_toOption [some ⟨"B", "b", 0⟩, some ⟨"A", "a", 1⟩] (by decide +kernel)
  refine ⟨apart, ?_, ?_⟩
  · have opens : (lettersContext.together (Act.after lettersContext letterActs) letterRef letterText
        [false, false, false, true, false, true]).toOption.isSome = true := by
      decide +kernel
    obtain ⟨answers, read⟩ := Option.isSome_iff_exists.1 opens
    have read := eq_ok_of_toOption read
    refine ⟨answers, read, ?_⟩
    have whole := (together_dealt apart letterActs read).1 ?_ true
    · exact Except.ok.inj (whole.symm.trans two)
    · rintro first tokens rest ⟨-, begun, given, shape⟩
      cases first
      · obtain _ | ⟨_, _ | ⟨_, _ | ⟨_, _ | ⟨_, tokens⟩⟩⟩⟩ := tokens
        · exact begun rfl
        · cases shape
        · cases shape
        · cases Except.ok.inj (ended.symm.trans given)
        · cases shape
      · obtain _ | ⟨_, tokens⟩ := tokens
        · exact begun rfl
        · cases shape
  · have opens : (lettersContext.together (Act.after lettersContext letterActs) letterRef letterText
        [false, true, false, true]).toOption.isSome = true := by
      decide +kernel
    obtain ⟨answers, read⟩ := Option.isSome_iff_exists.1 opens
    have read := eq_ok_of_toOption read
    refine ⟨answers, read, ?_⟩
    obtain ⟨dealt, alone, same⟩ := (together_dealt apart letterActs read).2 false
      [⟨"A", "a", 0⟩] [false, true] ⟨rfl, nofun, one, rfl⟩
    rw [same, ← Except.ok.inj (three.symm.trans alone)]
    rfl

/-- Two streams of one language that are read by turns: the second token of the first stream is read
from the text of the second one, which then has none left. -/
theorem together_mixed : ∃ answers,
    lettersContext.together [] letterRef letterText [false, true, false, true] = .ok answers ∧
    answersOf false answers = [.ok (some ⟨"A", "a", 0⟩), .ok (some ⟨"A", "a", 1⟩)] ∧
    lettersContext.alone (letterRef false) (letterText false) 2 =
      .ok [.ok (some ⟨"A", "a", 0⟩), .ok (some ⟨"B", "b", 1⟩)] ∧
    answersOf true answers = [.ok (some ⟨"B", "b", 0⟩), .ok none] ∧
    lettersContext.alone (letterRef true) (letterText true) 2 =
      .ok [.ok (some ⟨"B", "b", 0⟩), .ok (some ⟨"A", "a", 1⟩)] := by
  have run : (lettersContext.together [] letterRef letterText [false, true, false, true]).toOption.map
      (fun answers => ((answersOf false answers).map Except.toOption,
        (answersOf true answers).map Except.toOption)) =
      some ([some (some ⟨"A", "a", 0⟩), some (some ⟨"A", "a", 1⟩)],
        [some (some ⟨"B", "b", 0⟩), some none]) := by
    decide +kernel
  obtain ⟨answers, read, same⟩ := Option.map_eq_some_iff.1 run
  obtain ⟨first, second⟩ := Prod.mk.inj same
  refine ⟨answers, eq_ok_of_toOption read, ?_, ?_, ?_, ?_⟩
  · exact answers_of_toOption [some ⟨"A", "a", 0⟩, some ⟨"A", "a", 1⟩] first
  · exact alone_of_toOption [some ⟨"A", "a", 0⟩, some ⟨"B", "b", 1⟩] (by decide +kernel)
  · exact answers_of_toOption [some ⟨"B", "b", 0⟩, none] second
  · exact alone_of_toOption [some ⟨"B", "b", 0⟩, some ⟨"A", "a", 1⟩] (by decide +kernel)

end Context

end Highlight
