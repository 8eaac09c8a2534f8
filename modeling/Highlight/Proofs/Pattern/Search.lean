import Highlight.Proofs.Pattern.Enumeration

/-!
# A search follows a walk

A search for samples does what the walk through its pattern says, event by event, until it halts:
no sample is wanted any more, or a step was refused. From there on the parts that are still open
wind down. They find nothing, though a repetition that is open may yet come to a count that no
list is long. `enumerator_tracks` says so for every pattern and for every continuation that
follows a walk itself.
-/

namespace Highlight

/-- What an event does to a search that has not halted. -/
def Event.apply : Event → Search → Search
  | step, search => { search with steps := search.steps + 1 }
  | breaks, search => search.breakDown
  | found expansion, search => search.keep expansion

namespace Search

/-- No sample is wanted any more, or a step was refused. -/
def Halted (quota : Quota) (search : Search) : Prop :=
  search.wanted = 0 ∨ quota.steps < search.steps

/-- No sample is wanted any more, or no step is left. -/
def Spent (quota : Quota) (search : Search) : Prop :=
  search.wanted = 0 ∨ quota.steps ≤ search.steps

instance {quota : Quota} {search : Search} : Decidable (Halted quota search) :=
  inferInstanceAs (Decidable (_ ∨ _))

/-- A search goes through a walk until it halts. -/
def play (quota : Quota) (walk : Walk) (search : Search) : Search :=
  walk.foldl (fun search event => if Halted quota search then search else event.apply search) search

/-- What can become of a search without steps: nothing is found and only steps are counted, or an
open repetition breaks it down. -/
inductive WindsDown (quota : Quota) (search : Search) : Search → Prop
  | still (steps : Nat) (spent : Spent quota { search with steps }) :
    WindsDown quota search { search with steps }
  | broken (steps : Nat) (wanting : search.wanted ≠ 0) (long : lengthBound ≤ quota.expansion) :
    WindsDown quota search { search.breakDown with steps }

/-- What became of a search is what was expected, up to winding down. -/
def Agrees (quota : Quota) (expected search : Search) : Prop :=
  search = expected ∨ Halted quota expected ∧ WindsDown quota expected search

variable {quota : Quota} {search middle last : Search}

theorem Halted.spent (halted : Halted quota search) : Spent quota search :=
  halted.imp_right Nat.le_of_lt

theorem WindsDown.rest (spent : Spent quota search) : WindsDown quota search search :=
  .still search.steps spent

theorem WindsDown.spent (down : WindsDown quota search last) : Spent quota last := by
  cases down with
  | still _ spent => exact spent
  | broken => exact .inl rfl

theorem WindsDown.trans (first : WindsDown quota search middle)
    (second : WindsDown quota middle last) : WindsDown quota search last := by
  cases first with
  | still =>
    cases second with
    | still steps spent => exact .still steps spent
    | broken steps wanting long => exact .broken steps wanting long
  | broken _ wanting long =>
    cases second with
    | still steps => exact .broken steps wanting long
    | broken _ wanting' => exact absurd rfl wanting'

theorem Agrees.whole (agrees : Agrees quota search last) (whole : last.isBroken = false) :
    search.isBroken = false ∧ last.found = search.found := by
  obtain same | ⟨_, down⟩ := agrees
  · rw [← same]
    exact ⟨whole, rfl⟩
  · cases down with
    | still => exact ⟨whole, rfl⟩
    | broken => cases whole

theorem Agrees.found_eq (agrees : Agrees quota search last) : last.found = search.found := by
  obtain same | ⟨_, down⟩ := agrees
  · rw [same]
  · cases down <;> rfl

theorem Agrees.broken (agrees : Agrees quota search last) (broken : last.isBroken = true) :
    search.isBroken = true ∨
      lengthBound ≤ quota.expansion ∧ search.wanted ≠ 0 ∧ quota.steps < search.steps := by
  obtain same | ⟨halted, down⟩ := agrees
  · rw [← same]
    exact .inl broken
  · cases down with
    | still => exact .inl broken
    | broken _ wanting long => exact .inr ⟨long, wanting, halted.resolve_left wanting⟩

@[simp] theorem play_nil : search.play quota [] = search := rfl

theorem play_append (left right : Walk) :
    search.play quota (left ++ right) = (search.play quota left).play quota right :=
  List.foldl_append

theorem play_halted (halted : Halted quota search) (walk : Walk) :
    search.play quota walk = search := by
  induction walk with
  | nil => rfl
  | cons event walk ih =>
    rw [play, List.foldl_cons, if_pos halted]
    exact ih

theorem play_cons (going : ¬Halted quota search) (event : Event) (walk : Walk) :
    search.play quota (event :: walk) = (event.apply search).play quota walk := by
  rw [play, List.foldl_cons, if_neg going]
  rfl

@[simp] theorem keep_steps (e : Expansion) : (search.keep e).steps = search.steps := by
  unfold keep
  split <;> rfl

theorem keep_all_of_none (none : search.wanted = 0) (expansions : List Expansion) :
    expansions.foldl (fun search e => search.keep e) search = search := by
  induction expansions with
  | nil => rfl
  | cons e expansions ih =>
    have : search.keep e = search := by simp [keep, none]
    rw [List.foldl_cons, this, ih]

end Search

/-- A search that goes on does what a walk says, up to winding down. -/
def Tracks (quota : Quota) (code : Search → Search) (walk : Walk) : Prop :=
  ∀ search : Search, ¬search.Halted quota → (search.play quota walk).Agrees quota (code search)

/-- A search without steps winds down. -/
def Inert (quota : Quota) (code : Search → Search) : Prop :=
  ∀ search : Search, search.Spent quota → search.WindsDown quota (code search)

/-- A continuation does what walks say, also when it is called for several expansions in turn. -/
def Follows (quota : Quota) (next : Continuation) (walks : Expansion → Walk) : Prop :=
  ∀ expansions : List Expansion,
    Tracks quota (fun search => expansions.foldl (fun search e => next e search) search)
      (expansions.flatMap walks)

section Tracking

variable {quota : Quota} {code first second : Search → Search} {walk left right : Walk}
  {next : Continuation} {walks : Expansion → Walk}

theorem Inert.comp (inert₁ : Inert quota first) (inert₂ : Inert quota second) :
    Inert quota fun search => second (first search) := by
  intro search spent
  have down := inert₁ search spent
  exact down.trans (inert₂ _ down.spent)

theorem Inert.foldl {α : Type} {part : α → Search → Search}
    (inert : ∀ a, Inert quota (part a)) (list : List α) :
    Inert quota fun search => list.foldl (fun search a => part a search) search := by
  induction list with
  | nil => exact fun _ => .rest
  | cons a list ih => exact (inert a).comp ih

/-- One after the other, two pieces of code do what two walks say, if the second piece winds
down. -/
theorem Tracks.comp (tracks₁ : Tracks quota first left) (tracks₂ : Tracks quota second right)
    (inert : Inert quota second) :
    Tracks quota (fun search => second (first search)) (left ++ right) := by
  intro search going
  show Search.Agrees quota _ (second (first search))
  rw [Search.play_append]
  by_cases halted : (search.play quota left).Halted quota
  -- The rest of the walk passes by, so the second piece must not find anything either.
  · rw [Search.play_halted halted]
    refine .inr ⟨halted, ?_⟩
    obtain same | ⟨_, down⟩ := tracks₁ search going
    · rw [same]
      exact inert _ halted.spent
    · exact down.trans (inert _ down.spent)
  · obtain same | ⟨stopped, _⟩ := tracks₁ search going
    · rw [same]
      exact tracks₂ _ halted
    · exact absurd stopped halted

theorem Tracks.foldl {α : Type} {part : α → Search → Search} {track : α → Walk}
    (tracks : ∀ a, Tracks quota (part a) (track a)) (inert : ∀ a, Inert quota (part a))
    (list : List α) :
    Tracks quota (fun search => list.foldl (fun search a => part a search) search)
      (list.flatMap track) := by
  induction list with
  | nil => exact fun _ _ => .inl rfl
  | cons a list ih => exact (tracks a).comp ih (.foldl inert list)

theorem inert_tick : Inert quota (Search.tick quota code) := by
  intro search spent
  unfold Search.tick
  split
  · exact .rest spent
  · rename_i wanting
    have beyond : quota.steps ≤ search.steps := spent.resolve_left wanting
    rw [if_neg (by show ¬search.steps + 1 ≤ quota.steps; omega)]
    exact .still _ (.inr (by show quota.steps ≤ search.steps + 1; omega))

/-- A step in front of code is a step in front of its walk. -/
theorem Tracks.tick (tracks : Tracks quota code walk) :
    Tracks quota (Search.tick quota code) (.step :: walk) := by
  intro search going
  rw [Search.play_cons going]
  have wanting : search.wanted ≠ 0 := fun none => going (.inl none)
  unfold Search.tick
  rw [if_neg wanting]
  show Search.Agrees quota (Search.play quota walk { search with steps := search.steps + 1 })
    (if search.steps + 1 ≤ quota.steps then code { search with steps := search.steps + 1 }
      else { search with steps := search.steps + 1 })
  split
  · rename_i within
    exact tracks _ fun halted => halted.elim wanting (by show ¬quota.steps < search.steps + 1; omega)
  · rename_i beyond
    rw [Search.play_halted (.inr (by show quota.steps < search.steps + 1; omega))]
    exact .inl rfl

/-- Also a search that has halted before agrees. -/
theorem Tracks.agrees (tracks : Tracks quota code walk) (inert : Inert quota code)
    (search : Search) : (search.play quota walk).Agrees quota (code search) := by
  by_cases halted : search.Halted quota
  · rw [Search.play_halted halted]
    exact .inr ⟨halted, inert search halted.spent⟩
  · exact tracks search halted

theorem Follows.tracks (follows : Follows quota next walks) (expansion : Expansion) :
    Tracks quota (next expansion) (walks expansion) := by
  have one := follows [expansion]
  rw [List.flatMap_singleton] at one
  exact one

theorem Follows.map (follows : Follows quota next walks) (change : Expansion → Expansion) :
    Follows quota (fun e => next (change e)) (fun e => walks (change e)) := by
  intro expansions
  have changed := follows (expansions.map change)
  simp only [List.foldl_map, List.flatMap_map] at changed
  exact changed

theorem follows_of_inert (tracks : ∀ e, Tracks quota (next e) (walks e))
    (inert : ∀ e, Inert quota (next e)) : Follows quota next walks :=
  .foldl tracks inert

/-- The samples that are kept are what a walk finds. No step is tried there, so that nothing can
be kept behind a step that was refused. -/
theorem follows_keep : Follows quota Search.keep fun e => [.found e] := by
  intro expansions search going
  left
  show expansions.foldl (fun search e => search.keep e) search =
    search.play quota (expansions.flatMap fun e => [.found e])
  induction expansions generalizing search with
  | nil => rfl
  | cons e expansions ih =>
    rw [List.foldl_cons, List.flatMap_cons, List.singleton_append, Search.play_cons going]
    by_cases halted : (search.keep e).Halted quota
    · have none : (search.keep e).wanted = 0 := by
        refine halted.resolve_right fun beyond => going (.inr ?_)
        rwa [Search.keep_steps] at beyond
      rw [Search.keep_all_of_none none]
      exact (Search.play_halted halted _).symm
    · exact ih _ halted

end Tracking

namespace Enumerator

variable {quota : Quota}

theorem inert_runAll (parts : List Enumerator) (captures : Captures) (next : Continuation) :
    Inert quota (runAll quota parts captures next) := by
  cases parts <;> exact inert_tick

theorem inert_runTimes (part : Enumerator) (count : Nat) (captures : Captures)
    (next : Continuation) : Inert quota (runTimes quota part count captures next) := by
  cases count <;> exact inert_tick

/-- Counts within the expansion limit that are gone through without steps break a search down at
most. -/
theorem inert_runCounts (part : Enumerator) (captures : Captures) (next : Continuation)
    (more count : Nat) (within : count + more ≤ quota.expansion + 1) :
    Inert quota (runCounts quota part captures next more count) := by
  intro search spent
  cases more with
  | zero => exact .rest spent
  | succ more =>
    unfold runCounts
    split
    · exact .rest spent
    · rename_i wanting
      have beyond : quota.steps ≤ search.steps := spent.resolve_left wanting
      rw [if_pos beyond]
      split
      · exact .broken search.steps wanting (by omega)
      · split
        · exact .broken search.steps wanting (by omega)
        · exact .rest spent

/-- Each expansion of the part is handed on as the walk hands it on. -/
def Walks (quota : Quota) (part : Enumerator) (walk : Captures → Walk) : Prop :=
  ∀ captures next walks, Follows quota next walks →
    Tracks quota (part.run captures next) ((walk captures).bind walks)

variable {part : Enumerator} {walk : Captures → Walk} {next : Continuation}
  {walks : Expansion → Walk}

theorem tracks_runTimes (faithful : Walks quota part walk) (count : Nat) (captures : Captures)
    (follows : Follows quota next walks) :
    Tracks quota (runTimes quota part count captures next)
      ((Pattern.copyWalk walk count captures).bind walks) := by
  induction count generalizing captures next walks with
  | zero =>
    simp only [Pattern.copyWalk, Walk.bind_step, Walk.bind_single]
    exact (follows.tracks _).tick
  | succ count ih =>
    simp only [Pattern.copyWalk, Walk.bind_step, Walk.bind_bind, Walk.bind_single]
    refine (faithful captures _ _ (follows_of_inert (fun head => ?_) fun head => ?_)).tick
    · exact ih head.captures (follows.map head.after)
    · exact inert_runTimes part count head.captures _

/-- The counts of a repetition are gone through as their walks say, also where the last step
was taken just before. -/
theorem tracks_runCounts (faithful : Walks quota part walk) (captures : Captures)
    (follows : Follows quota next walks) (more count : Nat)
    (within : count + more ≤ quota.expansion + 1) :
    Tracks quota (runCounts quota part captures next more count)
      ((List.range' count more).flatMap fun count =>
        (Pattern.countWalk walk count captures).bind walks) := by
  induction more generalizing count with
  | zero => exact fun _ _ => .inl rfl
  | succ more ih =>
    intro search going
    have wanting : search.wanted ≠ 0 := fun none => going (.inl none)
    rw [List.range'_succ, List.flatMap_cons, Pattern.countWalk, Walk.bind_append]
    unfold runCounts
    rw [if_neg wanting]
    by_cases long : lengthBound ≤ count
    · rw [if_pos long, if_pos long, Walk.bind_breaks, List.cons_append, List.cons_append,
        Search.play_cons going, Search.play_halted (.inl rfl)]
      exact .inl rfl
    · rw [if_neg long, if_neg long, Walk.bind_nil, List.nil_append]
      by_cases beyond : quota.steps ≤ search.steps
      -- The walk still takes the step that is refused, and the search does not even try it.
      · obtain ⟨rest, first⟩ := Pattern.copyWalk_first walk count captures
        have halted : Search.Halted quota { search with steps := search.steps + 1 } :=
          .inr (by show quota.steps < search.steps + 1; omega)
        rw [if_pos beyond, first, Walk.bind_step, List.cons_append, Search.play_cons going]
        show Search.Agrees quota (Search.play quota _ { search with steps := search.steps + 1 }) _
        rw [Search.play_halted halted]
        refine .inr ⟨halted, ?_⟩
        split
        · exact .broken search.steps wanting (by omega)
        · exact .still search.steps (.inr beyond)
      · rw [if_neg beyond]
        exact (tracks_runTimes faithful count captures follows).comp (ih (count + 1) (by omega))
          (inert_runCounts part captures next more (count + 1) (by omega)) search going

theorem tracks_runRepeated (whole : quota.isWhole = true) (faithful : Walks quota part walk)
    (least : Nat) (most : Option Nat) (captures : Captures) (follows : Follows quota next walks) :
    Tracks quota (runRepeated quota part least most captures next)
      (Walk.bind ((Pattern.copies quota.expansion least most).flatMap fun count =>
        Pattern.countWalk walk count captures) walks) := by
  have counts (cap : Nat) (within : cap ≤ quota.expansion) :=
    tracks_runCounts faithful captures follows (cap + 1 - min least cap) (min least cap) (by omega)
  intro search going
  rw [Walk.bind_flatMap, Pattern.copies, Pattern.leastCopies]
  unfold runRepeated
  rw [show quota.canStart least most = true by simp [Quota.canStart, whole]]
  cases most with
  | none =>
    rw [show Pattern.mostCopies quota.expansion none = quota.expansion from Nat.min_self _]
    exact counts quota.expansion (Nat.le_refl _) search going
  | some most => exact counts (min most quota.expansion) (Nat.min_le_right _ _) search going

end Enumerator

namespace Pattern

open Enumerator

variable {quota : Quota}

theorem inert_enumerator (pattern : Pattern) (captures : Captures) (next : Continuation) :
    Inert quota ((pattern.enumerator quota).run captures next) := by
  cases pattern with
  | group capture => cases capture <;> exact inert_tick
  | backref target => cases target <;> exact inert_tick
  | set negated items =>
    show Inert quota (Search.tick quota fun search =>
      (Sampling.members negated items).foldl (fun search u => next ⟨[u], captures⟩ search) search)
    exact inert_tick
  | _ => exact inert_tick

theorem inert_runAny (options : List Pattern) (captures : Captures) (next : Continuation) :
    Inert quota (runAny (enumerators quota options) captures next) := by
  induction options with
  | nil => exact fun _ spent => .rest spent
  | cons option options ih => exact (inert_enumerator option captures next).comp ih

mutual

/-- Under a whole expansion limit a pattern hands on its expansions as its walk says. -/
theorem walks_enumerator (whole : quota.isWhole = true) : ∀ pattern : Pattern,
    Walks quota (pattern.enumerator quota) (walk quota.expansion quota.names pattern)
  | char value, captures, next, walks, follows => by
    simp only [walk, Walk.bind_step, Walk.bind_single]
    exact (follows.tracks _).tick
  | set negated items, captures, next, walks, follows => by
    have members := follows ((Sampling.members negated items).map fun u => ⟨[u], captures⟩)
    simp only [List.foldl_map, List.flatMap_map] at members
    simp only [walk, Walk.bind_step, Walk.bind_map_found]
    exact members.tick
  | anchor, captures, next, walks, follows => by
    simp only [walk, Walk.bind_step, Walk.bind_single]
    exact (follows.tracks _).tick
  | look _, captures, next, walks, follows => by
    simp only [walk, Walk.bind_step, Walk.bind_single]
    exact (follows.tracks _).tick
  | seq items, captures, next, walks, follows => by
    rw [walk, Walk.bind_step]
    exact (tracks_runAll whole items captures next walks follows).tick
  | alt options, captures, next, walks, follows => by
    rw [walk, Walk.bind_step]
    exact (tracks_runAny whole options captures next walks follows).tick
  | group none body, captures, next, walks, follows => by
    rw [walk, Walk.bind_step]
    exact (walks_enumerator whole body captures next walks follows).tick
  | group (some capture) body, captures, next, walks, follows => by
    simp only [walk, Walk.bind_step, Walk.bind_bind, Walk.bind_single]
    exact (walks_enumerator whole body captures _ _ (follows.map fun inner =>
      ⟨inner.text, (capture.index, inner.text) :: inner.captures⟩)).tick
  | backref (.index n), captures, next, walks, follows => by
    simp only [walk, Walk.bind_step, Walk.bind_single]
    exact (follows.tracks _).tick
  | backref (.name name), captures, next, walks, follows => by
    simp only [walk, Walk.bind_step, Walk.bind_single]
    exact (follows.tracks _).tick
  | repeated body least most, captures, next, walks, follows => by
    rw [walk, Walk.bind_step]
    exact (tracks_runRepeated whole (walks_enumerator whole body) least most captures follows).tick

theorem tracks_runAll (whole : quota.isWhole = true) : ∀ (items : List Pattern) (captures : Captures)
    (next : Continuation) (walks : Expansion → Walk), Follows quota next walks →
    Tracks quota (runAll quota (enumerators quota items) captures next)
      ((seqWalk quota.expansion quota.names items captures).bind walks)
  | [], captures, next, walks, follows => by
    simp only [seqWalk, Walk.bind_step, Walk.bind_single]
    exact (follows.tracks _).tick
  | item :: items, captures, next, walks, follows => by
    simp only [seqWalk, Walk.bind_step, Walk.bind_bind, Walk.bind_single]
    refine (walks_enumerator whole item captures _ _
      (follows_of_inert (fun head => ?_) fun head => ?_)).tick
    · exact tracks_runAll whole items head.captures _ _ (follows.map head.after)
    · exact inert_runAll (enumerators quota items) head.captures _

theorem tracks_runAny (whole : quota.isWhole = true) : ∀ (options : List Pattern) (captures : Captures)
    (next : Continuation) (walks : Expansion → Walk), Follows quota next walks →
    Tracks quota (runAny (enumerators quota options) captures next)
      ((altWalk quota.expansion quota.names options captures).bind walks)
  | [], _, _, _, _ => fun _ _ => .inl rfl
  | option :: options, captures, next, walks, follows => by
    rw [altWalk, Walk.bind_append]
    exact (walks_enumerator whole option captures next walks follows).comp
      (tracks_runAny whole options captures next walks follows) (inert_runAny options captures next)

end

end Pattern

end Highlight
