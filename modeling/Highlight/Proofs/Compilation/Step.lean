import Highlight.Compilation.Session
import Highlight.Proofs.Outcome

/-!
# Steps of a compilation

A step of a compilation reads and changes the session, and it may fail. `Yields` says that a step
gives a result from one session and leaves another one behind, and `Fails` that it ends in an error.
Each way in which steps are built has one lemma that takes a success apart and one for a failure, so
that later proofs never open the monad.

`Refines` orders steps: the second does all that the first does where that succeeds. It is kept
by sequencing, which is how a limit that is raised keeps every success. `Ensures` says what every
success of a step gives and what it keeps of the session.
-/

namespace Highlight

/-- Saying where an error was met does not change its cause. -/
theorem GrammarError.fault_within (e : GrammarError) (site : Site) :
    (e.within site).fault = e.fault := by
  unfold within
  split <;> rfl

namespace Compilation

variable {α β : Type} {x y : Compilation α} {f g : α → Compilation β} {σ σ' : Session}

/-- From the session `σ` the step gives `a` and leaves the session `σ'`. -/
def Yields (step : Compilation α) (σ : Session) (a : α) (σ' : Session) : Prop :=
  step.run.run σ = (.ok a, σ')

theorem yields_pure_iff {a b : α} : Yields (pure a) σ b σ' ↔ b = a ∧ σ' = σ := by
  constructor
  · intro h
    cases h
    exact ⟨rfl, rfl⟩
  · rintro ⟨rfl, rfl⟩
    rfl

/-- A sequence runs its second part from the state that the first one leaves. -/
theorem run_bind {S : Type} {x : ExceptT GrammarError (StateM S) α}
    {f : α → ExceptT GrammarError (StateM S) β} {s : S} :
    (x >>= f).run.run s = match x.run.run s with
      | (.ok a, s₁) => (f a).run.run s₁
      | (.error e, s₁) => (.error e, s₁) := by
  change (ExceptT.bindCont f (x.run.run s).1).run (x.run.run s).2 = _
  rcases x.run.run s with ⟨a | a, s₁⟩ <;> rfl

/-- Saying where an error was met leaves the session alone. -/
theorem run_within {site : Site} : (within site x).run.run σ =
    ((x.run.run σ).1.mapError (·.within site), (x.run.run σ).2) := rfl

theorem yields_bind_iff {b : β} :
    Yields (x >>= f) σ b σ' ↔ ∃ a σ₁, Yields x σ a σ₁ ∧ Yields (f a) σ₁ b σ' := by
  constructor
  · intro h
    rw [Yields, run_bind] at h
    rcases hx : x.run.run σ with ⟨e | a, σ₁⟩ <;> rw [hx] at h
    · cases h
    · exact ⟨a, σ₁, hx, h⟩
  · rintro ⟨a, σ₁, hx, hf⟩
    rw [Yields] at hx
    rw [Yields, run_bind, hx]
    exact hf

theorem not_yields_throw {e : GrammarError} {a : α} :
    ¬ Yields (throw e : Compilation α) σ a σ' := by
  intro h
  cases h

theorem yields_ofExcept_iff {e : Except GrammarError α} {a : α} :
    Yields (ofExcept e) σ a σ' ↔ e = .ok a ∧ σ' = σ := by
  constructor
  · intro h
    cases h
    exact ⟨rfl, rfl⟩
  · rintro ⟨rfl, rfl⟩
    rfl

/-- Saying where an error was met changes no success. -/
theorem yields_within_iff {site : Site} {a : α} :
    Yields (within site x) σ a σ' ↔ Yields x σ a σ' := by
  rw [Yields, Yields, run_within]
  rcases x.run.run σ with ⟨e | b, σ₁⟩
  · constructor <;> intro h <;> cases h
  · exact Iff.rfl

/-! ## Failures -/

/-- From the session `σ` the step fails with `e` and leaves the session `σ'`. -/
def Fails (step : Compilation α) (σ : Session) (e : GrammarError) (σ' : Session) : Prop :=
  step.run.run σ = (.error e, σ')

/-- A step comes to an end, in one of two ways. -/
theorem yields_or_fails (step : Compilation α) (σ : Session) :
    (∃ a σ', Yields step σ a σ') ∨ ∃ e σ', Fails step σ e σ' := by
  unfold Yields Fails
  rcases step.run.run σ with ⟨e | a, σ'⟩
  · exact .inr ⟨e, σ', rfl⟩
  · exact .inl ⟨a, σ', rfl⟩

/-- What a run comes to, without the session that it leaves. -/
theorem outcome_eq_ok_iff {a : α} : (x.run.run σ).1 = .ok a ↔ ∃ σ', Yields x σ a σ' := by
  unfold Yields
  rcases x.run.run σ with ⟨result, σ₁⟩
  exact ⟨fun same => ⟨σ₁, congrArg (·, σ₁) same⟩, fun ⟨σ', same⟩ => congrArg Prod.fst same⟩

theorem outcome_eq_error_iff {e : GrammarError} :
    (x.run.run σ).1 = .error e ↔ ∃ σ', Fails x σ e σ' := by
  unfold Fails
  rcases x.run.run σ with ⟨result, σ₁⟩
  exact ⟨fun same => ⟨σ₁, congrArg (·, σ₁) same⟩, fun ⟨σ', same⟩ => congrArg Prod.fst same⟩

theorem not_fails_pure {a : α} {e : GrammarError} : ¬ Fails (pure a) σ e σ' := by
  intro h
  cases h

theorem fails_throw_iff {e e' : GrammarError} :
    Fails (throw e : Compilation α) σ e' σ' ↔ e' = e ∧ σ' = σ := by
  constructor
  · intro h
    cases h
    exact ⟨rfl, rfl⟩
  · rintro ⟨rfl, rfl⟩
    rfl

theorem fails_ofExcept_iff {result : Except GrammarError α} {e : GrammarError} :
    Fails (ofExcept result) σ e σ' ↔ result = .error e ∧ σ' = σ := by
  constructor
  · intro h
    cases h
    exact ⟨rfl, rfl⟩
  · rintro ⟨rfl, rfl⟩
    rfl

/-- A sequence fails in its first part, or in its second part behind a first one that succeeds. -/
theorem fails_bind_iff {e : GrammarError} :
    Fails (x >>= f) σ e σ' ↔ Fails x σ e σ' ∨ ∃ a σ₁, Yields x σ a σ₁ ∧ Fails (f a) σ₁ e σ' := by
  unfold Fails Yields
  rw [run_bind]
  rcases x.run.run σ with ⟨e₁ | a, σ₁⟩
  · constructor
    · intro h
      cases h
      exact .inl rfl
    · rintro (h | ⟨a, σ₂, absurd, -⟩)
      · cases h
        rfl
      · cases absurd
  · constructor
    · intro h
      exact .inr ⟨a, σ₁, rfl, h⟩
    · rintro (absurd | ⟨b, σ₂, same, h⟩)
      · cases absurd
      · cases same
        exact h

theorem fails_within_iff {site : Site} {e : GrammarError} :
    Fails (within site x) σ e σ' ↔ ∃ met, Fails x σ met σ' ∧ e = met.within site := by
  unfold Fails
  rw [run_within]
  rcases x.run.run σ with ⟨met | a, σ₁⟩
  · constructor
    · intro h
      cases h
      exact ⟨met, rfl, rfl⟩
    · rintro ⟨met, same, rfl⟩
      cases same
      rfl
  · constructor
    · intro h
      cases h
    · rintro ⟨met, absurd, -⟩
      cases absurd

/-! ## More successes -/

/-- Wherever the first step succeeds, the second one does the same. -/
def Refines (x y : Compilation α) : Prop := ∀ σ a σ', Yields x σ a σ' → Yields y σ a σ'

theorem Refines.refl (x : Compilation α) : Refines x x := fun _ _ _ h => h

theorem refines_throw {e : GrammarError} : Refines (throw e) y :=
  fun _ _ _ h => absurd h not_yields_throw

theorem Refines.bind (first : Refines x y) (next : ∀ a, Refines (f a) (g a)) :
    Refines (x >>= f) (y >>= g) := by
  intro σ b σ' h
  obtain ⟨a, σ₁, hx, hf⟩ := yields_bind_iff.1 h
  exact yields_bind_iff.2 ⟨a, σ₁, first σ a σ₁ hx, next a σ₁ b σ' hf⟩

/-! ## What every success keeps -/

section Ensures

variable {I : Session → Prop} {P : α → Prop} {Q : β → Prop}

/-- From a session of one kind, a step that succeeds gives a result of a kind and leaves a session of
the same kind. -/
def Ensures (I : Session → Prop) (P : α → Prop) (step : Compilation α) : Prop :=
  ∀ σ a σ', I σ → Yields step σ a σ' → P a ∧ I σ'

theorem ensures_pure {a : α} (holds : P a) : Ensures I P (pure a) := by
  intro σ b σ' kept yields
  obtain ⟨rfl, rfl⟩ := yields_pure_iff.1 yields
  exact ⟨holds, kept⟩

theorem ensures_throw {e : GrammarError} : Ensures I P (throw e : Compilation α) :=
  fun _ _ _ _ yields => absurd yields not_yields_throw

theorem ensures_ofExcept {result : Except GrammarError α} (holds : ∀ a, result = .ok a → P a) :
    Ensures I P (ofExcept result) := by
  intro σ a σ' kept yields
  obtain ⟨given, rfl⟩ := yields_ofExcept_iff.1 yields
  exact ⟨holds a given, kept⟩

theorem Ensures.bind (first : Ensures I P x) (next : ∀ a, P a → Ensures I Q (f a)) :
    Ensures I Q (x >>= f) := by
  intro σ b σ' kept yields
  obtain ⟨a, σ₁, here, there⟩ := yields_bind_iff.1 yields
  obtain ⟨holds, kept⟩ := first _ _ _ kept here
  exact next a holds _ _ _ kept there

theorem Ensures.within (ensures : Ensures I P x) {site : Site} : Ensures I P (.within site x) :=
  fun σ a σ' kept yields => ensures σ a σ' kept (yields_within_iff.1 yields)

end Ensures

end Compilation

end Highlight
