import Highlight.Proofs.Pattern.Search

/-!
# What a search finds within its steps

`Walk.within` is the part of a walk in front of the first step that goes beyond a number of steps.
What a search finds is the beginning of what that part finds (`play_found`), and it breaks down
where that part does before all samples are found (`play_isBroken`). More steps never change what
was found with fewer.
-/

namespace Highlight

namespace Walk

/-- The part of a walk in front of the first step beyond those allowed. -/
def within : Nat → Walk → Walk
  | _, [] => []
  | 0, .step :: _ => []
  | steps + 1, .step :: walk => .step :: within steps walk
  | steps, .breaks :: walk => .breaks :: within steps walk
  | steps, .found expansion :: walk => .found expansion :: within steps walk

/-- Within a number of steps, a walk breaks down before so many expansions are found. -/
def Breaks (walk : Walk) (steps wanted : Nat) : Prop :=
  ∃ before after : Walk,
    walk.within steps = before ++ .breaks :: after ∧ before.finds.length < wanted

variable {walk : Walk}

theorem within_isPrefix (steps : Nat) (walk : Walk) : walk.within steps <+: walk := by
  fun_induction within steps walk with
  | case1 => exact List.prefix_rfl
  | case2 => exact List.nil_prefix
  | case3 steps walk ih => exact (List.prefix_cons_inj _).2 ih
  | case4 steps walk ih => exact (List.prefix_cons_inj _).2 ih
  | case5 steps expansion walk ih => exact (List.prefix_cons_inj _).2 ih

theorem within_mono {few many : Nat} (le : few ≤ many) (walk : Walk) :
    walk.within few <+: walk.within many := by
  induction walk generalizing few many with
  | nil => simp [within]
  | cons event walk ih =>
    cases event with
    | step =>
      cases few with
      | zero => exact List.nil_prefix
      | succ few =>
        cases many with
        | zero => omega
        | succ many => exact (List.prefix_cons_inj _).2 (ih (by omega))
    | breaks => simpa [within] using ih le
    | found expansion => simpa [within] using ih le

/-- A walk that is cut goes on with a step, and no step is left for it. -/
theorem within_cut (steps : Nat) (walk : Walk) :
    walk.within steps = walk ∨
      ∃ after, walk = walk.within steps ++ .step :: after ∧ (walk.within steps).steps = steps := by
  fun_induction within steps walk with
  | case1 => exact .inl rfl
  | case2 walk => exact .inr ⟨walk, rfl, rfl⟩
  | case3 steps walk ih =>
    refine ih.imp (congrArg _) fun ⟨after, parts, all⟩ => ⟨after, ?_, ?_⟩
    · rw [List.cons_append, ← parts]
    · rw [steps_step, all]
  | case4 steps walk ih =>
    refine ih.imp (congrArg _) fun ⟨after, parts, all⟩ => ⟨after, ?_, ?_⟩
    · rw [List.cons_append, ← parts]
    · rw [steps_breaks, all]
  | case5 steps expansion walk ih =>
    refine ih.imp (congrArg _) fun ⟨after, parts, all⟩ => ⟨after, ?_, ?_⟩
    · rw [List.cons_append, ← parts]
    · rw [steps_found, all]

theorem within_all {steps : Nat} (enough : walk.steps ≤ steps) : walk.within steps = walk := by
  refine (within_cut steps walk).resolve_right fun ⟨after, parts, all⟩ => ?_
  have counted := congrArg Walk.steps parts
  rw [steps_append, steps_step] at counted
  omega

theorem breaks_step {steps wanted : Nat} :
    Breaks (.step :: walk) (steps + 1) wanted ↔ walk.Breaks steps wanted := by
  constructor
  · rintro ⟨before, after, parts, few⟩
    cases before with
    | nil => simp [within] at parts
    | cons event before =>
      simp only [within, List.cons_append, List.cons.injEq] at parts
      obtain ⟨rfl, parts⟩ := parts
      exact ⟨before, after, parts, few⟩
  · rintro ⟨before, after, parts, few⟩
    exact ⟨.step :: before, after, by rw [within, parts, List.cons_append], few⟩

theorem breaks_found {steps wanted : Nat} {expansion : Expansion} :
    Breaks (.found expansion :: walk) steps (wanted + 1) ↔ walk.Breaks steps wanted := by
  constructor
  · rintro ⟨before, after, parts, few⟩
    cases before with
    | nil => simp [within] at parts
    | cons event before =>
      simp only [within, List.cons_append, List.cons.injEq] at parts
      obtain ⟨rfl, parts⟩ := parts
      exact ⟨before, after, parts, by simpa using few⟩
  · rintro ⟨before, after, parts, few⟩
    exact ⟨.found expansion :: before, after, by rw [within, parts, List.cons_append],
      by simpa using few⟩

end Walk

namespace Search

variable {quota : Quota} {search : Search}

theorem not_halted {left wanted : Nat} (steps : search.steps + left = quota.steps)
    (wanting : search.wanted = wanted + 1) : ¬Halted quota search := by
  unfold Halted
  omega

theorem keep_wanted {wanted : Nat} (wanting : search.wanted = wanted + 1) (e : Expansion) :
    search.keep e = { search with wanted, found := e.text :: search.found } := by
  simp [keep, wanting]

theorem play_breaks (going : ¬Halted quota search) (walk : Walk) :
    search.play quota (.breaks :: walk) = search.breakDown := by
  rw [play_cons going]
  exact play_halted (.inl rfl) walk

theorem play_refused (going : ¬Halted quota search) (spent : search.steps = quota.steps)
    (walk : Walk) :
    search.play quota (.step :: walk) = { search with steps := search.steps + 1 } := by
  rw [play_cons going]
  exact play_halted (.inr (by show quota.steps < search.steps + 1; omega)) walk

/-- A search that does not break down has found the first of the expansions within its steps. -/
theorem play_found (walk : Walk) (search : Search) {left : Nat}
    (steps : search.steps + left = quota.steps)
    (whole : (search.play quota walk).isBroken = false) :
    (search.play quota walk).found.reverse =
        search.found.reverse ++ ((walk.within left).finds.take search.wanted).map (·.text) ∧
      (search.play quota walk).wanted = search.wanted - (walk.within left).finds.length := by
  induction walk generalizing search left with
  | nil => simp [Walk.within]
  | cons event walk ih =>
    cases wanting : search.wanted with
    | zero => simp [play_halted (.inl wanting), wanting]
    | succ wanted =>
      have going := not_halted steps wanting
      cases event with
      | step =>
        cases left with
        | zero => simp [play_refused going steps, Walk.within, wanting]
        | succ left =>
          rw [play_cons going] at whole ⊢
          have steps' : (Event.step.apply search).steps + left = quota.steps := by
            show search.steps + 1 + left = quota.steps
            omega
          have rest := ih _ steps' whole
          rw [rest.1, rest.2]
          simp [Event.apply, Walk.within, wanting]
      | breaks =>
        rw [play_breaks going] at whole
        cases whole
      | found expansion =>
        rw [play_cons going, Event.apply, keep_wanted wanting] at whole ⊢
        have rest := ih { search with wanted, found := expansion.text :: search.found } steps whole
        rw [rest.1, rest.2]
        simp [Walk.within]

/-- A search finds nothing that the walk does not, whether or not it breaks down. -/
theorem mem_play_found {t : Text} (walk : Walk) (search : Search)
    (found : t ∈ (search.play quota walk).found) :
    t ∈ search.found ∨ t ∈ walk.finds.map (·.text) := by
  induction walk generalizing search with
  | nil => exact .inl found
  | cons event walk ih =>
    by_cases halted : Halted quota search
    · rw [play_halted halted] at found
      exact .inl found
    · rw [play_cons halted] at found
      obtain before | after := ih _ found
      · cases event with
        | step => exact .inl before
        | breaks => exact .inl before
        | found expansion =>
          rw [Event.apply, keep] at before
          split at before
          · exact .inl before
          · obtain rfl | before := List.mem_cons.1 before
            · exact .inr List.mem_cons_self
            · exact .inl before
      · cases event with
        | step => exact .inr after
        | breaks => exact .inr after
        | found expansion => exact .inr (List.mem_cons_of_mem _ after)

/-- A search breaks down where the walk does within the steps, unless all is found before. -/
theorem play_isBroken (walk : Walk) (search : Search) {left : Nat}
    (steps : search.steps + left = quota.steps) (whole : search.isBroken = false) :
    (search.play quota walk).isBroken = true ↔ walk.Breaks left search.wanted := by
  induction walk generalizing search left with
  | nil => simp [Walk.Breaks, Walk.within, whole]
  | cons event walk ih =>
    cases wanting : search.wanted with
    | zero => simp [play_halted (.inl wanting), Walk.Breaks, whole]
    | succ wanted =>
      have going := not_halted steps wanting
      cases event with
      | step =>
        cases left with
        | zero => simp [play_refused going steps, Walk.Breaks, Walk.within, whole]
        | succ left =>
          rw [play_cons going, Walk.breaks_step, ← wanting]
          exact ih _ (by show search.steps + 1 + left = _; omega) whole
      | breaks =>
        rw [play_breaks going]
        refine iff_of_true rfl ⟨[], Walk.within left walk, ?_, by simp⟩
        cases left <;> rfl
      | found expansion =>
        rw [play_cons going, Event.apply, keep_wanted wanting, Walk.breaks_found]
        exact ih _ steps whole

theorem play_steps_le (walk : Walk) (search : Search) :
    (search.play quota walk).steps ≤ search.steps + walk.steps := by
  induction walk generalizing search with
  | nil => exact Nat.le_refl _
  | cons event walk ih =>
    by_cases halted : Halted quota search
    · rw [play_halted halted]
      exact Nat.le_add_right _ _
    · rw [play_cons halted]
      have rest := ih (event.apply search)
      cases event with
      | step =>
        simp only [Event.apply, Walk.steps_step] at rest ⊢
        omega
      | breaks => exact rest
      | found expansion => simpa [Event.apply] using rest

end Search

end Highlight
