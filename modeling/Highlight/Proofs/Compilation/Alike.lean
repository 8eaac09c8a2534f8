import Highlight.Compilation.Body
import Highlight.Proofs.Compilation.Binding
import Highlight.Proofs.SubLexer.Expansion

/-!
# Two runs side by side

A step of a compilation may be run from two sessions, or two steps may be compared. `Alike` says
that they do the same: from sessions that are related they give the same result, or errors that are
related, and leave sessions that are related. Whatever two compilations do beside asking
sub-lexers is alike as soon as the first tokens of the sub-lexers are (`ofPattern_alike`,
`ofList_alike`).
-/

namespace Highlight

namespace Compilation

variable {α β : Type} {R : Session → Session → Prop} {E : GrammarError → GrammarError → Prop}
  {x y : Compilation α} {f g : α → Compilation β}

/-- The same result on both sides, or errors that are related. -/
inductive Agree (E : GrammarError → GrammarError → Prop) :
    Except GrammarError α → Except GrammarError α → Prop where
  | ok (a : α) : Agree E (.ok a) (.ok a)
  | error {e e' : GrammarError} (related : E e e') : Agree E (.error e) (.error e')

/-- From related sessions the steps agree and leave related sessions. -/
def Alike (R : Session → Session → Prop) (E : GrammarError → GrammarError → Prop)
    (x y : Compilation α) : Prop :=
  ∀ σ τ, R σ τ → Agree E (x.run.run σ).1 (y.run.run τ).1 ∧ R (x.run.run σ).2 (y.run.run τ).2

theorem Agree.refl (each : ∀ e, E e e) (result : Except GrammarError α) :
    Agree E result result := by
  cases result with
  | ok a => exact .ok a
  | error e => exact .error (each e)

theorem Agree.toOption_eq {result result' : Except GrammarError α}
    (agree : Agree E result result') : result.toOption = result'.toOption := by
  cases agree <;> rfl

theorem alike_pure (a : α) : Alike R E (pure a) (pure a) :=
  fun _ _ related => ⟨.ok a, related⟩

theorem alike_throw {e e' : GrammarError} (related : E e e') :
    Alike (α := α) R E (throw e) (throw e') :=
  fun _ _ sessions => ⟨.error related, sessions⟩

theorem alike_ofExcept {a b : Except GrammarError α} (agree : Agree E a b) :
    Alike R E (ofExcept a) (ofExcept b) :=
  fun _ _ related => ⟨agree, related⟩

theorem Alike.bind (first : Alike R E x y) (next : ∀ a, Alike R E (f a) (g a)) :
    Alike R E (x >>= f) (y >>= g) := by
  intro σ τ related
  obtain ⟨agree, left⟩ := first σ τ related
  rw [run_bind, run_bind]
  rcases hx : x.run.run σ with ⟨a | a, σ₁⟩ <;> rcases hy : y.run.run τ with ⟨b | b, τ₁⟩ <;>
    rw [hx, hy] at agree left
  · cases agree with
    | error same => exact ⟨.error same, left⟩
  · cases agree
  · cases agree
  · cases agree with
    | ok a => exact next a σ₁ τ₁ left

/-- Errors may be placed on both sides if that keeps them related. -/
theorem Alike.within {site site' : Site}
    (placed : ∀ e e', E e e' → E (e.within site) (e'.within site')) (step : Alike R E x y) :
    Alike R E (within site x) (within site' y) := by
  intro σ τ related
  obtain ⟨agree, left⟩ := step σ τ related
  rw [run_within, run_within]
  refine ⟨?_, left⟩
  generalize (x.run.run σ).1 = a at agree ⊢
  generalize (y.run.run τ).1 = b at agree ⊢
  cases agree with
  | ok a => exact .ok a
  | error same => exact .error (placed _ _ same)

end Compilation

open Compilation

/-- The references that are asked when the spec is bound to groups. -/
def TokenSpec.refs : TokenSpec → List LexerRef
  | compound items => items.filterMap fun
    | dynamic ref => some ref
    | _ => none
  | _ => []

/-- The references that are asked when the rule is bound. -/
def Rule.refs (rule : Rule) : List LexerRef := (rule.token?.map TokenSpec.refs).getD []

section FirstTokens

variable {R : Session → Session → Prop} {E : GrammarError → GrammarError → Prop}
  {ctx ctx' : Context} (refl : ∀ e, E e e) (limits : ctx.limits = ctx'.limits)

include refl limits

theorem Context.dynamicToken_alike (group : Text) (ref : LexerRef)
    (tokens : ∀ text, Alike R E (ctx.firstToken ref text) (ctx'.firstToken ref text)) :
    Alike R E (ctx.dynamicToken group ref) (ctx'.dynamicToken group ref) := by
  unfold dynamicToken
  rw [limits]
  apply (alike_ofExcept (.refl refl _)).bind
  intro sample
  apply (alike_ofExcept (.refl refl _)).bind
  intro text
  apply (tokens text).bind
  intro token
  cases token with
  | none => exact alike_throw (refl _)
  | some token => exact alike_pure _

namespace Binding

theorem groupTokens_alike (pattern : Text) (index : Nat) (parts : List Text)
    (items : List TokenSpec) (tokens : ∀ ref, .dynamic ref ∈ items → ∀ text,
      Alike R E (ctx.firstToken ref text) (ctx'.firstToken ref text)) :
    Alike R E (groupTokens ctx pattern index parts items)
      (groupTokens ctx' pattern index parts items) := by
  induction items generalizing index parts with
  | nil => cases parts <;> exact alike_pure _
  | cons item items ih =>
    cases parts with
    | nil => exact alike_pure _
    | cons part parts =>
      have here : Alike R E (itemToken ctx pattern index part item)
          (itemToken ctx' pattern index part item) := by
        cases item with
        | literal token => exact alike_pure _
        | compound items => exact alike_throw (refl _)
        | dynamic ref =>
          exact Context.dynamicToken_alike refl limits part ref (tokens ref List.mem_cons_self)
      rw [groupTokens_cons, groupTokens_cons]
      apply here.bind
      intro token
      apply (ih (index + 1) parts fun ref held => tokens ref (List.mem_cons_of_mem _ held)).bind
      intro rest
      exact alike_pure _

theorem ofGroups_alike (pattern : Text) (items : List TokenSpec)
    (tokens : ∀ ref, .dynamic ref ∈ items → ∀ text,
      Alike R E (ctx.firstToken ref text) (ctx'.firstToken ref text)) :
    Alike R E (ofGroups ctx pattern items) (ofGroups ctx' pattern items) := by
  apply (alike_ofExcept (.refl refl _)).bind
  intro converted
  have bound : Alike R E
      (groupTokens ctx converted 0 (Dialect.topLevelGroups converted) items >>= fun tokens =>
        pure (Binding.groups tokens converted))
      (groupTokens ctx' converted 0 (Dialect.topLevelGroups converted) items >>= fun tokens =>
        pure (Binding.groups tokens converted)) :=
    (groupTokens_alike refl limits _ _ _ _ tokens).bind fun _ => alike_pure _
  by_cases same : (Dialect.topLevelGroups converted).length = items.length
  · simpa only [ne_eq, same, not_true_eq_false, if_false] using bound
  · simp only [ne_eq, same, not_false_eq_true, if_true]
    exact (alike_throw (refl _)).bind fun _ => bound

/-- A rule binds the same on both sides if the first tokens of the sub-lexers that it asks are the
same. -/
theorem ofPattern_alike (pattern : Text) (token : TokenSpec) (leaves : Bool)
    (tokens : ∀ ref ∈ token.refs, ∀ text,
      Alike R E (ctx.firstToken ref text) (ctx'.firstToken ref text)) :
    Alike R E (ofPattern ctx pattern token leaves) (ofPattern ctx' pattern token leaves) := by
  cases token with
  | literal token =>
    unfold ofPattern
    dsimp only
    split
    · exact alike_pure _
    · exact alike_ofExcept (.refl refl _)
  | compound items =>
    have asked (ref : LexerRef) (held : .dynamic ref ∈ items) :
        ref ∈ (TokenSpec.compound items).refs := List.mem_filterMap.2 ⟨_, held, rfl⟩
    have groups := ofGroups_alike refl limits pattern items fun ref held =>
      tokens ref (asked ref held)
    apply groups.bind
    intro binding
    exact alike_pure _
  | dynamic ref => exact alike_throw (refl _)

end Binding

namespace Body

variable {state state' : Text}
  (placed : ∀ e e' pattern, E e e' →
    E (e.within { Site.unknown with pattern := some pattern, state := some state })
      (e'.within { Site.unknown with pattern := some pattern, state := some state' }))

include placed

theorem bindAt_alike (pattern : Text) (token : TokenSpec) (leaves : Bool)
    (tokens : ∀ ref ∈ token.refs, ∀ text,
      Alike R E (ctx.firstToken ref text) (ctx'.firstToken ref text)) :
    Alike R E (bindAt ctx state pattern token leaves) (bindAt ctx' state' pattern token leaves) :=
  (Binding.ofPattern_alike refl limits pattern token leaves tokens).within
    fun e e' => placed e e' pattern

/-- One rule gives the same on both sides if the sub-lexers that it asks, the state that it leads to
and the region do. The region shows only where a rule enters or leaves its own state. -/
theorem ofRule_alike {other other' : Text → Nat → Compilation (List Statement)}
    {region region' : Compilation (List Statement)} {rule : Rule}
    {hasRegion hasRegion' first first' : Bool}
    (tokens : ∀ ref ∈ rule.refs, ∀ text,
      Alike R E (ctx.firstToken ref text) (ctx'.firstToken ref text))
    (others : ∀ target ∈ rule.target?, ∀ depth,
      Alike R E (other target depth) (other' target depth))
    (entering : rule.isPush = true → first = first' ∧ Alike R E region region')
    (leaving : rule.isPop = true → hasRegion = hasRegion') (depth : Nat) :
    Alike R E (ofRule ctx other region state hasRegion first depth rule)
      (ofRule ctx' other' region' state' hasRegion' first' depth rule) := by
  have bound (pattern : Text) (token : TokenSpec) (leaves : Bool)
      (tokens : ∀ ref ∈ token.refs, ∀ text,
        Alike R E (ctx.firstToken ref text) (ctx'.firstToken ref text)) :=
    bindAt_alike refl limits placed pattern token leaves tokens
  cases rule with
  | splice target => exact others target rfl depth
  | literal pattern token => exact (bound pattern token false tokens).bind fun _ => alike_pure _
  | nested pattern token target =>
    apply (bound pattern token false tokens).bind
    intro binding
    cases binding with
    | none => exact others target rfl depth
    | some binding => exact (others target rfl (depth + 1)).bind fun _ => alike_pure _
  | push pattern token =>
    obtain ⟨rfl, regions⟩ := entering rfl
    cases first with
    | true => exact regions
    | false => exact alike_pure _
  | pop pattern token count =>
    obtain rfl := leaving rfl
    cases hasRegion with
    | true => exact alike_pure _
    | false => exact (bound pattern token true tokens).bind fun _ => alike_pure _
  | unknown raw pattern token => exact alike_throw (refl _)

end Body

end FirstTokens

namespace Body

variable {R : Session → Session → Prop} {E : GrammarError → GrammarError → Prop} {ctx : Context}

theorem ofRules_alike {one one' : Bool → Rule → Compilation (List Statement)} {rules : List Rule}
    (each : ∀ first, ∀ rule ∈ rules, Alike R E (one first rule) (one' first rule)) (first : Bool) :
    Alike R E (ofRules one first rules) (ofRules one' first rules) := by
  induction rules generalizing first with
  | nil => exact alike_pure _
  | cons rule rules ih =>
    apply (each first rule List.mem_cons_self).bind
    intro lines
    apply (ih (fun first rule held => each first rule (List.mem_cons_of_mem _ held)) _).bind
    intro more
    exact alike_pure _

/-- A rule list gives the same from related sessions if sub-lexers do. -/
theorem ofList_alike
    (tokens : ∀ ref text, Alike R Eq (ctx.firstToken ref text) (ctx.firstToken ref text))
    (room : Nat) (state : Text) (list : List Rule) (depth : Nat) :
    Alike R Eq (ofList ctx room state list depth) (ofList ctx room state list depth) := by
  induction room generalizing state list depth with
  | zero => exact alike_throw rfl
  | succ room ih =>
    refine ofRules_alike (fun first rule _ => ?_) true
    have others (target : Text) (depth : Nat) : Alike R Eq
        (Compilation.ofExcept (ctx.rulesOf target) >>= fun list =>
          ofList ctx room target list depth)
        (Compilation.ofExcept (ctx.rulesOf target) >>= fun list =>
          ofList ctx room target list depth) :=
      (alike_ofExcept (.refl (fun _ => rfl) _)).bind fun list => ih target list depth
    have region : Alike R Eq
        (Region.compile Compilation.ofExcept (ofList ctx room state) state list depth)
        (Region.compile Compilation.ofExcept (ofList ctx room state) state list depth) := by
      apply (alike_ofExcept (.refl (fun _ => rfl) _)).bind
      intro binding
      split
      · exact alike_pure _
      · exact (ih state _ (depth + 1)).bind fun _ => alike_pure _
    exact ofRule_alike (fun _ => rfl) rfl (fun e e' _ same => same ▸ rfl)
      (fun ref _ text => tokens ref text) (fun target _ => others target)
      (fun _ => ⟨rfl, region⟩) (fun _ => rfl) depth

end Body

end Highlight
