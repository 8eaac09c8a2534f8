import Highlight.Proofs.Inlining.Lexers

/-!
# First tokens in an inlined language

Where a rule stands among the rules of a state shows in two ways: a rule without a type names its
token by its place, and a group that a pattern refers to by number is counted over all rules of the
state. `Rule.Placeless` rules show their place in neither way. Unless the places matter, the lexer
of a language and that of the inlined language give the same first token to every text
(`firstToken_inlined`).
-/

namespace Highlight

/-- The types that a spec has for what is matched, or for parts of it. -/
def TokenSpec.types : TokenSpec → List TokenType
  | literal token => [token]
  | compound items => items.filterMap fun
    | literal token => some token
    | _ => none
  | dynamic _ => []

/-- The place of the rule among the rules of a state does not show: each type has a name, and no
group is referred to by number. -/
structure Rule.Placeless (rule : Rule) : Prop where
  typed : ∀ token ∈ rule.token?, [] ∉ token.types
  unnumbered : ∀ pattern ∈ rule.pattern?, Regex.Unnumbered false pattern

/-- The rules that the state runs keep their places when splices are replaced, or these do not
show. -/
def Language.Steady (language : Language) (state : Text) : Prop :=
  SubLexer.flatten language.inlined.graph state = SubLexer.flatten language.graph state ∨
    ∀ rule ∈ SubLexer.flatten language.graph state, rule.Placeless

namespace SubLexer

variable {language : Language} {start state : Text} {lexer lexer' : SubLexer}
  {states states' : Table Text (List LexRule)} {rule : Rule} {active : ActiveRule}

theorem ofGroups_ne_nil {items : List TokenSpec} (typed : [] ∉ (TokenSpec.compound items).types)
    (found : Regex.State) (index : Nat) : Naming.ofGroups found index items ≠ [] := by
  induction items generalizing index with
  | nil => exact List.cons_ne_nil _ _
  | cons item items ih =>
    have others : [] ∉ (TokenSpec.compound items).types := by
      intro listed
      obtain ⟨held, inside, nameless⟩ := List.mem_filterMap.1 listed
      exact typed (List.mem_filterMap.2 ⟨held, List.mem_cons_of_mem _ inside, nameless⟩)
    unfold Naming.ofGroups
    split
    · exact ih others (index + 1)
    · cases item with
      | literal token =>
        rintro rfl
        exact typed (List.mem_filterMap.2 ⟨.literal [], List.mem_cons_self, rfl⟩)
      | compound items => exact List.cons_ne_nil _ _
      | dynamic ref => exact List.cons_ne_nil _ _

/-- A rule whose types have names gives one to all that it matches. -/
theorem Runs.type_ne_nil (runs : Runs state rule active) (placeless : rule.Placeless)
    (text : Text) : active.rule.naming.token text ≠ [] := by
  obtain ⟨pattern, own, naming⟩ := Option.bind_eq_some_iff.1 runs.naming
  unfold namingOf? at naming
  split at naming
  · cases naming
  · rename_i token known
    rw [← Option.some.inj naming]
    rintro rfl
    exact placeless.typed _ known List.mem_cons_self
  · rw [← Option.some.inj naming]
    exact List.cons_ne_nil _ _
  · rename_i items known
    obtain ⟨groups, -, same⟩ := Option.map_eq_some_iff.1 naming
    rw [← same, Naming.token]
    cases groups.matchAt false text.toArray 0 with
    | none => exact List.cons_ne_nil _ _
    | some found => exact ofGroups_ne_nil (placeless.typed _ known) found 1

/-- The rules of a state that can be entered stand for those that the state runs, if none of them
refers to a group by number. -/
theorem Joined.activated_rulesOf (joined : Joined language start lexer states)
    (listed : state ∈ Table.keys lexer.states)
    (unnumbered : ∀ rule ∈ flatten language.graph state, ∀ pattern ∈ rule.pattern?,
      Regex.Unnumbered false pattern) :
    Activated state (flatten language.graph state) (lexer.rulesOf state) := by
  obtain ⟨rules, inside, same⟩ := joined.rulesOf_eq listed
  rw [same]
  exact activated_of_compileState (joined.compiled _ (mem_enterable.1 inside).1).2 unnumbered
    fun rule stands => joined.groupNames_eq inside stands

/-- States that run the same rules are ready in the same way. -/
theorem Joined.rulesOf_congr {language' : Language} (joined : Joined language start lexer states)
    (joined' : Joined language' start lexer' states') (listed : state ∈ Table.keys lexer.states)
    (listed' : state ∈ Table.keys lexer'.states)
    (same : flatten language'.graph state = flatten language.graph state) :
    lexer'.rulesOf state = lexer.rulesOf state := by
  obtain ⟨rules, inside, own⟩ := joined.rulesOf_eq listed
  obtain ⟨rules', inside', own'⟩ := joined'.rulesOf_eq listed'
  have compiled : compileState language.graph state = .ok rules :=
    (joined.compiled _ (mem_enterable.1 inside).1).2
  have compiled' : compileState language'.graph state = .ok rules' :=
    (joined'.compiled _ (mem_enterable.1 inside').1).2
  have ready : compileState language'.graph state = compileState language.graph state := by
    rw [compileState_eq, compileState_eq, same]
  rw [ready, compiled] at compiled'
  rw [own, own', Except.ok.inj compiled']

theorem step_token_inlined (acyclic : language.graph.Acyclic)
    (joined : Joined language start lexer states)
    (joined' : Joined language.inlined start lexer' states') (starts : lexer.start = lexer'.start)
    (steady : language.Steady lexer.start) (text : Array CodeUnit) :
    (lexer.step text lexer.initial).1 = (lexer'.step text lexer'.initial).1 := by
  have listed : lexer.start ∈ Table.keys lexer.states := joined.start_mem
  have listed' : lexer.start ∈ Table.keys lexer'.states := starts ▸ joined'.start_mem
  unfold step initial
  rw [← starts]
  dsimp only
  obtain same | placeless := steady
  · rw [joined.rulesOf_congr joined' listed listed' same]
  · have unnumbered : ∀ rule ∈ flatten language.inlined.graph lexer.start,
        ∀ pattern ∈ rule.pattern?, Regex.Unnumbered false pattern :=
      fun rule held => (placeless rule ((Graph.mem_flatten_inlined acyclic).1 held)).unnumbered
    have activated :=
      joined.activated_rulesOf listed fun rule held => (placeless rule held).unnumbered
    have activated' := joined'.activated_rulesOf listed' unnumbered
    have chosen : Pushdown.choose? (flatten language.inlined.graph lexer.start) text 0 =
        Pushdown.choose? (flatten language.graph lexer.start) text 0 :=
      Graph.findSome?_flatten_inlined acyclic _ _
    obtain ⟨none, none'⟩ | ⟨rule, held, active, -, stop, runs, found, choice⟩ :=
      activated.firstMatch text 0
    · obtain ⟨missed, -⟩ | ⟨_, -, _, -, _, -, -, choice⟩ := activated'.firstMatch text 0
      · rw [none, missed]
      · rw [chosen, none'] at choice
        cases choice
    · obtain ⟨-, missed⟩ | ⟨rule', -, active', -, stop', runs', found', choice'⟩ :=
        activated'.firstMatch text 0
      · rw [chosen, choice] at missed
        cases missed
      · rw [chosen, choice] at choice'
        cases choice'
        have naming : active.rule.naming = active'.rule.naming :=
          Option.some.inj (runs.naming.symm.trans runs'.naming)
        have named (part : Text) : (active'.rule.naming.token part).isEmpty = false :=
          List.isEmpty_eq_false_iff.2 (runs'.type_ne_nil (placeless rule held) part)
        rw [found, found']
        simp only [tokenOf, naming, named]
        rfl

/-- The lexers of a language and of the inlined language give the same first tokens. -/
theorem firstToken_inlined (acyclic : language.graph.Acyclic)
    (built : build language start = .ok lexer) (built' : build language.inlined start = .ok lexer')
    (starts : lexer.start = lexer'.start) (steady : language.Steady lexer.start) (text : Text) :
    lexer.firstToken text = lexer'.firstToken text := by
  obtain ⟨states, joined⟩ := joined_of_build built
  obtain ⟨states', joined'⟩ := joined_of_build built'
  have same := step_token_inlined acyclic joined joined' starts steady text.toArray
  unfold initial at same
  unfold firstToken Run.next next Run.start initial
  rw [← starts] at same ⊢
  dsimp only
  cases text.toArray[0]? with
  | none => rfl
  | some unit =>
    dsimp only
    by_cases nameless : lexer.start.isEmpty
    · rw [if_pos nameless, if_pos nameless]
      rfl
    · rw [if_neg nameless, if_neg nameless]
      simp only [Except.map, Option.map_some, same]

end SubLexer

end Highlight
