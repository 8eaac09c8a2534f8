import Highlight.Proofs.SubLexer.Pushdown
import Mathlib.Logic.Relation

/-!
# Splices expanded each time

A sub-lexer expands each state once for each state that it runs; where a splice of that state stands
a second time, nothing is put in its place. `Unrolls` puts the rules of the target there each time,
as the compiler of statements does. Both lists give the same first rule to whatever is asked of the
rules one after the other (`findSome?_expands`): what is left out the second time stands further in
front, and was asked in vain. The invariant of the search is that nothing is found in the states that
have been expanded before and can still be met.

Unrolling needs a graph in which no state comes back to itself; expanding once does not, and what it
lists are the rules of all states that splices lead to (`mem_flatten_iff`).
-/

namespace Highlight

open Relation

/-- A rule of the state splices the other one in. -/
def Graph.Brings (graph : Graph) (state target : Text) : Prop :=
  .splice target ∈ SubLexer.rulesAt graph state

/-- A splice among the rules leads to the state, at any depth. -/
def Graph.LeadBy (graph : Graph) (rules : List Rule) (state : Text) : Prop :=
  ∃ target, .splice target ∈ rules ∧ ReflTransGen graph.Brings target state

/-- No state comes back to itself among those that splices lead to from this one. -/
def Graph.EndsFrom (graph : Graph) (state : Text) : Prop :=
  ∀ other, ReflTransGen graph.Brings state other → ¬ TransGen graph.Brings other other

namespace SubLexer

/-- Some rules with the rules of the target in the place of each splice, each time that it occurs,
whose own splices are replaced in turn. -/
inductive Unrolls (graph : Graph) : List Rule → List Rule → Prop
  | nil : Unrolls graph [] []
  | keep {rule : Rule} {rules out : List Rule} (own : rule.isSplice = false)
    (rest : Unrolls graph rules out) : Unrolls graph (rule :: rules) (rule :: out)
  | splice {target : Text} {rules inner out : List Rule}
    (inside : Unrolls graph (rulesAt graph target) inner) (rest : Unrolls graph rules out) :
    Unrolls graph (.splice target :: rules) (inner ++ out)

variable {graph : Graph} {state target other : Text} {rule : Rule}
  {rules rest out inner full full' : List Rule} {seen middle last : List Text}

theorem Unrolls.unique (unrolls : Unrolls graph rules full) (unrolls' : Unrolls graph rules full') :
    full' = full := by
  induction unrolls generalizing full' with
  | nil =>
    cases unrolls'
    rfl
  | keep own _ ih =>
    cases unrolls' with
    | keep _ rest => rw [ih rest]
    | splice => cases own
  | splice _ _ ihInside ihRest =>
    cases unrolls' with
    | keep own => cases own
    | splice inside rest => rw [ihInside inside, ihRest rest]

/-! ## Where splices lead -/

theorem leadBy_cons (leads : graph.LeadBy rest other) : graph.LeadBy (rule :: rest) other := by
  obtain ⟨target, listed, reached⟩ := leads
  exact ⟨target, List.mem_cons_of_mem _ listed, reached⟩

theorem leadBy_inside (leads : graph.LeadBy (rulesAt graph target) other) :
    graph.LeadBy (.splice target :: rest) other := by
  obtain ⟨next, listed, reached⟩ := leads
  exact ⟨target, List.mem_cons_self, .head listed reached⟩

theorem leadBy_rulesAt : graph.LeadBy (rulesAt graph state) other ↔
    TransGen graph.Brings state other := by
  rw [TransGen.head'_iff]
  rfl

/-- A state that is met on the way from one that does not come back to itself is none of those on
the way. The induction is on the number of states that are not, and in each state on its rules. -/
theorem exists_unrolls (path : List Text) (ends : graph.EndsFrom state)
    (before : ∀ other ∈ path, TransGen graph.Brings other state) :
    ∃ full, Unrolls graph (rulesAt graph state) full := by
  generalize left : unseen graph path = count
  induction count using Nat.strong_induction_on generalizing state path with
  | _ count below =>
    subst left
    have fresh : state ∉ path := fun met => ends state .refl (before state met)
    cases known : Table.get? graph state with
    | none =>
      rw [rulesAt_of_unknown known]
      exact ⟨[], .nil⟩
    | some own =>
      have step : ∀ target, .splice target ∈ rulesAt graph state →
          ∃ inner, Unrolls graph (rulesAt graph target) inner := by
        intro target listed
        have brings : graph.Brings state target := listed
        refine below _ (unseen_cons fresh known) (state :: path)
          (fun other reached => ends other (.head brings reached)) (fun other met => ?_) rfl
        obtain rfl | met := List.mem_cons.1 met
        · exact .single brings
        · exact (before other met).tail brings
      generalize rulesAt graph state = rules at step
      induction rules with
      | nil => exact ⟨[], .nil⟩
      | cons rule rules ih =>
        obtain ⟨out, rest⟩ := ih fun target listed => step target (List.mem_cons_of_mem _ listed)
        cases own : rule.isSplice with
        | false => exact ⟨rule :: out, .keep own rest⟩
        | true =>
          obtain ⟨target, rfl⟩ := Rule.exists_of_isSplice own
          obtain ⟨inner, inside⟩ := step target List.mem_cons_self
          exact ⟨inner ++ out, .splice inside rest⟩

/-! ## Searching from the first rule on -/

section Searching

variable {β : Type} {f : Rule → Option β}

/-- Nothing is found in the rules of the state, however they unroll. -/
def Silent (graph : Graph) (f : Rule → Option β) (state : Text) : Prop :=
  ∀ full, Unrolls graph (rulesAt graph state) full → full.findSome? f = none

/-- A search through an expansion finds what a search through the unrolled rules finds, if nothing is
found in the states that were expanded before and that the rules lead to. Where nothing is found,
nothing is found in the states that were expanded on the way either. -/
theorem findSome?_expands (expands : Expands graph seen rules out last)
    (unrolls : Unrolls graph rules full)
    (ends : ∀ other, graph.LeadBy rules other → ¬ TransGen graph.Brings other other)
    (quiet : ∀ other ∈ seen, graph.LeadBy rules other → Silent graph f other) :
    out.findSome? f = full.findSome? f ∧
      (out.findSome? f = none → ∀ other ∈ last, other ∈ seen ∨ Silent graph f other) := by
  induction expands generalizing full with
  | nil seen =>
    cases unrolls
    exact ⟨rfl, fun _ other listed => .inl listed⟩
  | @keep seen last rule rules out own _ ih =>
    cases unrolls with
    | splice => cases own
    | keep _ unrolled =>
      obtain ⟨same, silent⟩ := ih unrolled (fun other leads => ends other (leadBy_cons leads))
        fun other listed leads => quiet other listed (leadBy_cons leads)
      rw [List.findSome?_cons, List.findSome?_cons]
      cases f rule with
      | none => exact ⟨same, silent⟩
      | some b => exact ⟨rfl, fun absurd => nomatch absurd⟩
  | @again seen last target rules out before _ ih =>
    cases unrolls with
    | keep own => cases own
    | splice inside unrolled =>
      have nothing := quiet target before ⟨target, List.mem_cons_self, .refl⟩ _ inside
      rw [List.findSome?_append, nothing, Option.none_or]
      exact ih unrolled (fun other leads => ends other (leadBy_cons leads))
        fun other listed leads => quiet other listed (leadBy_cons leads)
  | @enter seen middle last target rules inner out fresh _ _ ihInside ihRest =>
    cases unrolls with
    | keep own => cases own
    | splice inside unrolled =>
      -- The target does not lead back to itself, so only states from before matter inside.
      have quietInside : ∀ other ∈ target :: seen, graph.LeadBy (rulesAt graph target) other →
          Silent graph f other := by
        intro other listed leads
        obtain rfl | listed := List.mem_cons.1 listed
        · exact absurd (leadBy_rulesAt.1 leads) (ends other (leadBy_inside leads))
        · exact quiet other listed (leadBy_inside leads)
      obtain ⟨same, silent⟩ := ihInside inside (fun other leads => ends other (leadBy_inside leads))
        quietInside
      rw [List.findSome?_append, List.findSome?_append, ← same]
      cases found : inner.findSome? f with
      | some b => exact ⟨rfl, fun absurd => nomatch absurd⟩
      | none =>
        have quietTarget : Silent graph f target := by
          intro full unrolls
          rw [inside.unique unrolls, ← same, found]
        have quietMiddle : ∀ other ∈ middle, other ∈ seen ∨ Silent graph f other := by
          intro other listed
          obtain listed | nothing := silent found other listed
          · obtain rfl | listed := List.mem_cons.1 listed
            · exact .inr quietTarget
            · exact .inl listed
          · exact .inr nothing
        obtain ⟨same', silent'⟩ := ihRest unrolled (fun other leads => ends other (leadBy_cons leads))
          fun other listed leads =>
            (quietMiddle other listed).elim (fun before => quiet other before (leadBy_cons leads)) id
        rw [Option.none_or, Option.none_or]
        refine ⟨same', fun missed other listed => ?_⟩
        obtain listed | nothing := silent' missed other listed
        · exact quietMiddle other listed
        · exact .inr nothing

/-- A search from the first rule on finds the same in the rules that a state runs and in its own with
all splices unrolled. -/
theorem findSome?_flatten (ends : graph.EndsFrom state)
    (unrolls : Unrolls graph (rulesAt graph state) full) (f : Rule → Option β) :
    (flatten graph state).findSome? f = full.findSome? f := by
  obtain ⟨last, expands⟩ := flatten_expands graph state
  refine (findSome?_expands expands unrolls (fun other leads => ?_) fun other listed leads => ?_).1
  · exact ends other (leadBy_rulesAt.1 leads).to_reflTransGen
  · obtain rfl := List.mem_singleton.1 listed
    exact absurd (leadBy_rulesAt.1 leads) (ends other .refl)

end Searching

/-! ## What is listed -/

/-- The rule is listed, or the state that it splices in has been expanded. -/
def Accounted (out : List Rule) (last : List Text) : Rule → Prop
  | .splice target => target ∈ last
  | rule => rule ∈ out

theorem accounted_of_keep (own : rule.isSplice = false) :
    Accounted out last rule ↔ rule ∈ out := by
  cases rule with
  | splice => cases own
  | _ => rfl

theorem Accounted.mono {more : List Rule} {later : List Text} (accounted : Accounted out last rule)
    (subset : out ⊆ more) (subset' : last ⊆ later) : Accounted more later rule := by
  cases rule with
  | splice target => exact subset' accounted
  | _ => exact subset accounted

/-- An expansion accounts for the rules themselves, and for those of each state that it enters. -/
theorem Expands.accounted (expands : Expands graph seen rules out last) :
    (∀ rule ∈ rules, Accounted out last rule) ∧
      ∀ state ∈ last, state ∈ seen ∨ ∀ rule ∈ rulesAt graph state, Accounted out last rule := by
  induction expands with
  | nil seen => exact ⟨nofun, fun state listed => .inl listed⟩
  | @keep seen last rule rules out own rest ih =>
    have more : out ⊆ rule :: out := List.subset_cons_self _ _
    refine ⟨List.forall_mem_cons.2 ⟨(accounted_of_keep own).2 List.mem_cons_self, fun other listed =>
      (ih.1 other listed).mono more (List.Subset.refl _)⟩, fun state listed => ?_⟩
    exact (ih.2 state listed).imp_right fun all other held =>
      (all other held).mono more (List.Subset.refl _)
  | again before rest ih =>
    exact ⟨List.forall_mem_cons.2 ⟨rest.seen_subset before, ih.1⟩, ih.2⟩
  | @enter seen middle last target rules inner out fresh inside rest ihInside ihRest =>
    have back : out ⊆ inner ++ out := List.subset_append_right _ _
    have front {rule : Rule} (accounted : Accounted inner middle rule) :
        Accounted (inner ++ out) last rule :=
      accounted.mono (List.subset_append_left _ _) rest.seen_subset
    refine ⟨List.forall_mem_cons.2 ⟨rest.seen_subset (inside.seen_subset List.mem_cons_self),
      fun rule listed => (ihRest.1 rule listed).mono back (List.Subset.refl _)⟩, ?_⟩
    intro state listed
    obtain met | all := ihRest.2 state listed
    · obtain met | all := ihInside.2 state met
      · obtain rfl | met := List.mem_cons.1 met
        · exact .inr fun rule held => front (ihInside.1 rule held)
        · exact .inl met
      · exact .inr fun rule held => front (all rule held)
    · exact .inr fun rule held => (all rule held).mono back (List.Subset.refl _)

/-- Each rule of an expansion is one of the given rules, or of a state that these lead to. -/
theorem Expands.exists_of_mem (expands : Expands graph seen rules out last) (listed : rule ∈ out) :
    rule ∈ rules ∨ ∃ state, graph.LeadBy rules state ∧ rule ∈ rulesAt graph state := by
  have further {rules : List Rule} {first : Rule}
      (found : rule ∈ rules ∨ ∃ state, graph.LeadBy rules state ∧ rule ∈ rulesAt graph state) :
      rule ∈ first :: rules ∨
        ∃ state, graph.LeadBy (first :: rules) state ∧ rule ∈ rulesAt graph state := by
    refine found.imp (List.mem_cons_of_mem _) ?_
    rintro ⟨state, leads, held⟩
    exact ⟨state, leadBy_cons leads, held⟩
  induction expands with
  | nil => cases listed
  | keep own _ ih =>
    cases listed with
    | head => exact .inl List.mem_cons_self
    | tail _ listed => exact further (ih listed)
  | again _ _ ih => exact further (ih listed)
  | @enter _ _ _ target _ _ _ _ _ _ inside rest =>
    obtain listed | listed := List.mem_append.1 listed
    · obtain held | ⟨state, leads, held⟩ := inside listed
      · exact .inr ⟨target, ⟨target, List.mem_cons_self, .refl⟩, held⟩
      · exact .inr ⟨state, leadBy_inside leads, held⟩
    · exact further (rest listed)

/-- A state runs the rules of all states that splices lead to from it, however they lead there. -/
theorem mem_flatten_iff : rule ∈ flatten graph state ↔ rule.isSplice = false ∧
    ∃ other, ReflTransGen graph.Brings state other ∧ rule ∈ rulesAt graph other := by
  obtain ⟨last, expands⟩ := flatten_expands graph state
  constructor
  · intro listed
    refine ⟨(expands.mem_out listed).1, ?_⟩
    obtain held | ⟨other, leads, held⟩ := expands.exists_of_mem listed
    · exact ⟨state, .refl, held⟩
    · exact ⟨other, (leadBy_rulesAt.1 leads).to_reflTransGen, held⟩
  · rintro ⟨own, other, reached, held⟩
    obtain ⟨start, entered⟩ := expands.accounted
    have all {other : Text} (met : other ∈ last) :
        ∀ rule ∈ rulesAt graph other, Accounted (flatten graph state) last rule := by
      obtain same | all := entered other met
      · obtain rfl := List.mem_singleton.1 same
        exact start
      · exact all
    have met : other ∈ last := by
      clear held
      induction reached with
      | refl => exact expands.seen_subset List.mem_cons_self
      | tail _ brings ih => exact all ih _ brings
    exact (accounted_of_keep own).1 (all met rule held)

/-- What grows less along each step grows less along every way. -/
theorem lt_of_transGen {R : Text → Text → Prop} {rank : Text → Nat}
    (less : ∀ state target, R state target → rank target < rank state)
    (reaches : TransGen R state target) : rank target < rank state := by
  induction reaches with
  | single step => exact less _ _ step
  | tail _ step ih => exact Nat.lt_trans (less _ _ step) ih

/-- Splices do not lead back if something grows less along each of them. -/
theorem endsFrom_of_rank (rank : Text → Nat)
    (falls : ∀ entry ∈ graph, ∀ target, .splice target ∈ entry.2 → rank target < rank entry.1) :
    graph.EndsFrom state := by
  have less (state target : Text) (brings : graph.Brings state target) :
      rank target < rank state := falls _ (entry_of_mem_rulesAt brings) target brings
  exact fun _ _ cycle => Nat.lt_irrefl _ (lt_of_transGen less cycle)

/-- Expanding each state at most once loses nothing. If no splice leads back to where it came from,
the splices of a state unroll to one list of rules, and whatever the rules are asked, the first one
to say yes is the same in both lists; so it is for the rules that match at a place of a text. In any
graph the expansion comes to an end, and it lists exactly the rules of the states that splices lead
to. -/
theorem flatten_first (graph : Graph) (state : Text) :
    (graph.EndsFrom state → ∃ full,
      (∀ out, Unrolls graph (rulesAt graph state) out ↔ out = full) ∧
      (∀ takes : Rule → Bool, (flatten graph state).find? takes = full.find? takes) ∧
      ∀ text place, Pushdown.choose? (flatten graph state) text place =
        Pushdown.choose? full text place) ∧
    (∃ last, Expands graph [state] (rulesAt graph state) (flatten graph state) last) ∧
    ∀ rule, rule ∈ flatten graph state ↔ rule.isSplice = false ∧
      ∃ other, ReflTransGen graph.Brings state other ∧ rule ∈ rulesAt graph other := by
  refine ⟨fun ends => ?_, flatten_expands graph state, fun rule => mem_flatten_iff⟩
  obtain ⟨full, unrolls⟩ := exists_unrolls [] ends nofun
  refine ⟨full, fun out => ⟨unrolls.unique, ?_⟩, fun takes => ?_, fun text place => ?_⟩
  · rintro rfl
    exact unrolls
  · have found := findSome?_flatten ends unrolls (Option.guard takes)
    rwa [List.findSome?_guard, List.findSome?_guard] at found
  · exact findSome?_flatten ends unrolls _

/-- States that are spliced in twice, before and behind a rule and within another state, and a rule
that enters its own state. -/
def folded : Graph := [
  ("root", [.splice "words", .splice "marks", .nested "<" (.literal "Open") "root",
    .splice "words"]),
  ("words", [.splice "marks", .literal "[a-z]+" (.literal "Word")]),
  ("marks", [.literal "x" (.literal "Mark"), .splice "none"])]

theorem flatten_first_folded : folded.EndsFrom "root" ∧
    flatten folded "root" = [.literal "x" (.literal "Mark"), .literal "[a-z]+" (.literal "Word"),
      .nested "<" (.literal "Open") "root"] ∧
    ∃ full, full.length = 6 ∧ (∀ out, Unrolls folded (rulesAt folded "root") out ↔ out = full) ∧
      (∀ takes : Rule → Bool, (flatten folded "root").find? takes = full.find? takes) ∧
      ∀ text place, Pushdown.choose? (flatten folded "root") text place =
        Pushdown.choose? full text place := by
  have ends : folded.EndsFrom "root" :=
    endsFrom_of_rank (fun state => if state = Text.ofString "root" then 3
      else if state = Text.ofString "words" then 2 else if state = Text.ofString "marks" then 1
      else 0) (by simp [folded]; decide)
  obtain ⟨full, unrolled, same⟩ := (flatten_first folded "root").1 ends
  have nothing : Unrolls folded [.splice "none"] ([] ++ []) := .splice .nil .nil
  have marks : Unrolls folded (rulesAt folded "marks") [.literal "x" (.literal "Mark")] :=
    .keep rfl nothing
  have words : Unrolls folded (rulesAt folded "words")
      [.literal "x" (.literal "Mark"), .literal "[a-z]+" (.literal "Word")] :=
    .splice marks (.keep rfl .nil)
  have all := (unrolled _).1 (.splice words (.splice marks (.keep rfl (.splice words .nil))))
  refine ⟨ends, rfl, full, ?_, unrolled, same⟩
  rw [← all]
  rfl

end SubLexer

end Highlight
