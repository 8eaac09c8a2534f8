import Highlight.Pattern.Basic

/-!
# The parts of a pattern

`Pattern.parts` lists a pattern and everything it is made of, at any depth. What a statement asks
of a pattern throughout, it asks of each of its parts. `Pattern.outermost` lists the groups that lie
in no other group. Numbering changes nothing of either but the numbers, which `Pattern.unnumbered`
takes away.
-/

namespace Highlight.Pattern

mutual

/-- The pattern itself and the parts of what it is made of. -/
def parts : Pattern → List Pattern
  | alt options => alt options :: partsOfAll options
  | seq items => seq items :: partsOfAll items
  | group capture body => group capture body :: parts body
  | look body => look body :: parts body
  | repeated body least most => repeated body least most :: parts body
  | char value => [char value]
  | set negated items => [set negated items]
  | anchor => [anchor]
  | backref target => [backref target]

/-- The parts of several patterns. -/
def partsOfAll : List Pattern → List Pattern
  | [] => []
  | item :: items => parts item ++ partsOfAll items

end

theorem self_mem_parts (pattern : Pattern) : pattern ∈ pattern.parts := by
  cases pattern <;> exact List.mem_cons_self

theorem partsOfAll_append (items items' : List Pattern) :
    partsOfAll (items ++ items') = partsOfAll items ++ partsOfAll items' := by
  induction items with
  | nil => rfl
  | cons item items ih => simp [partsOfAll, ih]

mutual

/-- The groups that lie in no other group, in order. -/
def outermost : Pattern → List Pattern
  | group capture body => [group capture body]
  | alt options => outermostOfAll options
  | seq items => outermostOfAll items
  | look body => outermost body
  | repeated body _ _ => outermost body
  | char _ | set _ _ | anchor | backref _ => []

/-- The outermost groups of several patterns. -/
def outermostOfAll : List Pattern → List Pattern
  | [] => []
  | item :: items => outermost item ++ outermostOfAll items

end

theorem outermostOfAll_append (items items' : List Pattern) :
    outermostOfAll (items ++ items') = outermostOfAll items ++ outermostOfAll items' := by
  induction items with
  | nil => rfl
  | cons item items ih => simp [outermostOfAll, ih]

mutual

/-- The pattern with all groups numbered zero. -/
def unnumbered : Pattern → Pattern
  | alt options => alt (unnumberedAll options)
  | seq items => seq (unnumberedAll items)
  | group capture body => group (capture.map fun capture => ⟨0, capture.name⟩) (unnumbered body)
  | look body => look (unnumbered body)
  | repeated body least most => repeated (unnumbered body) least most
  | char value => char value
  | set negated items => set negated items
  | anchor => anchor
  | backref target => backref target

def unnumberedAll : List Pattern → List Pattern
  | [] => []
  | item :: items => unnumbered item :: unnumberedAll items

end

mutual

/-- Numbering changes the numbers only. -/
theorem unnumbered_number : ∀ (pattern : Pattern) (s : Numbering),
    (pattern.number s).1.unnumbered = pattern.unnumbered
  | alt options, s => congrArg alt (unnumberedAll_numberAll options s)
  | seq items, s => congrArg seq (unnumberedAll_numberAll items s)
  | group none body, s => congrArg (group none) (unnumbered_number body s)
  | group (some capture) body, s =>
    congrArg (group (some ⟨0, capture.name⟩)) (unnumbered_number body (s.enter capture.name))
  | look body, s => congrArg look (unnumbered_number body s)
  | repeated body least most, s =>
    congrArg (fun body => repeated body least most) (unnumbered_number body s)
  | char _, _ | set _ _, _ | anchor, _ | backref _, _ => rfl

theorem unnumberedAll_numberAll : ∀ (items : List Pattern) (s : Numbering),
    unnumberedAll (numberAll items s).1 = unnumberedAll items
  | [], _ => rfl
  | item :: items, s => by
    simp only [numberAll, unnumberedAll, unnumbered_number item,
      unnumberedAll_numberAll items]

end

mutual

/-- The outermost groups are numbered with the pattern. -/
theorem outermost_number : ∀ (pattern : Pattern) (s : Numbering),
    (pattern.number s).1.outermost.map unnumbered = pattern.outermost.map unnumbered
  | alt options, s => outermostOfAll_numberAll options s
  | seq items, s => outermostOfAll_numberAll items s
  | group none body, s => congrArg (fun group => [group]) (unnumbered_number (group none body) s)
  | group (some capture) body, s =>
    congrArg (fun group => [group]) (unnumbered_number (group (some capture) body) s)
  | look body, s => outermost_number body s
  | repeated body _ _, s => outermost_number body s
  | char _, _ | set _ _, _ | anchor, _ | backref _, _ => rfl

theorem outermostOfAll_numberAll : ∀ (items : List Pattern) (s : Numbering),
    (outermostOfAll (numberAll items s).1).map unnumbered = (outermostOfAll items).map unnumbered
  | [], _ => rfl
  | item :: items, s => by
    simp only [numberAll, outermostOfAll, List.map_append, outermost_number item,
      outermostOfAll_numberAll items]

end

end Highlight.Pattern
