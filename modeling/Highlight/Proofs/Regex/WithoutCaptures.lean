import Highlight.Proofs.Regex.Stripping

/-!
# What a source without captures matches

A source and the same source without captures read as expressions that are the same but for the
captures, as long as the first one refers to no group (`readWith?_bare`), so they match the same
stretches of every text (`matchAt_withoutCaptures`). A reference is what the rewriting breaks: the
group it points at does not capture any more, and the reference turns into other text
(`matchAt_withoutCaptures_doubled`).
-/

namespace Highlight.Regex

variable {t r rest : Text} {u v : CodeUnit} {groups groups' : Groups}
  {inner inner' : Text → Option (Regex × Text)}

/-- Where the first reading gives an expression without references, the second one gives the same
expression but for the captures, and leaves the rewritten rest. -/
def Follows (x y : Option (Regex × Text)) : Prop :=
  ∀ e rest, x = some (e, rest) → e.refersBack = false →
    ∃ e', y = some (e', bare false rest) ∧ Uncaptured e e'

namespace Follows

variable {x y x' y' : Option (Regex × Text)}

theorem none : Follows none y := fun _ _ absurd => nomatch absurd

theorem some {e e' : Regex} (same : Uncaptured e e') :
    Follows (some (e, rest)) (some (e', bare false rest)) := by
  intro _ _ read _
  cases read
  exact ⟨e', rfl, same⟩

theorem ite {p : Prop} [Decidable p] (yes : p → Follows x y) (no : ¬p → Follows x' y') :
    Follows (if p then x else x') (if p then y else y') :=
  rel_ite yes no

/-- What is read first is no expression. -/
theorem bind {β : Type} {x y : Option (β × Text)} {inSet : Bool} (first : Carries inSet x y)
    {f g : β × Text → Option (Regex × Text)}
    (then' : ∀ b rest, Follows (f (b, rest)) (g (b, bare inSet rest))) :
    Follows (x >>= f) (y >>= g) := by
  intro e rest read unreferring
  obtain ⟨⟨b, middle⟩, here, read⟩ := Option.bind_eq_some_iff.1 read
  obtain ⟨e', read', same⟩ := then' b middle e rest read unreferring
  exact ⟨e', Option.bind_eq_some_iff.2 ⟨(b, bare inSet middle), first b middle here, read'⟩, same⟩

/-- What is read first is a part of the expression. -/
theorem part (first : Follows x y) {f g : Regex × Text → Option (Regex × Text)}
    (holds : ∀ a t e rest, f (a, t) = Option.some (e, rest) → e.refersBack = false →
      a.refersBack = false)
    (then' : ∀ a a' t, Uncaptured a a' → Follows (f (a, t)) (g (a', bare false t))) :
    Follows (x >>= f) (y >>= g) := by
  intro e rest read unreferring
  obtain ⟨⟨a, middle⟩, here, read⟩ := Option.bind_eq_some_iff.1 read
  obtain ⟨a', here', same⟩ := first a middle here (holds a middle e rest read unreferring)
  obtain ⟨e', read', same'⟩ := then' a a' middle same e rest read unreferring
  exact ⟨e', Option.bind_eq_some_iff.2 ⟨(a', bare false middle), here', read'⟩, same'⟩

end Follows

/-! ## Parts without groups -/

/-- A quantifier brings in no reference. -/
theorem refersBack_quantify {e q : Regex} (read : quantify e t = some (q, rest)) :
    q.refersBack = e.refersBack := by
  obtain ⟨⟨quantifier, left⟩, -, read⟩ := Option.bind_eq_some_iff.1 read
  cases quantifier <;> cases read <;> rfl

theorem quantify_follows {e e' : Regex} (same : Uncaptured e e') (t : Text) :
    Follows (quantify e t) (quantify e' (bare false t)) := by
  have carries : Carries false (readQuantifier t) (readQuantifier (bare false t)) := by
    intro quantifier rest read
    rw [readQuantifier_bare, read]
    rfl
  refine .bind carries fun quantifier rest => ?_
  cases quantifier with
  | none => exact .some same
  | some q => exact .some (.repeated same)

theorem readDigits_follows (fewer : Fewer groups groups') (digit : u.isDigit = true) (r : Text) :
    Follows (readDigits groups (u :: r)) (readDigits groups' (u :: bare false r)) := by
  have digits : (u :: bare false r).takeWhile CodeUnit.isDigit =
      (u :: r).takeWhile CodeUnit.isDigit := by
    rw [← bare_ordinary (.of_digit digit), takeWhile_bare (p := CodeUnit.isDigit) fun _ => .of_digit]
  unfold readDigits
  dsimp only
  rw [digits, List.head?_cons, List.head?_cons]
  split
  · intro e rest read unreferring
    rw [refersBack_quantify read] at unreferring
    cases unreferring
  · rename_i octal
    rw [if_neg fun reference => octal
      ⟨reference.1, reference.2.1, Nat.le_trans reference.2.2 fewer.length⟩]
    exact .bind (readUnitEscape_carries fewer false false u r) fun v rest =>
      quantify_follows .set rest

theorem readEscape_follows (fewer : Fewer groups groups') (u : CodeUnit) (r : Text) :
    Follows (readEscape groups (u :: r)) (readEscape groups' (u :: bare false r)) := by
  unfold readEscape
  refine .ite (fun _ => .some .boundary) fun _ => ?_
  refine .ite (fun _ => .some .boundary) fun _ => ?_
  dsimp only
  cases classRanges? u with
  | some ranges => exact quantify_follows .set r
  | none =>
    refine .ite (fun digit => readDigits_follows fewer digit r) fun _ => ?_
    by_cases named : (u = unit 'k' && groups.named) = true
    · rw [if_pos named]
      intro e rest read unreferring
      cases r with
      | nil => cases read
      | cons v r =>
        dsimp only at read
        split at read
        · obtain ⟨⟨name, left⟩, -, read⟩ := Option.bind_eq_some_iff.1 read
          obtain ⟨index, -, read⟩ := Option.bind_eq_some_iff.1 read
          rw [refersBack_quantify read] at unreferring
          cases unreferring
        · cases read
    · have named' : ¬(u = unit 'k' && groups'.named) = true := by
        intro named'
        rw [Bool.and_eq_true] at named named'
        exact named ⟨named'.1, fewer.named named'.2⟩
      rw [if_neg named, if_neg named']
      exact .bind (readUnitEscape_carries fewer false false u r) fun v rest =>
        quantify_follows .set rest

/-! ## Groups -/

/-- Two readers of expressions, the second of which reads what is left of a text. -/
def InnerFollows (inner inner' : Text → Option (Regex × Text)) : Prop :=
  ∀ t, Follows (inner t) (inner' (bare false t))

theorem readInside_follows (follows : InnerFollows inner inner') :
    InnerFollows (readInside inner) (readInside inner') := by
  intro t
  refine .part (follows t) ?_ ?_
  · intro a t e rest read unreferring
    cases t with
    | nil => cases read
    | cons u r =>
      dsimp only at read
      split at read
      · cases read
        exact unreferring
      · cases read
  · intro a a' t same
    cases t with
    | nil => exact .none
    | cons u r =>
      obtain ⟨r', whole, goesOn⟩ := bare_cons false u r
      rw [whole]
      refine .ite (fun closing => ?_) fun _ => .none
      rw [goesOn (by rw [closing]; decide)]
      exact .some same

theorem readLook_follows (follows : InnerFollows inner inner') (behind negated : Bool) :
    InnerFollows (readLook inner behind negated) (readLook inner' behind negated) := by
  intro t
  refine .part (readInside_follows follows t) ?_ ?_
  · intro a t e rest read unreferring
    dsimp only at read
    split at read
    · cases read
      exact unreferring
    · rwa [refersBack_quantify read] at unreferring
  · intro a a' t same
    exact .ite (fun _ => .some (.look same)) fun _ => quantify_follows (.look same) t

/-- The text behind an opening, if the text begins so. -/
def after? (opening t : Text) : Option Text :=
  if opening.isPrefixOf t then some (t.drop opening.length) else none

theorem after?_bare {opening : Text} (ordinary : ∀ u ∈ opening, Ordinary u) (t : Text) :
    after? opening (bare false t) = (after? opening t).map (bare false) := by
  unfold after?
  rw [isPrefixOf_bare ordinary]
  split
  · rename_i starts
    obtain ⟨rest, rfl⟩ := List.isPrefixOf_iff_prefix.1 starts
    rw [bare_append ordinary, List.drop_left, Option.map_some, List.drop_left]
  · rfl

theorem readCapture_follows (follows : InnerFollows inner inner') (t : Text) :
    Follows (readCapture inner t) (do
      let (e, rest) ← readInside inner' (bare false t)
      quantify e rest) := by
  refine .part (readInside_follows follows t) ?_ ?_
  · intro a t e rest read unreferring
    rwa [refersBack_quantify read] at unreferring
  · exact fun a a' t same => quantify_follows (.dropped same) t

theorem readCapture_follows_kept (follows : InnerFollows inner inner') :
    InnerFollows (readCapture inner) (readCapture inner') := by
  intro t
  refine .part (readInside_follows follows t) ?_ ?_
  · intro a t e rest read unreferring
    rwa [refersBack_quantify read] at unreferring
  · exact fun a a' t same => quantify_follows (.kept same) t

/-- A group is told by what stands behind its parenthesis. -/
theorem readGroup_eq : readGroup inner t =
    match after? "?:" t, after? "?=" t, after? "?!" t, after? "?<=" t, after? "?<!" t,
      after? "?<" t, after? "?" t with
    | some r, _, _, _, _, _, _ => do
      let (e, rest) ← readInside inner r
      quantify e rest
    | _, some r, _, _, _, _, _ => readLook inner false false r
    | _, _, some r, _, _, _, _ => readLook inner false true r
    | _, _, _, some r, _, _, _ => readLook inner true false r
    | _, _, _, _, some r, _, _ => readLook inner true true r
    | _, _, _, _, _, some r, _ => do
      let (_, r) ← readName r
      readCapture inner r
    | _, _, _, _, _, _, some _ => none
    | _, _, _, _, _, _, none => readCapture inner t := rfl

theorem readGroup_uncaptured : readGroup inner (unit '?' :: unit ':' :: r) = (do
    let (e, rest) ← readInside inner r
    quantify e rest) := rfl

/-- A group that keeps its parenthesis is read from the two texts alike. -/
theorem readGroup_follows_marked (follows : InnerFollows inner inner') :
    InnerFollows (readGroup inner) (readGroup inner') := by
  have kept (sign : Text) (ordinary : sign.all (fun u => decide (Ordinary u)) = true) (t : Text) :
      after? sign (bare false t) = (after? sign t).map (bare false) :=
    after?_bare (.of_all ordinary) t
  intro t
  rw [readGroup_eq, readGroup_eq, kept "?:" (by decide), kept "?=" (by decide),
    kept "?!" (by decide), kept "?<=" (by decide), kept "?<!" (by decide), kept "?<" (by decide),
    kept "?" (by decide)]
  cases after? "?:" t with
  | some r =>
    refine .part (readInside_follows follows r) ?_ fun a a' t same => quantify_follows same t
    intro a t e rest read unreferring
    rwa [refersBack_quantify read] at unreferring
  | none =>
  cases after? "?=" t with
  | some r => exact readLook_follows follows false false r
  | none =>
  cases after? "?!" t with
  | some r => exact readLook_follows follows false true r
  | none =>
  cases after? "?<=" t with
  | some r => exact readLook_follows follows true false r
  | none =>
  cases after? "?<!" t with
  | some r => exact readLook_follows follows true true r
  | none =>
  cases after? "?<" t with
  | some r =>
    exact .bind (readName_carries r) fun name r => readCapture_follows_kept follows r
  | none =>
  cases after? "?" t with
  | some r => exact .none
  | none => exact readCapture_follows_kept follows t

theorem readGroup_named (inner : Text → Option (Regex × Text))
    (ahead : r.head? ≠ some (unit '=')) (without : r.head? ≠ some (unit '!')) :
    readGroup inner (unit '?' :: unit '<' :: r) = (do
      let (_, r) ← readName r
      readCapture inner r) := by
  have other {u : CodeUnit} (differs : r.head? ≠ some u) :
      after? [unit '?', unit '<', u] (unit '?' :: unit '<' :: r) = none := by
    refine if_neg fun starts => differs ?_
    obtain ⟨rest, same⟩ := List.isPrefixOf_iff_prefix.1 starts
    obtain rfl : u :: rest = r := (List.cons.inj (List.cons.inj same).2).2
    rfl
  have first : after? "?<=" (unit '?' :: unit '<' :: r) = none := other ahead
  have second : after? "?<!" (unit '?' :: unit '<' :: r) = none := other without
  rw [readGroup_eq, first, second]
  rfl

/-- A group with a mark of ASCII units loses its capture, and nothing else. -/
theorem readGroup_follows_named (follows : InnerFollows inner inner') {length : Nat}
    (mark : namedMark? r = some length) : Follows (readGroup inner r)
      (readGroup inner' (unit '?' :: unit ':' :: bare false (r.drop length))) := by
  obtain ⟨sign, name, rest, spelled, rfl, behind, word⟩ := namedMark?_eq_some mark
  rw [behind, readGroup_uncaptured]
  obtain rfl | rfl := spelled
  · exact .none
  have opens {u : CodeUnit} (closing : unit '>' ≠ u) (none : u.isWord = false) :
      (name ++ unit '>' :: rest).head? ≠ some u := by
    intro same
    cases name with
    | nil => exact closing (Option.some.inj same)
    | cons v name =>
      obtain rfl : v = u := Option.some.inj same
      rw [word v List.mem_cons_self] at none
      cases none
  intro e left read unreferring
  have named := readGroup_named inner (opens (by decide) (by decide))
    (opens (by decide) (by decide))
  rw [show Text.ofString "?<" ++ (name ++ unit '>' :: rest) =
    unit '?' :: unit '<' :: (name ++ unit '>' :: rest) from rfl, named] at read
  obtain ⟨⟨found, last⟩, ended, inside⟩ := Option.bind_eq_some_iff.1 read
  obtain rfl := readName_word word ended
  exact readCapture_follows follows _ e left inside unreferring

/-- A group without a mark loses its capture. -/
theorem readGroup_follows_plain (follows : InnerFollows inner inner')
    (plain : r.head? ≠ some (unit '?')) : Follows (readGroup inner r)
      (readGroup inner' (unit '?' :: unit ':' :: bare false r)) := by
  have none (sign : Text) : after? (unit '?' :: sign) r = none := by
    refine if_neg fun starts => plain ?_
    obtain ⟨rest, rfl⟩ := List.isPrefixOf_iff_prefix.1 starts
    rfl
  have captures : readGroup inner r = readCapture inner r := by
    have colon : after? "?:" r = Option.none := none _
    have ahead : after? "?=" r = Option.none := none _
    have without : after? "?!" r = Option.none := none _
    have behind : after? "?<=" r = Option.none := none _
    have behindWithout : after? "?<!" r = Option.none := none _
    have named : after? "?<" r = Option.none := none _
    have other : after? "?" r = Option.none := none _
    rw [readGroup_eq, colon, ahead, without, behind, behindWithout, named, other]
  rw [captures, readGroup_uncaptured]
  exact readCapture_follows follows r

theorem readGroup_follows (follows : InnerFollows inner inner') (r : Text) :
    ∃ s, bare false (unit '(' :: r) = unit '(' :: s ∧
      Follows (readGroup inner r) (readGroup inner' s) := by
  rw [bare_group]
  cases mark : namedMark? r with
  | some length => exact ⟨_, rfl, readGroup_follows_named follows mark⟩
  | none =>
    dsimp only
    split
    · exact ⟨_, rfl, readGroup_follows_marked follows r⟩
    · rename_i plain
      exact ⟨_, rfl, readGroup_follows_plain follows plain⟩

/-! ## Terms and alternatives -/

theorem readTerm_follows (fewer : Fewer groups groups') (follows : InnerFollows inner inner') :
    InnerFollows (readTerm groups inner) (readTerm groups' inner') := by
  intro t
  cases t with
  | nil => exact .none
  | cons u r =>
    by_cases group : u = unit '('
    · subst group
      obtain ⟨s, same, read⟩ := readGroup_follows follows r
      rw [same]
      exact read
    by_cases opening : u = unit '['
    · subst opening
      rw [bare_opening]
      refine .bind (readSet_carries fewer r) fun members rest => ?_
      intro e left read unreferring
      have same := (refersBack_quantify read).symm.trans unreferring
      exact quantify_follows (.refl same) rest e left read unreferring
    by_cases escape : u = unit '\\'
    · subst escape
      cases r with
      | nil => exact .none
      | cons v r =>
        rw [bare_escape]
        exact readEscape_follows fewer v r
    have bounds : quantifierBounds (bare false (u :: r)) =
        rewritten false (quantifierBounds (u :: r)) := quantifierBounds_bare (u :: r)
    rw [bare_outside escape opening group] at bounds ⊢
    unfold readTerm
    dsimp only
    refine .ite (fun _ => .some .lineStart) fun _ => ?_
    refine .ite (fun _ => .some .lineEnd) fun _ => ?_
    rw [if_neg group, if_neg group]
    refine .ite (fun _ => quantify_follows .set r) fun _ => ?_
    rw [if_neg opening, if_neg opening, if_neg escape, if_neg escape, bounds, rewritten,
      Option.isSome_map]
    exact .ite (fun _ => .none) fun _ => quantify_follows .set r

theorem readTerms_follows (fewer : Fewer groups groups') (follows : InnerFollows inner inner')
    (fuel : Nat) : InnerFollows (readTerms groups inner fuel) (readTerms groups' inner' fuel) := by
  induction fuel with
  | zero => exact fun _ => .none
  | succ fuel ih =>
    intro t
    unfold readTerms
    cases t with
    | nil => exact .some .empty
    | cons u r =>
      obtain ⟨r', same, -⟩ := bare_cons false u r
      have term := readTerm_follows fewer follows (u :: r)
      rw [same] at term ⊢
      refine .ite (fun _ => same ▸ .some .empty) fun _ => ?_
      refine .part term ?_ fun a a' t first => .part (ih t) ?_ fun b b' t second => ?_
      · intro a t e rest read unreferring
        obtain ⟨⟨b, left⟩, -, read⟩ := Option.bind_eq_some_iff.1 read
        cases read
        exact (Bool.or_eq_false_iff.1 unreferring).1
      · intro b t e rest read unreferring
        cases read
        exact (Bool.or_eq_false_iff.1 unreferring).2
      · exact .some (.seq first second)

/-- The bounds on the two loops differ, but both are high enough. -/
theorem readAlternatives_follows (fewer : Fewer groups groups')
    (follows : InnerFollows inner inner') (leaves : ∀ t, LeavesEnd t (inner' t)) (fuel : Nat) :
    InnerFollows (readAlternatives groups inner fuel) (readAlternatives groups' inner' fuel) := by
  induction fuel with
  | zero => exact fun _ => .none
  | succ fuel ih =>
    intro t
    have terms : Follows (readTerms groups inner (t.length + 1) t)
        (readTerms groups' inner' ((bare false t).length + 1) (bare false t)) := by
      intro e rest read unreferring
      obtain ⟨e', read', same⟩ := readTerms_follows fewer follows _ t e rest read unreferring
      exact ⟨e', readTerms_enough leaves read' (Nat.lt_succ_self _), same⟩
    refine .part terms ?_ fun a a' t first => ?_
    · intro a t e rest read unreferring
      cases t with
      | nil =>
        cases read
        exact unreferring
      | cons u r =>
        dsimp only at read
        split at read
        · obtain ⟨⟨b, left⟩, -, read⟩ := Option.bind_eq_some_iff.1 read
          cases read
          exact (Bool.or_eq_false_iff.1 unreferring).1
        · cases read
          exact unreferring
    · cases t with
      | nil => exact .some first
      | cons u r =>
        obtain ⟨r', same, goesOn⟩ := bare_cons false u r
        rw [same]
        refine .ite (fun bar => ?_) fun _ => same ▸ .some first
        rw [goesOn (by rw [bar]; decide)]
        refine .part (ih r) ?_ fun b b' t second => .some (.alt first second)
        intro b t e rest read unreferring
        cases read
        exact (Bool.or_eq_false_iff.1 unreferring).2

theorem readNested_follows (fewer : Fewer groups groups') (depth : Nat) :
    InnerFollows (readNested groups depth) (readNested groups' depth) := by
  induction depth with
  | zero => exact fun _ => .none
  | succ depth ih =>
    intro t e rest read unreferring
    have leaves := readNested_leavesEnd groups' depth
    obtain ⟨e', read', same⟩ := readAlternatives_follows fewer ih leaves _ t e rest read unreferring
    exact ⟨e', readAlternatives_enough leaves read' (Nat.lt_succ_self _), same⟩

/-! ## Groups of a whole source -/

theorem Fewer.cons (fewer : Fewer groups groups') (group : Option Text) :
    Fewer (group :: groups) groups' := by
  refine ⟨fun named => ?_, Nat.le_succ_of_le fewer.length⟩
  rw [Groups.named, List.any_cons, Bool.or_eq_true]
  exact .inr (fewer.named named)

theorem Fewer.both (fewer : Fewer groups groups') (name name' : Text) :
    Fewer (some name :: groups) (some name' :: groups') :=
  ⟨fun _ => rfl, Nat.succ_le_succ fewer.length⟩

theorem groupNamesFrom_append {inSet : Bool} (front : Text) (ordinary : ∀ u ∈ front, Ordinary u) :
    groupNamesFrom inSet (front ++ rest) = groupNamesFrom inSet rest := by
  induction front with
  | nil => rfl
  | cons u front ih =>
    have here := ordinary u List.mem_cons_self
    rw [List.cons_append, groupNamesFrom.eq_def]
    dsimp only
    rw [if_neg here.escape, ← ih fun v inside => ordinary v (List.mem_cons_of_mem _ inside)]
    cases inSet
    · rw [if_neg Bool.false_ne_true, if_neg here.opening, if_neg here.group]
    · rw [if_pos rfl, decide_eq_true here.closing]

/-- A parenthesis that stays opens a group of the same kind. -/
theorem openingOf_bare (marked : r.head? = some (unit '?')) :
    (openingOf r = .notCapturing ∧ openingOf (bare false r) = .notCapturing) ∨
      ∃ name name', openingOf r = .named name ∧ openingOf (bare false r) = .named name' := by
  obtain ⟨r, rfl⟩ := List.head?_eq_some_iff.1 marked
  rw [bare_ordinary (by decide)]
  cases r with
  | nil => exact .inl ⟨rfl, rfl⟩
  | cons b r =>
    obtain ⟨behind, same, goesOn⟩ := bare_cons false b r
    rw [same]
    by_cases angle : b = unit '<'
    · subst angle
      rw [goesOn (by decide)]
      cases r with
      | nil => exact .inr ⟨none, none, rfl, rfl⟩
      | cons m r =>
        obtain ⟨last, same, -⟩ := bare_cons false m r
        rw [same]
        by_cases look : m = unit '=' ∨ m = unit '!'
        · exact .inl ⟨if_pos look, if_pos look⟩
        · exact .inr ⟨_, _, if_neg look, if_neg look⟩
    · exact .inl ⟨if_pos angle, if_pos angle⟩

theorem mark_ordinary {sign name : Text} (spelled : sign = Text.ofString "?P<" ∨
    sign = Text.ofString "?<") (word : ∀ u ∈ name, u.isWord = true) :
    ∀ u ∈ sign ++ (name ++ [unit '>']), Ordinary u := by
  intro u inside
  obtain inside | inside := List.mem_append.1 inside
  · obtain rfl | rfl := spelled
    · exact Ordinary.of_all (by decide) u inside
    · exact Ordinary.of_all (by decide) u inside
  · obtain inside | inside := List.mem_append.1 inside
    · exact .of_word (word u inside)
    · rw [List.mem_singleton.1 inside]
      decide

/-- Behind a mark of ASCII units, which is ordinary all through. -/
theorem namedMark?_ordinary {length : Nat} (mark : namedMark? r = some length) :
    ∃ front, r = front ++ r.drop length ∧ ∀ u ∈ front, Ordinary u := by
  obtain ⟨sign, name, rest, spelled, whole, behind, word⟩ := namedMark?_eq_some mark
  refine ⟨sign ++ (name ++ [unit '>']), ?_, mark_ordinary spelled word⟩
  rw [behind, whole, List.append_assoc, List.append_assoc, List.singleton_append]

theorem groupNamesFrom_cons {inSet : Bool} (escape : u ≠ unit '\\') :
    groupNamesFrom inSet (u :: r) =
      if inSet then groupNamesFrom (u ≠ unit ']') r
      else if u = unit '[' then groupNamesFrom true r
      else if u = unit '(' then
        match openingOf r with
        | .plain => none :: groupNamesFrom false r
        | .named name => some (name.getD []) :: groupNamesFrom false r
        | .notCapturing => groupNamesFrom false r
      else groupNamesFrom false r := by
  rw [groupNamesFrom.eq_def]
  exact if_neg escape

/-- Every group that captures after the rewriting did so before. -/
theorem fewer_withoutCapturesFrom (inSet : Bool) (skip : Nat) (t : Text) :
    Fewer (groupNamesFrom inSet (t.drop skip))
      (groupNamesFrom inSet (withoutCapturesFrom inSet skip t)) := by
  have opened {rest : Text} : groupNamesFrom false (Text.ofString "(?:" ++ rest) =
      groupNamesFrom false rest := groupNamesFrom_append [unit '?', unit ':'] (.of_all rfl)
  have group {r : Text} {groups : Groups} (fewer : Fewer (groupNamesFrom false r) groups) :
      Fewer (groupNamesFrom false (unit '(' :: r)) groups := by
    rw [groupNamesFrom_cons (by decide), if_neg Bool.false_ne_true, if_neg (by decide), if_pos rfl]
    split
    · exact fewer.cons _
    · exact fewer.cons _
    · exact fewer
  fun_induction withoutCapturesFrom inSet skip t with
  | case1 inSet skip =>
    rw [List.drop_nil]
    exact ⟨id, Nat.le_refl _⟩
  | case2 inSet skip u r ih => exact ih
  | case3 => exact ⟨id, Nat.le_refl _⟩
  | case4 inSet v r ih => exact ih
  | case5 u r escape ih =>
    rw [List.drop_zero, groupNamesFrom_cons escape, groupNamesFrom_cons escape, if_pos rfl,
      if_pos rfl]
    exact ih
  | case6 inSet r outside escape ih =>
    obtain rfl := Bool.eq_false_iff.2 outside
    rw [List.drop_zero, groupNamesFrom_cons escape, groupNamesFrom_cons escape,
      if_neg Bool.false_ne_true, if_neg Bool.false_ne_true, if_pos rfl, if_pos rfl]
    exact ih
  | case7 inSet r outside length mark _ _ ih =>
    obtain rfl := Bool.eq_false_iff.2 outside
    obtain ⟨front, whole, ordinary⟩ := namedMark?_ordinary mark
    rw [List.drop_zero, opened]
    refine group ?_
    have behind : groupNamesFrom false r = groupNamesFrom false (r.drop length) :=
      (congrArg _ whole).trans (groupNamesFrom_append front ordinary)
    rwa [behind]
  | case8 inSet r outside mark question escape other ih =>
    obtain rfl := Bool.eq_false_iff.2 outside
    rw [List.drop_zero, groupNamesFrom_cons escape, groupNamesFrom_cons escape,
      if_neg Bool.false_ne_true, if_neg Bool.false_ne_true, if_neg other, if_neg other, if_pos rfl,
      if_pos rfl]
    obtain ⟨before, after⟩ | ⟨name, name', before, after⟩ := openingOf_bare question
    · rw [before, after]
      exact ih
    · rw [before, after]
      exact ih.both _ _
  | case9 inSet r outside _ _ _ _ ih =>
    obtain rfl := Bool.eq_false_iff.2 outside
    rw [List.drop_zero, opened]
    exact group ih
  | case10 inSet u r escape outside opening other ih =>
    obtain rfl := Bool.eq_false_iff.2 outside
    rw [List.drop_zero, groupNamesFrom_cons escape, groupNamesFrom_cons escape,
      if_neg Bool.false_ne_true, if_neg Bool.false_ne_true, if_neg opening, if_neg opening,
      if_neg other, if_neg other]
    exact ih

/-- The rewriting leaves as many parentheses as there were. -/
theorem count_withoutCapturesFrom (inSet : Bool) (skip : Nat) (t : Text) :
    (withoutCapturesFrom inSet skip t).count (unit '(') = (t.drop skip).count (unit '(') := by
  fun_induction withoutCapturesFrom inSet skip t with
  | case1 inSet skip => rw [List.drop_nil]
  | case2 inSet skip u r ih => exact ih
  | case3 => rfl
  | case4 inSet v r ih =>
    rw [List.drop_zero] at ih ⊢
    rw [List.count_cons, List.count_cons, List.count_cons, List.count_cons, ih]
  | case5 u r escape ih | case6 inSet r outside escape ih
  | case8 inSet r outside mark question escape _ ih
  | case10 inSet u r escape outside opening _ ih =>
    rw [List.drop_zero] at ih ⊢
    rw [List.count_cons, List.count_cons, ih]
  | case7 inSet r outside length mark _ _ ih =>
    obtain ⟨front, whole, ordinary⟩ := namedMark?_ordinary mark
    have none : front.count (unit '(') = 0 :=
      List.count_eq_zero.2 fun inside => (ordinary _ inside).group rfl
    rw [List.drop_zero, List.count_append, ih, List.count_cons_self, whole, List.count_append, none,
      ← whole, Nat.zero_add, Nat.add_comm]
    rfl
  | case9 inSet r outside _ _ _ _ ih =>
    rw [List.drop_zero] at ih ⊢
    rw [List.count_append, ih, List.count_cons_self, Nat.add_comm]
    rfl

/-! ## Expressions -/

/-- Without captures, a source whose expression refers to no group reads as the same expression but
for the captures. -/
theorem readWith?_bare (fewer : Fewer groups groups') {source : Text} {e : Regex}
    (read : readWith? groups source = some e) (unreferring : e.refersBack = false) :
    ∃ e', readWith? groups' (withoutCaptures source) = some e' ∧ Uncaptured e e' := by
  have count := count_withoutCapturesFrom false 0 source
  rw [List.drop_zero] at count
  unfold readWith? at read ⊢
  split at read
  · rename_i whole found
    cases read
    rw [refersBack_number] at unreferring
    obtain ⟨e', found', same⟩ := readNested_follows fewer _ source whole [] found unreferring
    refine ⟨(e'.number 0).1, ?_, same.number 0 0⟩
    have found' : readNested groups' ((withoutCaptures source).count (unit '(') + 1)
        (withoutCaptures source) = some (e', []) := by
      rw [withoutCaptures, count]
      exact found'
    rw [found']
  · cases read

theorem read?_withoutCaptures {source : Text} {e e' : Regex} (captures : read? source = some e)
    (none : read? (withoutCaptures source) = some e') (unreferring : e.refersBack = false) :
    Uncaptured e e' := by
  have fewer : Fewer (groupNames source) (groupNames (withoutCaptures source)) :=
    fewer_withoutCapturesFrom false 0 source
  unfold read? at captures none
  dsimp only at captures none
  split at captures
  · split at none
    · obtain ⟨e'', found, same⟩ := readWith?_bare fewer captures unreferring
      rw [none] at found
      cases found
      exact same
    · cases none
  · cases captures

/-- Where the pattern of a rule refers to no group, its source and the same source without captures
match alike: at every place of every text both fail, or both match the same stretch. -/
theorem matchAt_withoutCaptures {pattern : Text} {e e' : Regex}
    (captures : read? (hostSource pattern) = some e)
    (none : read? (withoutCaptures (hostSource pattern)) = some e')
    (unreferring : e.refersBack = false) (byLines : Bool) (text : Array CodeUnit)
    (position : Nat) :
    (e.matchAt byLines text position).map State.position =
      (e'.matchAt byLines text position).map State.position :=
  (read?_withoutCaptures captures none unreferring).matchAt_place position

/-- Two groups, one of them under a name, lose their captures and match as before. -/
theorem matchAt_withoutCaptures_letters :
    ∃ e e', read? (hostSource "^(?P<first>a)(b|c)*") = some e ∧
      read? (withoutCaptures (hostSource "^(?P<first>a)(b|c)*")) = some e' ∧
      e.captures = [1, 2] ∧ e'.captures = [] ∧
      (e'.matchAt true (Text.ofString "abcd").toArray 0).map State.position = some 3 ∧
      ∀ byLines text position, (e.matchAt byLines text position).map State.position =
        (e'.matchAt byLines text position).map State.position := by
  have parts : ((read? (hostSource "^(?P<first>a)(b|c)*")).map fun e =>
      (e.captures, e.refersBack)) = some ([1, 2], false) := by
    decide +kernel
  have bare : ((read? (withoutCaptures (hostSource "^(?P<first>a)(b|c)*"))).map fun e =>
      (e.captures, (e.matchAt true (Text.ofString "abcd").toArray 0).map State.position)) =
        some ([], some 3) := by
    decide +kernel
  obtain ⟨e, captures, same⟩ := Option.map_eq_some_iff.1 parts
  obtain ⟨e', none, same'⟩ := Option.map_eq_some_iff.1 bare
  obtain ⟨numbers, unreferring⟩ := Prod.mk.inj same
  obtain ⟨numbers', place⟩ := Prod.mk.inj same'
  exact ⟨e, e', captures, none, numbers, numbers', place,
    matchAt_withoutCaptures captures none unreferring⟩

/-- At the start of a text the source of a pattern matches up to a place, and without captures it
does not match at all. -/
def Loses (pattern text : Text) (stop : Nat) : Prop :=
  ∃ e e', read? (hostSource pattern) = some e ∧
    read? (withoutCaptures (hostSource pattern)) = some e' ∧
    (e.matchAt true text.toArray 0).map State.position = some stop ∧
    (e'.matchAt true text.toArray 0).map State.position = none

theorem loses_of_places {pattern text : Text} {stop : Nat}
    (before : ((read? (hostSource pattern)).map fun e =>
      (e.matchAt true text.toArray 0).map State.position) = some (some stop))
    (after : ((read? (withoutCaptures (hostSource pattern))).map fun e =>
      (e.matchAt true text.toArray 0).map State.position) = some none) :
    Loses pattern text stop := by
  obtain ⟨e, captures, place⟩ := Option.map_eq_some_iff.1 before
  obtain ⟨e', none, place'⟩ := Option.map_eq_some_iff.1 after
  exact ⟨e, e', captures, none, place, place'⟩

/-- A reference to a group turns into other text when the group loses its capture: a name into the
letters of its escape, and a number into the unit with that code. -/
theorem matchAt_withoutCaptures_doubled :
    Loses "(?P<q>a)(?P=q)" "aa" 2 ∧ Loses "(a)\\1" "aa" 2 := by
  constructor
  · exact loses_of_places (by decide +kernel) (by decide +kernel)
  · exact loses_of_places (by decide +kernel) (by decide +kernel)

end Highlight.Regex
