import Highlight.Dialect
import Highlight.Proofs.Pattern.Trimmed
import Highlight.Proofs.Regex.Scanners

/-!
# Sources read by the grammar

The source of a pattern is spelled for another reader of expressions: `hostSource` drops a leading
anchor and respells named groups and the references to them, and `withoutCaptures` leaves no group
that captures. Read by the grammar again, the first is the pattern itself, and the second is the
pattern with its groups changed (`Regex.sources_read`), unless a comment or a closing bracket at the
front of a set leads the scanners astray (`Regex.sources_misread`).
-/

namespace Highlight

open Reader Grammar Dialect

namespace Pattern

mutual

/-- The pattern with groups that do not capture in place of those that do. -/
def uncaptured : Pattern → Pattern
  | alt options => alt (uncapturedAll options)
  | seq items => seq (uncapturedAll items)
  | group _ body => group none body.uncaptured
  | look body => look body.uncaptured
  | repeated body least most => repeated body.uncaptured least most
  | char value => char value
  | set negated items => set negated items
  | anchor => anchor
  | backref target => backref target

def uncapturedAll : List Pattern → List Pattern
  | [] => []
  | item :: rest => item.uncaptured :: uncapturedAll rest

end

theorem uncapturedAll_eq_map (items : List Pattern) : uncapturedAll items = items.map uncaptured := by
  induction items with
  | nil => rfl
  | cons item rest ih => rw [uncapturedAll, ih, List.map_cons]

theorem structural_uncaptured : Structural uncaptured where
  leaf {a} leaf := by cases a <;> first | rfl | cases leaf
  repeated _ _ _ := rfl
  seq items := congrArg seq (uncapturedAll_eq_map items)
  alt options := congrArg alt (uncapturedAll_eq_map options)

mutual

/-- Where no group captures, nothing is numbered. -/
theorem number_uncaptured : ∀ (pattern : Pattern) (s : Numbering),
    pattern.uncaptured.number s = (pattern.uncaptured, s)
  | alt options, s => by simp only [uncaptured, number, numberAll_uncaptured options]
  | seq items, s => by simp only [uncaptured, number, numberAll_uncaptured items]
  | group _ body, s => by simp only [uncaptured, number, number_uncaptured body]
  | look body, s => by simp only [uncaptured, number, number_uncaptured body]
  | repeated body _ _, s => by simp only [uncaptured, number, number_uncaptured body]
  | char _, _ | set _ _, _ | anchor, _ | backref _, _ => rfl

theorem numberAll_uncaptured : ∀ (items : List Pattern) (s : Numbering),
    numberAll (uncapturedAll items) s = (uncapturedAll items, s)
  | [], _ => rfl
  | item :: items, s => by
    simp only [uncapturedAll, numberAll, number_uncaptured item, numberAll_uncaptured items]

end

mutual

theorem uncaptured_number : ∀ (pattern : Pattern) (s : Numbering),
    (pattern.number s).1.uncaptured = pattern.uncaptured
  | alt options, s => by simp only [number, uncaptured, uncapturedAll_number options]
  | seq items, s => by simp only [number, uncaptured, uncapturedAll_number items]
  | group none body, s => by simp only [number, uncaptured, uncaptured_number body]
  | group (some _) body, s => by simp only [number, uncaptured, uncaptured_number body]
  | look body, s => by simp only [number, uncaptured, uncaptured_number body]
  | repeated body _ _, s => by simp only [number, uncaptured, uncaptured_number body]
  | char _, _ | set _ _, _ | anchor, _ | backref _, _ => rfl

theorem uncapturedAll_number : ∀ (items : List Pattern) (s : Numbering),
    uncapturedAll (numberAll items s).1 = uncapturedAll items
  | [], _ => rfl
  | item :: items, s => by
    simp only [numberAll, uncapturedAll, uncaptured_number item, uncapturedAll_number items]

end

theorem numbered_uncaptured (root : Pattern) :
    root.uncaptured.numbered = ⟨root.numbered.root.uncaptured, 0, []⟩ := by
  have same : root.numbered.root.uncaptured = root.uncaptured := uncaptured_number root .empty
  rw [same, numbered, number_uncaptured]
  rfl

end Pattern

namespace Regex

/-! ## Where groups capture no more -/

section Bare

variable {r t w : Text} {u : CodeUnit}

theorem scanner_bare : Scanner bare where
  nil := rfl
  escape _ _ _ := bare_escape
  inside _ escape closing := bare_inside escape closing
  closing _ := bare_closing
  opening _ := bare_opening
  outside _ plain := by
    rw [mem_openers, not_or, not_or] at plain
    exact bare_outside plain.1 plain.2.1 plain.2.2

/-- Only two signs begin the mark of a name. -/
theorem namedMark?_beside (letter : u ≠ unit 'P') (angle : u ≠ unit '<') :
    namedMark? (unit '?' :: u :: r) = none := by
  have beside {v : CodeUnit} (other : u ≠ v) (sign : Text) :
      (unit '?' :: v :: sign).isPrefixOf (unit '?' :: u :: r) = false := by
    rw [Bool.eq_false_iff, Ne, List.isPrefixOf_iff_prefix]
    intro begins
    exact other (List.cons_prefix_cons.1 (List.cons_prefix_cons.1 begins).2).1.symm
  rw [namedMark?, show Text.ofString "?P<" = [unit '?', unit 'P', unit '<'] from rfl,
    show Text.ofString "?<" = [unit '?', unit '<'] from rfl, beside letter, beside angle]
  rfl

theorem namedMark?_unmarked (unmarked : t.head? ≠ some (unit '?')) : namedMark? t = none := by
  match t with
  | [] => rfl
  | u :: t =>
    have other : (unit '?' == u) = false := beq_false_of_ne fun same =>
      unmarked (congrArg some same.symm)
    have beside (sign : Text) : (unit '?' :: sign).isPrefixOf (u :: t) = false := by
      rw [List.isPrefixOf, other, Bool.false_and]
    rw [namedMark?, show Text.ofString "?P<" = [unit '?', unit 'P', unit '<'] from rfl,
      show Text.ofString "?<" = [unit '?', unit '<'] from rfl, beside, beside]
    rfl

theorem nameLength?_name {close : CodeUnit} {n : Text} (isName : IsName n)
    (ends : close.isWord = false) (t : Text) :
    nameLength? close (n ++ close :: t) = some (n.length + 1) := by
  obtain ⟨u, others, rfl, starts, all⟩ := isName
  have all : ∀ v ∈ others, v.isWord = true := all
  have stands : (others ++ close :: t).dropWhile CodeUnit.isWord = close :: t := by
    rw [List.dropWhile_append_of_pos all, List.dropWhile_cons_of_neg (by simp [ends])]
  have starts : (u.isLetter || u == unit '_') = true := starts
  have starts : u.isLetter = true ∨ u = unit '_' := by simpa using starts
  rw [List.cons_append, nameLength?]
  simp only [Bool.or_eq_true, decide_eq_true_eq, starts, if_true, stands, List.head?_cons]
  simp

theorem namedMark?_named {front n : Text} (spelling : front = "?P<" ∨ front = "?<")
    (isName : IsName n) (t : Text) :
    namedMark? (front ++ (n ++ ">") ++ t) = some (front ++ (n ++ ">")).length := by
  have measured : nameLength? (unit '>') ((n ++ ">") ++ t) = some (n.length + 1) := by
    rw [List.append_assoc]
    exact nameLength?_name isName (by decide) t
  have lettered (t : Text) : namedMark? ("?P<" ++ t) = (nameLength? (unit '>') t).map (· + 3) := rfl
  have short (t : Text) : namedMark? ("?<" ++ t) = (nameLength? (unit '>') t).map (· + 2) := rfl
  have size (front : Text) : (front ++ (n ++ ">")).length = n.length + 1 + front.length := by
    rw [List.length_append, List.length_append, Nat.add_comm]
    rfl
  obtain rfl | rfl := spelling
  · rw [size, List.append_assoc, lettered, measured]
    rfl
  · rw [size, List.append_assoc, short, measured]
    rfl

/-- Behind a question mark that begins no mark of a name nothing is rewritten. -/
theorem bare_kept (begins : w.head? = some (unit '?')) (unnamed : namedMark? (w ++ t) = none)
    (inert : InertText w) : bare false (unit '(' :: (w ++ t)) = unit '(' :: (w ++ bare false t) := by
  have begins : (w ++ t).head? = some (unit '?') := by
    rw [List.head?_append, begins]
    rfl
  rw [bare_group, unnamed, ← scanner_bare.inert inert]
  exact if_pos begins

theorem namedMark?_flags {members : UnitClass} {flags : Text} (nonempty : flags ≠ [])
    (known : ∀ u ∈ flags, members.holds u = true)
    (out : members.holds (unit 'P') = false ∧ members.holds (unit '<') = false) :
    namedMark? ("?" ++ flags ++ t) = none := by
  obtain ⟨u, flags, rfl⟩ := List.exists_cons_of_ne_nil nonempty
  have flag := known u List.mem_cons_self
  exact namedMark?_beside (UnitClass.ne_of_holds flag out.1) (UnitClass.ne_of_holds flag out.2)

theorem crosses_bare (r : Text) : Crosses bare r := by
  cases found : namedMark? r with
  | some length =>
    obtain ⟨sign, name, rest, spelling, rfl, behind, word⟩ := namedMark?_eq_some found
    refine ⟨sign ++ (name ++ ">"), "?:", rest, ?_, ?_, by decide, ?_⟩
    · simp [Text.ofString, unit, CodeUnit.ofScalar]
    · have plain : unit ')' ∉ sign := by obtain rfl | rfl := spelling <;> decide
      have named : unit ')' ∉ name := fun inside => absurd (word _ inside) (by decide)
      simp only [List.mem_append, not_or]
      exact ⟨plain, named, by decide⟩
    · rw [bare_group, found]
      show Text.ofString "(?:" ++ bare false (List.drop length _) = _
      rw [behind]
      rfl
  | none =>
    by_cases marked : r.head? = some (unit '?')
    · refine ⟨[], [], r, rfl, List.not_mem_nil, List.not_mem_nil, ?_⟩
      rw [bare_group, found]
      exact if_pos marked
    · refine ⟨[], "?:", r, rfl, List.not_mem_nil, by decide, ?_⟩
      rw [bare_group, found]
      exact if_neg marked

end Bare

theorem rewriter_bare : Rewriter ["["] Pattern.uncaptured bare where
  toScanner := scanner_bare
  mark := by
    intro w t node mark unmarked
    have kept (begins : w.head? = some (unit '?')) (unnamed : namedMark? (w ++ t) = none) :
        bare false (unit '(' :: (w ++ t)) = unit '(' :: (w ++ bare false t) :=
      bare_kept begins unnamed mark.inert
    cases mark with
    | plain =>
      refine ⟨"?:", .group none, .uncaptured, fun _ => rfl, ?_⟩
      rw [List.nil_append, bare_group, namedMark?_unmarked unmarked]
      exact if_neg unmarked
    | named spelling isName =>
      refine ⟨"?:", .group none, .uncaptured, fun _ => rfl, ?_⟩
      rw [bare_group, namedMark?_named spelling isName t]
      show Text.ofString "(?:" ++ bare false _ = _
      rw [List.drop_left]
      rfl
    | uncaptured => exact ⟨_, _, .uncaptured, fun _ => rfl, kept rfl rfl⟩
    | look listed =>
      refine ⟨_, _, .look listed, fun _ => rfl, ?_⟩
      simp only [lookMarks, List.mem_cons, List.not_mem_nil, or_false] at listed
      obtain rfl | rfl | rfl | rfl := listed <;> exact kept rfl rfl
    | @flagged flags nonempty known =>
      refine ⟨_, _, .flagged nonempty known, fun _ => rfl, kept rfl ?_⟩
      have unnamed : namedMark? ("?" ++ flags ++ (":" ++ t)) = none :=
        namedMark?_flags nonempty known ⟨by decide, by decide⟩
      rwa [List.append_assoc, ← List.append_assoc flags] at unnamed
  bare := by
    intro x t a inside clear
    have closing : Regex.bare false (unit ')' :: t) = unit ')' :: Regex.bare false t :=
      scanner_bare.outside t (by decide)
    cases inside with
    | @reference n isName =>
      refine ⟨_, .bare (.reference isName), ?_⟩
      have inert : InertText ("?P=" ++ n) :=
        List.forall_mem_append.2 ⟨(by decide : InertText "?P="), isName.inert⟩
      rw [bare_kept rfl rfl inert, closing, parenthesised]
    | @comment c known =>
      have closed := commented_iff.1 known
      have plain : unit '[' ∉ c := clear.unbracketed closed List.mem_cons_self
      obtain ⟨c', closed', same⟩ :=
        scanner_bare.comment closed plain t fun y z _ => crosses_bare _
      refine ⟨_, .bare (.comment (commented_iff.2 closed')), ?_⟩
      rw [List.append_assoc, bare_kept rfl rfl (by decide), same, ← List.append_assoc,
        parenthesised]
    | @flags flags nonempty known =>
      refine ⟨_, .bare (.flags nonempty known), ?_⟩
      rw [bare_kept rfl (namedMark?_flags nonempty known ⟨by decide, by decide⟩) (inert_flags known),
        closing, parenthesised]

/-! ## Where names are respelled -/

/-- A text with its named groups respelled, from a place inside or outside of a bracketed set on. -/
abbrev respell (inSet : Bool) (t : Text) : Text := respelledFrom inSet 0 t

section Respell

variable {r t w : Text} {u : CodeUnit}

theorem scanner_respell : Scanner respell where
  nil := rfl
  escape inSet v r := by
    rw [respell, respelledFrom.eq_def]
    exact if_pos rfl
  inside {u} r escape closing := by
    rw [respell, respelledFrom.eq_def]
    dsimp only
    rw [if_neg escape, if_pos rfl, decide_eq_true closing]
  closing r := by
    rw [respell, respelledFrom.eq_def]
    exact if_neg (by decide)
  opening r := by
    rw [respell, respelledFrom.eq_def]
    exact if_neg (by decide)
  outside {u} r plain := by
    rw [mem_openers, not_or, not_or] at plain
    obtain ⟨escape, opening, group⟩ := plain
    rw [respell, respelledFrom.eq_def]
    dsimp only
    rw [if_neg escape, if_neg Bool.false_ne_true, if_neg opening, if_neg (fun both => group both.1),
      if_neg (fun both => group both.1)]

/-- A group is respelled by what stands behind its parenthesis. -/
theorem respell_group (r : Text) : respell false (unit '(' :: r) =
    if (Text.ofString "?P<").isPrefixOf r then "(?<" ++ respell false (r.drop 3)
    else if (Text.ofString "?P=").isPrefixOf r then
      match nameLength? (unit ')') (r.drop 3) with
      | some length =>
        "\\k<" ++ (r.drop 3).take (length - 1) ++ ">" ++ respell false (r.drop (length + 3))
      | none => unit '(' :: respell false r
    else unit '(' :: respell false r := by
  have skipped (count : Nat) (t : Text) : respelledFrom false count t = respell false (t.drop count) := by
    induction count generalizing t with
    | zero => rfl
    | succ count ih =>
      cases t with
      | nil => rfl
      | cons u r =>
        rw [respelledFrom]
        exact ih r
  rw [respell, respelledFrom.eq_def]
  dsimp only
  rw [if_neg (by decide), if_neg Bool.false_ne_true, if_neg (by decide)]
  by_cases named : (Text.ofString "?P<").isPrefixOf r
  · rw [if_pos ⟨rfl, named⟩, if_pos named, skipped]
  rw [if_neg (fun both => named both.2), if_neg named]
  by_cases referred : (Text.ofString "?P=").isPrefixOf r
  · rw [if_pos ⟨rfl, referred⟩, if_pos referred]
    cases nameLength? (unit ')') (r.drop 3) with
    | some length =>
      dsimp only
      rw [skipped]
    | none => rfl
  · rw [if_neg (fun both => referred both.2), if_neg referred]

theorem second_letter (begins : Text.ofString "?P" <+: unit '?' :: u :: r) : u = unit 'P' :=
  (List.cons_prefix_cons.1 (List.cons_prefix_cons.1 begins).2).1.symm

/-- Only a capital letter behind the question mark begins what is respelled. -/
theorem respell_kept (inert : InertText w) (other : ¬ Text.ofString "?P" <+: w ++ t) :
    respell false (unit '(' :: (w ++ t)) = unit '(' :: (w ++ respell false t) := by
  have beside (sign : Text) : ¬ (Text.ofString "?P" ++ sign).isPrefixOf (w ++ t) = true := by
    rw [List.isPrefixOf_iff_prefix]
    exact fun begins => other ((List.prefix_append _ _).trans begins)
  have named : ¬ (Text.ofString "?P<").isPrefixOf (w ++ t) = true := beside "<"
  have referred : ¬ (Text.ofString "?P=").isPrefixOf (w ++ t) = true := beside "="
  rw [respell_group, if_neg named, if_neg referred, scanner_respell.inert inert]

theorem crosses_respell (unreferred : ¬ Text.ofString "?P=" <+: r) : Crosses respell r := by
  by_cases named : Text.ofString "?P<" <+: r
  · obtain ⟨rest, rfl⟩ := named
    exact ⟨"?P<", "?<", rest, rfl, by decide, by decide, rfl⟩
  · refine ⟨[], [], r, rfl, List.not_mem_nil, List.not_mem_nil, ?_⟩
    rw [respell_group, if_neg (mt List.isPrefixOf_iff_prefix.1 named),
      if_neg (mt List.isPrefixOf_iff_prefix.1 unreferred)]
    rfl

end Respell

theorem not_prefix_of_flags {members : UnitClass} {flags t : Text} (nonempty : flags ≠ [])
    (known : ∀ u ∈ flags, members.holds u = true) (out : members.holds (unit 'P') = false) :
    ¬ Text.ofString "?P" <+: "?" ++ flags ++ t := by
  obtain ⟨u, flags, rfl⟩ := List.exists_cons_of_ne_nil nonempty
  have other : u ≠ unit 'P' := UnitClass.ne_of_holds (known u List.mem_cons_self) out
  exact fun begins => other (second_letter begins)

theorem rewriter_respell : Rewriter ["[", "(?P="] id respell where
  toScanner := scanner_respell
  mark := by
    intro w t node mark unmarked
    have kept (other : ¬ Text.ofString "?P" <+: w ++ t) : ∃ w' node', Mark w' node' ∧
        (∀ a, node' (id a) = id (node a)) ∧
        respell false (unit '(' :: (w ++ t)) = unit '(' :: (w' ++ respell false t) :=
      ⟨w, node, mark, fun _ => rfl, respell_kept mark.inert other⟩
    cases mark with
    | plain =>
      refine kept fun begins => unmarked ?_
      obtain ⟨rest, rfl⟩ := begins
      rfl
    | @named front n spelling isName =>
      obtain rfl | rfl := spelling
      · have inert : InertText (n ++ ">") :=
          List.forall_mem_append.2 ⟨isName.inert, (by decide : InertText ">")⟩
        have front (r : Text) : respell false (unit '(' :: ("?P<" ++ r)) =
            unit '(' :: ("?<" ++ respell false r) := by
          rw [respell_group]
          rfl
        refine ⟨_, _, .named (.inr rfl) isName, fun _ => rfl, ?_⟩
        rw [List.append_assoc, front, scanner_respell.inert inert, ← List.append_assoc]
      · exact kept fun begins => absurd (second_letter begins) (by decide)
    | uncaptured => exact kept fun begins => absurd (second_letter begins) (by decide)
    | look listed =>
      refine kept fun begins => ?_
      simp only [lookMarks, List.mem_cons, List.not_mem_nil, or_false] at listed
      obtain rfl | rfl | rfl | rfl := listed <;>
        exact absurd (second_letter begins) (by decide)
    | @flagged flags nonempty known =>
      have other : ¬ Text.ofString "?P" <+: "?" ++ flags ++ (":" ++ t) :=
        not_prefix_of_flags nonempty known (by decide)
      rw [List.append_assoc] at other
      exact kept (by rwa [List.append_assoc, List.append_assoc])
  bare := by
    intro x t a inside clear
    have closing : respell false (unit ')' :: t) = unit ')' :: respell false t :=
      scanner_respell.outside t (by decide)
    cases inside with
    | @reference n isName =>
      refine ⟨_, .reference isName, ?_⟩
      have measured : nameLength? (unit ')') (n ++ unit ')' :: t) = some (n.length + 1) :=
        nameLength?_name isName (by decide) t
      have front (r : Text) : respell false (unit '(' :: ("?P=" ++ r)) =
          match nameLength? (unit ')') r with
          | some length =>
            "\\k<" ++ r.take (length - 1) ++ ">" ++ respell false (r.drop length)
          | none => unit '(' :: respell false ("?P=" ++ r) := by
        rw [respell_group]
        rfl
      have left : (n ++ unit ')' :: t).drop (n.length + 1) = t := by
        rw [← List.drop_drop, List.drop_left]
        rfl
      rw [List.append_assoc, front, measured]
      dsimp only
      rw [Nat.add_sub_cancel, List.take_left, left, List.append_assoc (Text.ofString "\\k<")]
    | @comment c known =>
      have closed := commented_iff.1 known
      have plain : unit '[' ∉ c := clear.unbracketed closed List.mem_cons_self
      have crosses (y z : Text) (parts : c = y ++ unit '(' :: z) :
          Crosses respell (z ++ unit ')' :: t) := by
        refine crosses_respell ?_
        rintro ⟨rest, refers⟩
        obtain ⟨z, rfl, rfl⟩ := split_front (by decide) refers.symm
        exact clear.comment closed (List.mem_cons_of_mem _ List.mem_cons_self) y z parts
      obtain ⟨c', closed', same⟩ := scanner_respell.comment closed plain t crosses
      refine ⟨_, .bare (.comment (commented_iff.2 closed')), ?_⟩
      have other : ¬ Text.ofString "?P" <+: "?#" ++ (c ++ unit ')' :: t) := fun begins =>
        absurd (second_letter begins) (by decide)
      rw [List.append_assoc, respell_kept (by decide) other, same, ← List.append_assoc,
        parenthesised]
    | @flags flags nonempty known =>
      refine ⟨_, .bare (.flags nonempty known), ?_⟩
      rw [respell_kept (inert_flags known) (not_prefix_of_flags nonempty known (by decide)), closing,
        parenthesised]

/-! ## Both sources -/

theorem rewrites_hostSource {pattern : Text} {options : List Pattern}
    (derives : Derives .options pattern options []) (clear : Clear ["[", "(?P="] .code pattern) :
    Rewrites id (stripAnchor pattern) (hostSource pattern) := by
  have whole : Rewrites id pattern (respell false pattern) :=
    rewriter_respell.rewrites derives clear .nil
  match pattern with
  | [] => exact .nil
  | u :: r =>
    by_cases anchor : u = unit '^'
    · subst anchor
      rw [scanner_respell.outside r (by decide)] at whole
      obtain ⟨r', same, behind⟩ := whole.of_unit (by decide)
      obtain rfl := (List.cons.inj same).2
      exact behind
    · rw [stripAnchor, if_neg anchor, hostSource, if_neg anchor]
      exact whole

/-- The grammar reads the sources of a pattern as it reads the pattern, if nothing in it leads the
scanners astray. The source for the host is the same pattern as the one without its anchor, or both
are none. The source without captures is the pattern itself, except that none of its groups captures. -/
theorem sources_read {pattern : Text} {tree : NumberedPattern}
    (accepted : Pattern.read pattern = .ok tree) :
    (Clear ["[", "(?P="] .code pattern →
      (Pattern.read (hostSource pattern)).toOption =
        (Pattern.read (stripAnchor pattern)).toOption) ∧
    (Clear ["["] .code pattern →
      Pattern.read (withoutCaptures pattern) = .ok ⟨tree.root.uncaptured, 0, []⟩) := by
  obtain ⟨root, read, rfl⟩ := Pattern.read_eq_ok.1 accepted
  obtain ⟨options, -, derives⟩ := Pattern.readTree_iff_derives.1 read
  constructor
  · intro clear
    have same := (rewrites_hostSource derives clear).readTree_eq
    have numbered (t : Text) : (Pattern.read t).toOption =
        (Pattern.readTree t).toOption.map Pattern.numbered := by
      rw [Pattern.read]
      cases Pattern.readTree t <;> rfl
    rw [numbered, numbered, same]
  · intro clear
    have whole : Rewrites Pattern.uncaptured pattern (withoutCaptures pattern) :=
      rewriter_bare.rewrites derives clear .nil
    exact Pattern.read_eq_ok.2 ⟨_, whole.readTree Pattern.structural_uncaptured read,
      (Pattern.numbered_uncaptured root).symm⟩

/-- An anchor, both spellings of a named group and of a reference to it, marks of names in a set and
in a comment, a set that begins with a closing bracket, an escaped parenthesis and groups with other
marks. -/
def markedPattern : Text :=
  "^(?P<q>a)(?P=q)[^(?P<](?#(?P<x>(\\)(?<r>([^]b]+)|\\k<q>)\\((?:c)(?=d)(?i:e)"

theorem sources_read_markedPattern : ∃ tree, Pattern.read markedPattern = .ok tree ∧
    tree.groupCount = 3 ∧ Clear ["[", "(?P="] .code markedPattern ∧
    Clear ["["] .code markedPattern ∧
    hostSource markedPattern =
      "(?<q>a)\\k<q>[^(?P<](?#(?<x>(\\)(?<r>([^]b]+)|\\k<q>)\\((?:c)(?=d)(?i:e)" ∧
    (Pattern.read (hostSource markedPattern)).toOption =
      (Pattern.read (stripAnchor markedPattern)).toOption ∧
    withoutCaptures markedPattern =
      "^(?:a)(?P=q)[^(?P<](?#(?:(?:\\)(?:(?:[^]b]+)|\\k<q>)\\((?:c)(?=d)(?i:e)" ∧
    Pattern.read (withoutCaptures markedPattern) = .ok ⟨tree.root.uncaptured, 0, []⟩ := by
  have facts : (Pattern.read markedPattern).toOption.map NumberedPattern.groupCount = some 3 := by
    decide +kernel
  obtain ⟨tree, read, count⟩ := Option.map_eq_some_iff.1 facts
  have accepted := eq_ok_of_toOption read
  have clear : Clear ["[", "(?P="] .code markedPattern := by decide +kernel
  have clear' : Clear ["["] .code markedPattern := by decide +kernel
  obtain ⟨host, bare⟩ := sources_read accepted
  refine ⟨tree, accepted, count, clear, clear', ?_, host clear, ?_, bare clear'⟩
  · decide +kernel
  · decide +kernel

/-- What leads the scanners astray does harm. A set that begins with a closing bracket loses a unit
or gains some, a bracket in a comment hides a group that captures, and a reference in a comment takes
its parenthesis away. -/
theorem sources_misread :
    (∀ p ∈ (["[](?P<]", "(?#(?P=n)"] : List Text), (∃ tree, Pattern.read p = .ok tree) ∧
      (Pattern.read (hostSource p)).toOption ≠ (Pattern.read (stripAnchor p)).toOption) ∧
    ∀ p ∈ (["[](]", "(?#[)(a)"] : List Text), ∃ tree, Pattern.read p = .ok tree ∧
      Pattern.read (withoutCaptures p) ≠ .ok ⟨tree.root.uncaptured, 0, []⟩ := by
  have reads (p : Text) (some : (Pattern.read p).toOption.isSome = true) :
      ∃ tree, Pattern.read p = .ok tree := by
    obtain ⟨tree, read⟩ := Option.isSome_iff_exists.1 some
    exact ⟨tree, eq_ok_of_toOption read⟩
  have host (p : Text) (other : (Pattern.read (hostSource p)).toOption.map (·.root.spell) ≠
      (Pattern.read (stripAnchor p)).toOption.map (·.root.spell)) :
      (Pattern.read (hostSource p)).toOption ≠ (Pattern.read (stripAnchor p)).toOption :=
    fun same => other (congrArg (Option.map (·.root.spell)) same)
  have bare (p : Text) (other : (Pattern.read (withoutCaptures p)).toOption.map (·.root.spell) ≠
      (Pattern.read p).toOption.map (·.root.uncaptured.spell)) {tree : NumberedPattern}
      (read : Pattern.read p = .ok tree) :
      Pattern.read (withoutCaptures p) ≠ .ok ⟨tree.root.uncaptured, 0, []⟩ :=
    fun same => other (by rw [same, read]; rfl)
  simp only [List.forall_mem_cons, List.not_mem_nil, false_implies, implies_true, and_true]
  refine ⟨⟨⟨reads _ ?_, host _ ?_⟩, reads _ ?_, host _ ?_⟩, ?_, ?_⟩
  · decide +kernel
  · decide +kernel
  · decide +kernel
  · decide +kernel
  · obtain ⟨tree, read⟩ := reads "[](]" (by decide +kernel)
    exact ⟨tree, read, bare _ (by decide +kernel) read⟩
  · obtain ⟨tree, read⟩ := reads "(?#[)(a)" (by decide +kernel)
    exact ⟨tree, read, bare _ (by decide +kernel) read⟩

end Regex

end Highlight
