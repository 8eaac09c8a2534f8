import Highlight.Command.Options
import Highlight.Proofs.Number.Decimals
import Highlight.Proofs.Table

/-!
# Arguments in any order

Arguments come in groups: a flag with its value, a flag alone, or the catalogue directory. Reading a
group takes exactly its own arguments and sets one option (`ArgumentGroup.readFrom_arguments`), and
groups of different kinds set different ones. So the order of the groups counts only among those of
one kind, and the options can be read back from any interleaving of their groups that keeps the
order of the languages and that of the styles (`Options.ofArguments_interleaved`).
-/

namespace Highlight

section Order

variable {α κ σ : Type} [DecidableEq κ] {kind : α → κ} {f : σ → α → σ}

omit [DecidableEq κ] in
/-- A step can be taken earlier, in front of steps of other kinds. -/
theorem foldl_past (commute : ∀ s a b, kind a ≠ kind b → f (f s a) b = f (f s b) a) {x : α}
    {before : List α} (others : ∀ b ∈ before, kind b ≠ kind x) (s : σ) :
    f (before.foldl f s) x = before.foldl f (f s x) := by
  induction before generalizing s with
  | nil => rfl
  | cons b before ih =>
    obtain ⟨here, later⟩ := List.forall_mem_cons.1 others
    rw [List.foldl_cons, List.foldl_cons, ih later, commute s b x here]

/-- Where steps of different kinds commute, only the order among those of one kind counts. -/
theorem foldl_eq_of_kinds (commute : ∀ s a b, kind a ≠ kind b → f (f s a) b = f (f s b) a)
    {xs ys : List α}
    (same : ∀ k, xs.filter (fun x => kind x = k) = ys.filter fun y => kind y = k) (s : σ) :
    xs.foldl f s = ys.foldl f s := by
  induction xs generalizing ys s with
  | nil =>
    cases ys with
    | nil => rfl
    | cons y ys =>
      have first := same (kind y)
      rw [List.filter_cons_of_pos (by simp)] at first
      cases first
  | cons x xs ih =>
    have first := same (kind x)
    rw [List.filter_cons_of_pos (by simp)] at first
    obtain ⟨before, after, rfl, others, -, -⟩ := List.filter_eq_cons_iff.1 first.symm
    have different : ∀ b ∈ before, kind b ≠ kind x := fun b listed => by simpa using others b listed
    rw [List.foldl_cons, List.foldl_append, List.foldl_cons, foldl_past commute different,
      ← List.foldl_append]
    refine ih (fun k => ?_) _
    have parts := same k
    rw [List.filter_append, List.filter_cons, List.filter_cons] at parts
    rw [List.filter_append]
    by_cases here : kind x = k
    · have none : before.filter (fun b => kind b = k) = [] := by
        rw [List.filter_eq_nil_iff]
        intro b listed
        simpa [← here] using different b listed
      simpa [here, none] using parts
    · simpa [here] using parts

end Order

/-- Neighbouring arguments that set one option. -/
inductive ArgumentGroup where
  | directory (path : Text)
  | out (path : Text)
  | lang (name : Text)
  | style (name : Text)
  | maxDepth (depth : Nat)
  | config (path : Text)
  /-- A flag that stands alone, in one of its spellings. -/
  | switch (flag : Flag) (spelling : Text)
  deriving DecidableEq, Repr

namespace ArgumentGroup

/-- The flag of a group; the directory has none. -/
def flag? : ArgumentGroup → Option Flag
  | directory _ => none
  | out _ => some .out
  | lang _ => some .lang
  | style _ => some .style
  | maxDepth _ => some .maxDepth
  | config _ => some .config
  | switch flag _ => some flag

/-- The arguments of a group. -/
def arguments : ArgumentGroup → List Text
  | directory path => [path]
  | out path => ["--out", path]
  | lang name => ["--lang", name]
  | style name => ["--style", name]
  | maxDepth depth => ["--max-depth", Text.ofNat depth]
  | config path => ["--config", path]
  | switch _ spelling => [spelling]

/-- The option that a group sets. -/
def set (o : Options) : ArgumentGroup → Options
  | directory path => { o with catalogueDir := some path }
  | out path => { o with outDir := some path }
  | lang name => { o with languages := o.languages ++ [name] }
  | style name => { o with styles := o.styles ++ [name] }
  | maxDepth depth => { o with maxDepth := some (.integer depth) }
  | config path => { o with configPath := some path }
  | switch flag _ => o.withSwitch flag

/-- The arguments of a group can be taken for nothing else. -/
def Proper : ArgumentGroup → Prop
  | directory path => (Text.ofString "-").isPrefixOf path = false
  | out value | lang value | style value | config value => Options.isValue value = true
  | maxDepth depth => 0 < depth ∧ depth < 2 ^ 53
  | switch flag spelling => flag.takesValue = false ∧ Flag.ofArgument? spelling = some flag

variable {group : ArgumentGroup} {o : Options}

/-! ## One group -/

/-- Every spelling of a flag begins with a dash. -/
theorem dash_of_ofArgument? {argument : Text} {flag : Flag}
    (spells : Flag.ofArgument? argument = some flag) :
    (Text.ofString "-").isPrefixOf argument = true := by
  have each : ∀ spelling ∈ Flag.spellings, (Text.ofString "-").isPrefixOf spelling.1 = true := by
    decide
  exact each _ (Table.mem_of_get? spells)

theorem readFrom_valued (flag : Flag) {spelling value : Text} {next : Options} {rest : List Text}
    (spells : Flag.ofArgument? spelling = some flag) (takes : flag.takesValue = true)
    (valued : Options.isValue value = true) (sets : o.withValue flag value = .ok next) :
    o.readFrom (spelling :: value :: rest) = next.readFrom rest := by
  rw [Options.readFrom]
  simp only [spells, if_pos takes, if_pos valued, sets]
  rfl

theorem isValue_ofNat (n : Nat) : Options.isValue (Text.ofNat n) = true := by
  obtain ⟨first, rest, same⟩ := List.exists_cons_of_ne_nil (Text.ofNat_ne_nil n)
  have digit : first.isDigit = true := Text.isDigit_ofNat n first (same ▸ List.mem_cons_self)
  have other : unit '-' ≠ first := by
    rintro rfl
    exact absurd digit (by decide)
  rw [Options.isValue, same]
  show (!(unit '-' == first && _)) = true
  rw [beq_false_of_ne other]
  rfl

theorem count_ofNat {n : Nat} (pos : 0 < n) (short : n < 2 ^ 53) :
    Options.count (Text.ofNat n) = .ok (.integer n) := by
  have counts : ((Number.integer n).isInteger && (Number.finite 0 0).lt (Number.integer n)) = true := by
    simpa [Number.integer, Number.isInteger, Number.lt] using pos
  rw [Options.count, Number.ofWord?_ofNat short]
  exact if_pos counts

/-- Reading the arguments of a group sets its option and leaves the rest. -/
theorem readFrom_arguments (proper : group.Proper)
    (vacant : group.flag? = none → o.catalogueDir = none) (rest : List Text) :
    o.readFrom (group.arguments ++ rest) = (group.set o).readFrom rest := by
  cases group with
  | directory path =>
    have plain : Flag.ofArgument? path = none := by
      cases spells : Flag.ofArgument? path with
      | none => rfl
      | some flag =>
        have dash := dash_of_ofArgument? spells
        rw [show _ = false from proper] at dash
        cases dash
    have taken : o.withDirectory path = .ok { o with catalogueDir := some path } := by
      rw [Options.withDirectory, if_neg (by rw [show _ = false from proper]; nofun), vacant rfl]
      rfl
    rw [arguments, List.singleton_append, Options.readFrom]
    simp only [plain, taken]
    rfl
  | out path => exact readFrom_valued .out (by decide) rfl proper rfl
  | lang name => exact readFrom_valued .lang (by decide) rfl proper rfl
  | style name => exact readFrom_valued .style (by decide) rfl proper rfl
  | config path => exact readFrom_valued .config (by decide) rfl proper rfl
  | maxDepth depth =>
    refine readFrom_valued .maxDepth (by decide) rfl (isValue_ofNat depth) ?_
    rw [Options.withValue, count_ofNat proper.1 proper.2]
    rfl
  | switch flag spelling =>
    rw [arguments, List.singleton_append, Options.readFrom]
    simp only [proper.2, proper.1]
    rfl

/-! ## All groups -/

theorem catalogueDir_withSwitch (o : Options) (flag : Flag) :
    (o.withSwitch flag).catalogueDir = o.catalogueDir := by
  cases flag <;> rfl

/-- Only a directory sets the directory. -/
theorem catalogueDir_set (named : group.flag? ≠ none) :
    (group.set o).catalogueDir = o.catalogueDir := by
  cases group with
  | directory path => exact absurd rfl named
  | switch flag spelling => exact catalogueDir_withSwitch o flag
  | out | lang | style | maxDepth | config => rfl

/-- Reading groups with one directory among them sets their options one after the other. -/
theorem readFrom_groups {groups : List ArgumentGroup} (proper : ∀ group ∈ groups, group.Proper)
    (once : (groups.filter fun group => group.flag? = none).length ≤ 1)
    (vacant : o.catalogueDir = none ∨ ∀ group ∈ groups, group.flag? ≠ none) :
    o.readFrom (groups.flatMap arguments) = .ok (groups.foldl set o) := by
  induction groups generalizing o with
  | nil => rfl
  | cons group groups ih =>
    obtain ⟨here, later⟩ := List.forall_mem_cons.1 proper
    have free : group.flag? = none → o.catalogueDir = none := fun directory =>
      vacant.resolve_right fun named => named group List.mem_cons_self directory
    rw [List.flatMap_cons, readFrom_arguments here free, List.foldl_cons]
    by_cases directory : group.flag? = none
    · rw [List.filter_cons_of_pos (by simpa using directory), List.length_cons] at once
      have none : groups.filter (fun group => group.flag? = none) = [] :=
        List.length_eq_zero_iff.1 (by omega)
      refine ih later (by rw [none]; exact Nat.zero_le _) (.inr fun other listed => ?_)
      simpa using List.filter_eq_nil_iff.1 none other listed
    · rw [List.filter_cons_of_neg (by simpa using directory)] at once
      refine ih later once (vacant.imp ?_ fun named => (List.forall_mem_cons.1 named).2)
      exact (catalogueDir_set directory).trans

/-! ## The order of groups -/

/-- Groups of different kinds set different options. -/
theorem set_comm (o : Options) (first second : ArgumentGroup)
    (different : first.flag? ≠ second.flag?) :
    second.set (first.set o) = first.set (second.set o) := by
  cases first with
  | switch flag spelling =>
    cases second with
    | switch other spelling => cases flag <;> cases other <;> rfl
    | _ => cases flag <;> rfl
  | _ =>
    cases second with
    | switch flag spelling => cases flag <;> rfl
    | _ => first | rfl | exact absurd rfl different

theorem foldl_lang (names : List Text) (o : Options) :
    (names.map lang).foldl set o = { o with languages := o.languages ++ names } := by
  induction names generalizing o with
  | nil => rw [List.append_nil]; rfl
  | cons name names ih =>
    rw [List.map_cons, List.foldl_cons, ih, set, List.append_assoc]
    rfl

theorem foldl_style (names : List Text) (o : Options) :
    (names.map style).foldl set o = { o with styles := o.styles ++ names } := by
  induction names generalizing o with
  | nil => rw [List.append_nil]; rfl
  | cons name names ih =>
    rw [List.map_cons, List.foldl_cons, ih, set, List.append_assoc]
    rfl

end ArgumentGroup

namespace Options

open ArgumentGroup

/-- The switches of the command line. -/
def switches : List Flag := [.noStyles, .failFast, .listConfig, .verbose, .noColor, .help]

/-- A switch has been set. -/
def isOn (o : Options) : Flag → Bool
  | .noStyles => o.noStyles
  | .failFast => o.failFast
  | .listConfig => o.listConfig
  | .verbose => o.verbose
  | .noColor => !o.color
  | .help => o.help
  | _ => false

/-- The groups that ask for the options, each switch in the given spelling. -/
def groups (spelling : Flag → Text) (o : Options) : List ArgumentGroup :=
  o.catalogueDir.toList.map .directory ++ (o.outDir.toList.map .out ++
    (o.languages.map .lang ++ (o.styles.map .style ++
      (o.maxDepth.toList.map (fun depth => .maxDepth depth.floorNat) ++
        (o.configPath.toList.map .config ++
          (switches.filter o.isOn).map fun flag => .switch flag (spelling flag))))))

/-- Options that arguments can ask for: no value looks like a long flag and no directory like a
flag, and the depth is a positive integer of at most 53 binary places. -/
structure Proper (o : Options) : Prop where
  directory : ∀ path ∈ o.catalogueDir, (Text.ofString "-").isPrefixOf path = false
  out : ∀ path ∈ o.outDir, isValue path = true
  languages : ∀ name ∈ o.languages, isValue name = true
  styles : ∀ name ∈ o.styles, isValue name = true
  maxDepth : ∀ depth ∈ o.maxDepth, ∃ n : Nat, depth = .integer n ∧ 0 < n ∧ n < 2 ^ 53
  config : ∀ path ∈ o.configPath, isValue path = true

/-- The spelling of each switch is one of its own. -/
def Spells (spelling : Flag → Text) : Prop :=
  ∀ flag ∈ switches, Flag.ofArgument? (spelling flag) = some flag

variable {o : Options} {spelling : Flag → Text}

theorem proper_groups (proper : o.Proper) (spells : Spells spelling) :
    ∀ group ∈ o.groups spelling, group.Proper := by
  simp only [groups, List.forall_mem_append, List.forall_mem_map, Option.mem_toList,
    List.mem_filter]
  refine ⟨proper.directory, proper.out, proper.languages, proper.styles, ?_, proper.config, ?_⟩
  · intro depth given
    obtain ⟨n, rfl, pos, short⟩ := proper.maxDepth depth given
    simpa [ArgumentGroup.Proper, Number.integer, Number.floorNat] using And.intro pos short
  · rintro flag ⟨listed, -⟩
    have alone : ∀ flag ∈ switches, flag.takesValue = false := by decide
    exact ⟨alone flag listed, spells flag listed⟩

/-- Setting what the options ask for gives the options. -/
theorem foldl_groups (proper : o.Proper) : (o.groups spelling).foldl set standard = o := by
  have directory : (o.catalogueDir.toList.map ArgumentGroup.directory).foldl set standard =
      { standard with catalogueDir := o.catalogueDir } := by
    cases o.catalogueDir <;> rfl
  have out (s : Options) (vacant : s.outDir = none) :
      (o.outDir.toList.map ArgumentGroup.out).foldl set s = { s with outDir := o.outDir } := by
    cases o.outDir with
    | none => cases s; cases vacant; rfl
    | some path => rfl
  have depth (s : Options) (vacant : s.maxDepth = none) :
      (o.maxDepth.toList.map fun depth => ArgumentGroup.maxDepth depth.floorNat).foldl set s =
        { s with maxDepth := o.maxDepth } := by
    cases given : o.maxDepth with
    | none => cases s; cases vacant; rfl
    | some depth =>
      obtain ⟨n, rfl, -, -⟩ := proper.maxDepth depth given
      exact congrArg (fun m : Nat => { s with maxDepth := some (.integer m) })
        (Number.floorNat_finite n)
  have config (s : Options) (vacant : s.configPath = none) :
      (o.configPath.toList.map ArgumentGroup.config).foldl set s =
        { s with configPath := o.configPath } := by
    cases o.configPath with
    | none => cases s; cases vacant; rfl
    | some path => rfl
  simp only [groups, List.foldl_append, directory]
  rw [out _ rfl, foldl_lang, foldl_style, depth _ rfl, config _ rfl]
  obtain ⟨_, _, _, _, noStyles, _, failFast, _, listConfig, verbose, color, help⟩ := o
  cases noStyles <;> cases failFast <;> cases listConfig <;> cases verbose <;> cases color <;>
    cases help <;> rfl

/-- Of one kind there is at most one group, apart from the languages and the styles. -/
theorem length_groups_le (spelling : Flag → Text) (o : Options) {kind : Option Flag}
    (noLang : kind ≠ some .lang) (noStyle : kind ≠ some .style) :
    ((o.groups spelling).filter fun group => group.flag? = kind).length ≤ 1 := by
  have single {α : Type} (value : Option α) (group : α → ArgumentGroup) (flag : Option Flag)
      (same : ∀ a, (group a).flag? = flag) :
      ((value.toList.map group).filter fun group => group.flag? = kind).length ≤
        if flag = kind then 1 else 0 := by
    cases value with
    | none => exact Nat.zero_le _
    | some a => by_cases here : flag = kind <;> simp [same, here]
  have absent {α : Type} (values : List α) (group : α → ArgumentGroup)
      (other : ∀ a, (group a).flag? ≠ kind) :
      (values.map group).filter (fun group => group.flag? = kind) = [] := by
    simp [List.filter_eq_nil_iff, other]
  have switched : (((switches.filter o.isOn).map fun flag => ArgumentGroup.switch flag
      (spelling flag)).filter fun group => group.flag? = kind).length ≤
        (switches.filter fun flag => some flag = kind).length := by
    rw [List.filter_map, List.length_map, List.filter_filter]
    refine (List.monotone_filter_right switches fun flag both => ?_).length_le
    exact (Bool.and_eq_true_iff.1 both).1
  have sum : ∀ kind : Option Flag, (if none = kind then 1 else 0) +
      ((if some .out = kind then 1 else 0) + ((if some .maxDepth = kind then 1 else 0) +
        ((if some .config = kind then 1 else 0) +
          (switches.filter fun flag => some flag = kind).length))) ≤ 1 := by
    intro kind
    cases kind with
    | none => decide
    | some flag => cases flag <;> decide
  refine le_trans ?_ (sum kind)
  simp only [groups, List.filter_append, List.length_append,
    absent o.languages lang fun name => noLang.symm, absent o.styles style fun name => noStyle.symm,
    List.length_nil, Nat.zero_add]
  gcongr
  · exact single _ _ _ fun _ => rfl
  · exact single _ _ _ fun _ => rfl
  · exact single _ _ _ fun _ => rfl
  · exact single _ _ _ fun _ => rfl

/-- The same groups in another order, in which the languages come one after the other as before, and
so do the styles. -/
structure Interleaves (arguments groups : List ArgumentGroup) : Prop where
  perm : arguments.Perm groups
  languages : arguments.filter (fun group => group.flag? = some .lang) =
    groups.filter fun group => group.flag? = some .lang
  styles : arguments.filter (fun group => group.flag? = some .style) =
    groups.filter fun group => group.flag? = some .style

/-- No kind of groups changes its order. -/
theorem Interleaves.filter_eq {arguments : List ArgumentGroup}
    (interleaves : Interleaves arguments (o.groups spelling)) (kind : Option Flag) :
    arguments.filter (fun group => group.flag? = kind) =
      (o.groups spelling).filter fun group => group.flag? = kind := by
  by_cases lang : kind = some .lang
  · rw [lang, interleaves.languages]
  by_cases style : kind = some .style
  · rw [style, interleaves.styles]
  have few := length_groups_le spelling o lang style
  have perm := interleaves.perm.filter fun group => group.flag? = kind
  cases only : (o.groups spelling).filter fun group => group.flag? = kind with
  | nil =>
    rw [only] at perm
    exact perm.eq_nil
  | cons group others =>
    rw [only] at perm few
    cases others with
    | nil => exact List.perm_singleton.1 perm
    | cons other others => simp at few

/-- Options are read back from any interleaving of the groups that ask for them. -/
theorem ofArguments_interleaved (proper : o.Proper) (spells : Spells spelling)
    {arguments : List ArgumentGroup} (interleaves : Interleaves arguments (o.groups spelling)) :
    ofArguments (arguments.flatMap ArgumentGroup.arguments) = .ok o := by
  have legal : ∀ group ∈ arguments, group.Proper := fun group listed =>
    proper_groups proper spells group (interleaves.perm.mem_iff.1 listed)
  have once : (arguments.filter fun group => group.flag? = none).length ≤ 1 := by
    rw [interleaves.filter_eq]
    exact length_groups_le spelling o nofun nofun
  calc ofArguments (arguments.flatMap ArgumentGroup.arguments)
      = .ok (arguments.foldl ArgumentGroup.set standard) := readFrom_groups legal once (.inl rfl)
    _ = .ok ((o.groups spelling).foldl ArgumentGroup.set standard) :=
      congrArg _ (foldl_eq_of_kinds set_comm interleaves.filter_eq standard)
    _ = .ok o := congrArg _ (foldl_groups proper)

/-- Two languages, two styles, values that look like flags with one dash, and short spellings. -/
def mixed : Options where
  catalogueDir := some "catalogue"
  outDir := some "-v"
  languages := ["ini", "-h"]
  styles := ["monokai", "ini"]
  noStyles := false
  maxDepth := some (.integer 12)
  failFast := true
  configPath := some "my.json"
  listConfig := false
  verbose := true
  color := false
  help := true

/-- The short spellings where there are some. -/
def shortly : Flag → Text
  | .noStyles => "--no-styles"
  | .failFast => "--fail-fast"
  | .listConfig => "--list-config"
  | .verbose => "-v"
  | .noColor => "--no-color"
  | .help => "-h"
  | _ => []

/-- The groups of `mixed` with the switches, languages and styles among each other. -/
def mixedArguments : List ArgumentGroup :=
  [.switch .help "-h", .lang "ini", .style "monokai", .maxDepth 12, .out "-v", .lang "-h",
    .switch .noColor "--no-color", .directory "catalogue", .switch .verbose "-v", .config "my.json",
    .style "ini", .switch .failFast "--fail-fast"]

theorem proper_mixed : mixed.Proper where
  directory := by decide
  out := by decide
  languages := by decide
  styles := by decide
  maxDepth := fun depth given => ⟨12, (Option.some.inj given).symm, by decide, by decide⟩
  config := by decide

theorem ofArguments_interleaved_mixed :
    mixed.Proper ∧ Spells shortly ∧ Interleaves mixedArguments (mixed.groups shortly) ∧
      ofArguments ["-h", "--lang", "ini", "--style", "monokai", "--max-depth", "12", "--out", "-v",
        "--lang", "-h", "--no-color", "catalogue", "-v", "--config", "my.json", "--style", "ini",
        "--fail-fast"] = .ok mixed := by
  have spells : Spells shortly := by
    unfold Spells
    decide
  have interleaves : Interleaves mixedArguments (mixed.groups shortly) :=
    ⟨by decide, by decide, by decide⟩
  refine ⟨proper_mixed, spells, interleaves, ?_⟩
  have words : mixedArguments.flatMap ArgumentGroup.arguments = ([
      "-h", "--lang", "ini", "--style", "monokai", "--max-depth", "12", "--out", "-v", "--lang", "-h",
      "--no-color", "catalogue", "-v", "--config", "my.json", "--style", "ini", "--fail-fast"] :
      List Text) := by
    decide
  rw [← words]
  exact ofArguments_interleaved proper_mixed spells interleaves

end Options

end Highlight
