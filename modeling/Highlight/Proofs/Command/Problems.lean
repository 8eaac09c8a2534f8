import Highlight.Proofs.Command.Stages

/-!
# Problems of a run

Whatever goes wrong in a run is told on the error stream and counted, and nothing else is. The
problems of a run are told from its arguments, its configuration and what it finds in its catalogue
(`Command.Problems`). The lines of its error stream are these, one for one and in order, and its exit
code says whether there are any (`Command.run_tells_problems`).
-/

namespace Highlight

/-- What goes to the error stream is these texts, as errors. -/
def Reports (messages : List Message) (texts : List Text) : Prop :=
  messages.filter (·.level.stream = .errors) = texts.map (⟨.error, ·⟩)

namespace Reports

variable {messages others : List Message} {texts more : List Text}

theorem append (first : Reports messages texts) (second : Reports others more) :
    Reports (messages ++ others) (texts ++ more) := by
  unfold Reports
  rw [List.filter_append, first, second, List.map_append]

theorem append_silent (first : Reports messages texts) (second : Reports others []) :
    Reports (messages ++ others) texts := by
  have whole := first.append second
  rwa [List.append_nil] at whole

/-- Messages of which none is for the error stream. -/
theorem silent (none : ∀ message ∈ messages, message.level.stream = .output) :
    Reports messages [] := by
  refine List.filter_eq_nil_iff.2 fun message told => ?_
  rw [none message told]
  decide

theorem ofErrors (texts : List Text) : Reports (texts.map (⟨.error, ·⟩)) texts := by
  refine List.filter_eq_self.2 fun message told => ?_
  obtain ⟨text, -, rfl⟩ := List.mem_map.1 told
  rfl

theorem flatMap {α : Type} {list : List α} {told : α → List Message} {texts : α → List Text}
    (each : ∀ a ∈ list, Reports (told a) (texts a)) :
    Reports (list.flatMap told) (list.flatMap texts) := by
  induction list with
  | nil => rfl
  | cons a list ih =>
    exact (each a List.mem_cons_self).append (ih fun b listed => each b (List.mem_cons_of_mem _ listed))

/-- A logger leaves out no error. -/
theorem lines (reports : Reports messages texts) (logger : Logger) :
    (logger.lines messages).filter (·.1 = .errors) =
      texts.map fun text => (.errors, logger.line ⟨.error, text⟩) := by
  have kept (message : Message) : (decide (message.level.stream = .errors) && logger.writes message) =
      decide (message.level.stream = .errors) := by
    unfold Logger.writes
    cases message.level <;> cases logger.verbose <;> rfl
  unfold Logger.lines
  rw [List.filter_map, List.filter_filter]
  simp only [Function.comp_def, kept]
  rw [reports, List.map_map]
  rfl

end Reports

namespace Plan

variable {α ε : Type} {plan : Plan α ε} {options : BatchOptions} {items : List α} {item : α}
  {batch : Batch ε}

/-- What the user is told of the items that fail. -/
def complaints (plan : Plan α ε) (paint : Paint) (items : List α) : List Text :=
  (plan.failures items).map fun failure => (plan.failure failure.2).render paint

theorem complaints_flatMap (paint : Paint) :
    plan.complaints paint items = items.flatMap fun item => plan.complaints paint [item] := by
  unfold complaints failures
  rw [List.map_filterMap, List.filterMap_eq_flatMap_toList]
  refine List.flatMap_congr fun item _ => ?_
  rw [List.map_filterMap, List.filterMap_eq_flatMap_toList, List.flatMap_singleton]

/-- The error of an item that fails is the only one that is told of it. -/
theorem reports_told (sound : ∀ e, plan.make item = .error e → plan.isFatal e = false) :
    Reports (plan.told options item) (plan.complaints options.paint [item]) := by
  unfold told complaints failures
  cases made : plan.make item with
  | ok product =>
    rw [List.filterMap_cons_none (by rw [made]; rfl)]
    refine .silent fun message told => ?_
    obtain rfl | told := List.mem_cons.1 told
    · rfl
    · obtain ⟨file, -, noted⟩ := List.mem_flatMap.1 told
      obtain ⟨remark, -, rfl⟩ := List.mem_map.1 noted
      rfl
  | error e =>
    rw [List.filterMap_cons_some (by rw [made]; rfl)]
    dsimp only
    rw [sound e made, if_neg nofun]
    rfl

theorem breakdown?_eq_none_iff : plan.breakdown? items = none ↔
    ∀ item ∈ items, ∀ e, plan.make item = .error e → plan.isFatal e = false := by
  unfold breakdown?
  rw [List.findSome?_eq_none_iff]
  refine forall₂_congr fun item _ => ?_
  cases plan.make item with
  | ok product => simp [failure?]
  | error e => simp [failure?, Option.filter]

theorem accounted_eq_ok (done : plan.accounted options items = .ok batch) :
    plan.breakdown? (plan.tried options.failFast items) = none ∧
      batch.failures = plan.failures (plan.tried options.failFast items) := by
  unfold accounted account at done
  cases broken : plan.breakdown? (plan.tried options.failFast items) with
  | some e =>
    rw [broken] at done
    cases done
  | none =>
    rw [broken] at done
    cases done
    exact ⟨rfl, rfl⟩

/-- A batch that gets through reports the items that fail, out of those that it comes to. -/
theorem reports_log (done : plan.accounted options items = .ok batch) :
    Reports (plan.log options items)
      (plan.complaints options.paint (plan.tried options.failFast items)) := by
  have sound := breakdown?_eq_none_iff.1 (accounted_eq_ok done).1
  have table : Reports (Batch.tableNotes options.outDir plan.tableFile batch.table) [] := by
    unfold Batch.tableNotes
    cases batch.table.isEmpty with
    | true => exact .silent nofun
    | false => exact .silent fun message told => by rw [List.mem_singleton.1 told]; rfl
  have told : ∀ item ∈ plan.tried options.failFast items,
      Reports (plan.told options item) (plan.complaints options.paint [item]) :=
    fun item tried => reports_told (sound item tried)
  have each := Reports.flatMap told
  rw [← complaints_flatMap] at each
  unfold log
  rw [done]
  exact each.append_silent table

theorem length_complaints (done : plan.accounted options items = .ok batch) :
    (plan.complaints options.paint (plan.tried options.failFast items)).length =
      batch.failures.length := by
  rw [complaints, List.length_map, (accounted_eq_ok done).2]

end Plan

namespace Command

variable {env : Environment} {arguments : List Text} {tree : FileTree} {config : Config}
  {options : BatchOptions} {problems : Nat}

/-- What the user is told of files that could not be loaded. -/
def loadTexts (paint : Paint) (failures : List (Text × Failure)) : List Text :=
  failures.map fun failure => failure.1 ++ ": " ++ failure.2.render paint

/-- What the user is told of names that no language answers to. -/
def missingTexts (missing : List Text) : List Text :=
  missing.map fun name => "No language named '" ++ name ++ "' in the catalogue"

theorem reports_loadNotes (paint : Paint) (failures : List (Text × Failure)) :
    Reports (loadNotes paint failures) (loadTexts paint failures) := by
  have told := Reports.ofErrors (loadTexts paint failures)
  rwa [loadTexts, List.map_map] at told

theorem reports_missingNotes (missing : List Text) :
    Reports (missingNotes missing) (missingTexts missing) := by
  have told := Reports.ofErrors (missingTexts missing)
  rwa [missingTexts, List.map_map] at told

/-- The problems of the languages stage: the files that could not be loaded, the names that none
answers to, and the languages that cannot be compiled. -/
def languageProblems (env : Environment) (config : Config) (options : BatchOptions)
    (loaded : Registry.Loaded) : List Text :=
  let chosen := selection config loaded.registry
  let plan := languageBatch options loaded
  loadTexts options.paint (unloadedLanguages env loaded) ++ (missingTexts chosen.missing ++
    plan.complaints options.paint (plan.tried options.failFast chosen.languages))

/-- The problems of the styles stage: the files that could not be loaded, and the styles that cannot
be compiled. -/
def styleProblems (config : Config) (options : BatchOptions) (loaded : Style.Loaded) : List Text :=
  loadTexts options.paint (unloadedStyles loaded) ++
    Batch.stylePlan.complaints options.paint
      (Batch.stylePlan.tried options.failFast (selectStyles config loaded.styles))

/-- The languages stage tells its problems and counts them. -/
theorem reports_languagesStage {loaded : Registry.Loaded}
    (counted : (languagesStage env config options loaded).problems = .ok problems) :
    Reports (languagesStage env config options loaded).messages
        (languageProblems env config options loaded) ∧
      problems = (languageProblems env config options loaded).length := by
  unfold languagesStage at counted ⊢
  unfold languageProblems
  obtain ⟨batch, done, rfl⟩ := except_map_eq_ok_iff.1 counted
  dsimp only at done ⊢
  refine ⟨(reports_loadNotes _ _).append ((reports_missingNotes _).append
    ((Plan.reports_log done).append_silent ?_)), ?_⟩
  · rw [done]
    exact .silent fun message told => by rw [List.mem_singleton.1 told]; rfl
  · rw [List.length_append, List.length_append, Plan.length_complaints done, loadTexts, missingTexts,
      unloadedLanguages, List.length_map, List.length_map, List.length_map, Nat.add_assoc]

/-- The styles stage tells its problems and counts them. -/
theorem reports_stylesStage {loaded : Style.Loaded}
    (counted : (stylesStage config options loaded).problems = .ok problems) :
    Reports (stylesStage config options loaded).messages (styleProblems config options loaded) ∧
      problems = (styleProblems config options loaded).length := by
  unfold stylesStage at counted ⊢
  unfold styleProblems
  obtain ⟨batch, done, rfl⟩ := except_map_eq_ok_iff.1 counted
  dsimp only at done ⊢
  refine ⟨(reports_loadNotes _ _).append ((Plan.reports_log done).append_silent ?_), ?_⟩
  · rw [done, Except.toOption, Option.elim_some, styleNotes]
    split
    · exact .silent (List.forall_mem_nil _)
    · exact .silent fun message told => by rw [List.mem_singleton.1 told]; rfl
  · rw [List.length_append, Plan.length_complaints done, loadTexts, unloadedStyles, List.length_map,
      List.length_map]

/-- The problems of a run that works on its catalogue. -/
def Found.complaints (env : Environment) (config : Config) (options : BatchOptions) (found : Found) :
    List Text :=
  languageProblems env config options found.languages ++
    found.styles.elim [] (styleProblems config options)

theorem Found.reports_messages {found : Found}
    (counted : found.problems env config options = .ok problems) :
    Reports (found.messages env config options) (found.complaints env config options) ∧
      problems = (found.complaints env config options).length := by
  have above : Reports (heading env config options) [] := .silent fun message told => by
    obtain rfl | rfl := List.mem_pair.1 told <;> rfl
  obtain ⟨count, first, second⟩ := except_bind_eq_ok_iff.1 counted
  obtain ⟨told, rfl⟩ := reports_languagesStage first
  unfold Found.messages Found.complaints
  cases styles : found.styles with
  | none =>
    rw [styles] at second
    cases second
    rw [Option.elim_none, Option.elim_none, List.append_nil, List.append_nil]
    exact ⟨above.append told, rfl⟩
  | some loaded =>
    rw [styles] at second
    obtain ⟨more, third, rfl⟩ := except_map_eq_ok_iff.1 second
    obtain ⟨told', rfl⟩ := reports_stylesStage third
    exact ⟨above.append (told.append told'), List.length_append.symm⟩

/-- The problems of a run, in the order in which it meets them. -/
inductive Problems (env : Environment) (arguments : List Text) (tree : FileTree) :
    List Text → Prop where
  | usage {e : UsageError} (refused : Options.ofArguments arguments = .error e) :
    Problems env arguments tree [e.message ++ " (see --help)"]
  | help {options : Options} (accepted : Options.ofArguments arguments = .ok options)
    (asked : options.help = true) : Problems env arguments tree []
  | config {options : Options} {e : ConfigError} (accepted : Options.ofArguments arguments = .ok options)
    (works : options.help = false) (refused : settings env options tree = .error e) :
    Problems env arguments tree [Failure.render ⟨options.color && env.terminal⟩ (.config e)]
  | listing {options : Options} {made : Settings} (accepted : Options.ofArguments arguments = .ok options)
    (works : options.help = false) (configured : settings env options tree = .ok made)
    (asked : options.listConfig = true) : Problems env arguments tree []
  /-- The catalogue is worked on, and the rest depends on what is found there. -/
  | catalogue {options : Options} {made : Settings} {found : Found}
    (accepted : Options.ofArguments arguments = .ok options)
    (works : options.help = false ∧ options.listConfig = false)
    (configured : settings env options tree = .ok made)
    (finds : Finds env (.ofSettings made) options.noStyles
      (batchOptions env (.ofSettings made) ⟨options.color && env.terminal⟩) tree found) :
    Problems env arguments tree (found.complaints env (.ofSettings made)
      (batchOptions env (.ofSettings made) ⟨options.color && env.terminal⟩))

/-- The logger of a run. Arguments that are refused turn no colours on. -/
def loggerOf (env : Environment) (arguments : List Text) : Logger :=
  match Options.ofArguments arguments with
  | .error _ => ⟨.plain, false⟩
  | .ok options => ⟨⟨options.color && env.terminal⟩, options.verbose⟩

theorem refused_tells (logger : Logger) (text : Text) (tree : FileTree) :
    (refused logger text tree).lines.filter (·.1 = .errors) =
      [text].map fun text => (.errors, logger.line ⟨.error, text⟩) :=
  (Reports.ofErrors [text]).lines logger

/-- The lines on the error stream and the exit code of a run that returns. -/
theorem exists_problems {code : Nat} (returns : (run env arguments tree).result = .ok code) :
    ∃ problems, Problems env arguments tree problems ∧
      (run env arguments tree).lines.filter (·.1 = .errors) =
        problems.map (fun text => (.errors, (loggerOf env arguments).line ⟨.error, text⟩)) ∧
      code = codeOf problems.length := by
  unfold run at returns ⊢
  unfold loggerOf
  cases accepted : Options.ofArguments arguments with
  | error e =>
    rw [accepted] at returns
    cases returns
    exact ⟨_, .usage accepted, refused_tells .., rfl⟩
  | ok options =>
    rw [accepted] at returns
    dsimp only at returns ⊢
    cases help : options.help with
    | true =>
      rw [runWith_of_help help] at returns ⊢
      cases returns
      exact ⟨[], .help accepted help, rfl, rfl⟩
    | false =>
      cases configured : settings env options tree with
      | error e =>
        rw [runWith_of_refused help configured] at returns ⊢
        cases returns
        exact ⟨_, .config accepted help configured, refused_tells .., rfl⟩
      | ok made =>
        cases listing : options.listConfig with
        | true =>
          rw [runWith_of_listing help configured listing] at returns ⊢
          cases returns
          exact ⟨[], .listing accepted help configured listing, rfl, rfl⟩
        | false =>
          rcases ran : runWith env options tree with ⟨result, printed, lines, after⟩
          rw [ran] at returns
          cases returns
          obtain ⟨found, count, finds, -, counted, rfl, -, rfl⟩ :=
            (runWith_eq_iff help configured listing).1 ran
          obtain ⟨reports, rfl⟩ := found.reports_messages counted
          exact ⟨_, .catalogue accepted ⟨help, listing⟩ configured finds, reports.lines _, rfl⟩

/-- Every problem of a run that returns has a line of its own on the error stream, nothing else is
told there, and the exit code is 1 if there is such a line and 0 if there is none. -/
theorem run_tells_problems {code : Nat} (returns : (run env arguments tree).result = .ok code) :
    (∃ problems, Problems env arguments tree problems ∧
      (run env arguments tree).lines.filter (·.1 = .errors) =
        problems.map (fun text => (.errors, (loggerOf env arguments).line ⟨.error, text⟩)) ∧
      code = if problems = [] then 0 else 1) ∧
    (code = 1 ↔ ∃ line ∈ (run env arguments tree).lines, line.1 = .errors) ∧
    (code = 0 ↔ ∀ line ∈ (run env arguments tree).lines, line.1 = .output) := by
  obtain ⟨problems, are, told, coded⟩ := exists_problems returns
  have coded : code = if problems = [] then 0 else 1 := by
    rw [coded, codeOf]
    exact if_congr List.length_eq_zero_iff rfl rfl
  have quiet : problems = [] ↔ ∀ line ∈ (run env arguments tree).lines, line.1 = .output := by
    rw [← List.map_eq_nil_iff, ← told, List.filter_eq_nil_iff]
    refine forall₂_congr fun line _ => ?_
    cases line.1 <;> decide
  have loud : ¬problems = [] ↔ ∃ line ∈ (run env arguments tree).lines, line.1 = .errors := by
    rw [quiet, not_forall]
    refine exists_congr fun line => ?_
    cases line.1 <;> simp
  refine ⟨⟨problems, are, told, coded⟩, ?_, ?_⟩
  · rw [← loud, coded]
    by_cases none : problems = []
    · rw [if_pos none]
      exact ⟨nofun, absurd none⟩
    · rw [if_neg none]
      exact ⟨fun _ => none, fun _ => rfl⟩
  · rw [← quiet, coded]
    by_cases none : problems = []
    · rw [if_pos none]
      exact ⟨fun _ => none, fun _ => rfl⟩
    · rw [if_neg none]
      exact ⟨nofun, fun empty => absurd empty none⟩

/-- A catalogue with a language file that is no document. -/
def spoiltTree : FileTree :=
  ⟨[(["work"], .directory), (["work", "catalogue"], .directory),
    (["work", "catalogue", "spoilt.lexer.json"], .file "?")]⟩

/-- The file that cannot be loaded and the name that nothing answers to have a line each. -/
theorem run_tells_problems_spoilt :
    (run ⟨"/work", false⟩ ["--lang", "tiny"] spoiltTree).result = .ok 1 ∧
      (run ⟨"/work", false⟩ ["--lang", "tiny"] spoiltTree).lines.length = 3 ∧
      (run ⟨"/work", false⟩ ["--lang", "tiny"] spoiltTree).lines.countP (·.1 = .errors) = 2 ∧
      ∃ line ∈ (run ⟨"/work", false⟩ ["--lang", "tiny"] spoiltTree).lines, line.1 = .errors := by
  have returns : (run ⟨"/work", false⟩ ["--lang", "tiny"] spoiltTree).result = .ok 1 :=
    eq_ok_of_toOption (by decide +kernel)
  exact ⟨returns, by decide +kernel, by decide +kernel, (run_tells_problems returns).2.1.1 rfl⟩

end Command

end Highlight
