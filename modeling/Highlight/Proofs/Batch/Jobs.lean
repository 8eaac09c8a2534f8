import Highlight.Batch
import Highlight.Proofs.Files.Changes

/-!
# What a batch does

A job makes a row of changes, tells some messages and gives a result; where the files do not allow a
change, it ends there (`Job.Does`). Jobs that follow each other do so one behind the other. A batch
comes to its items up to the first one that ends it (`Plan.tried`). It writes what is made of these,
tells of each of them and accounts for them one by one (`Batch.does_runFrom`), and it does not look at
the rest (`Batch.runFrom_tried`). `Batch.does_run` is the whole run, from the directory to the lookup
table.
-/

namespace Highlight

open FileTree (Change)

namespace Job

variable {α β : Type}

theorem run_bind (job : Job α) (next : α → Job β) (place : Workplace) :
    (job >>= next).run.run place = match job.run.run place with
      | (.ok a, place) => (next a).run.run place
      | (.error e, place) => (.error e, place) := by
  change (ExceptT.bindCont next (job.run.run place).1).run (job.run.run place).2 = _
  rcases job.run.run place with ⟨a | a, after⟩ <;> rfl

theorem run_reading (read : FileTree → Except FileError α) (place : Workplace) :
    (reading read).run.run place = match read place.tree with
      | .ok a => (.ok a, place)
      | .error e => (.error (.file e), place) := by
  have got : (get : Job Workplace).run.run place = (.ok place, place) := rfl
  unfold reading
  rw [run_bind, got]
  dsimp only
  cases read place.tree <;> rfl

theorem run_changing (change : FileTree → Except FileError FileTree) (place : Workplace) :
    (changing change).run.run place = match change place.tree with
      | .ok tree => (.ok ⟨⟩, { place with tree })
      | .error e => (.error (.file e), place) := by
  unfold changing
  rw [run_bind, run_reading]
  cases change place.tree <;> rfl

/-- Jobs that follow each other get through if both of them do. -/
theorem run_bind_eq_ok_iff {job : Job α} {next : α → Job β} {place last : Workplace} {b : β} :
    (job >>= next).run.run place = (.ok b, last) ↔
      ∃ a between, job.run.run place = (.ok a, between) ∧
        (next a).run.run between = (.ok b, last) := by
  rw [run_bind]
  constructor
  · intro ran
    rcases first : job.run.run place with ⟨e | a, between⟩ <;> rw [first] at ran
    · cases ran
    · exact ⟨a, between, rfl, ran⟩
  · rintro ⟨a, between, first, rest⟩
    rw [first]
    exact rest

theorem run_reading_eq_ok_iff {read : FileTree → Except FileError α} {place last : Workplace}
    {a : α} : (reading read).run.run place = (.ok a, last) ↔
      read place.tree = .ok a ∧ place = last := by
  rw [run_reading]
  cases read place.tree with
  | error e => exact ⟨nofun, nofun⟩
  | ok b =>
    constructor
    · intro same
      cases same
      exact ⟨rfl, rfl⟩
    · rintro ⟨same, rfl⟩
      cases same
      rfl

/-- What a job does: the changes that it makes, the messages that it tells and the result that it
gives, whatever the files are. -/
structure Does (job : Job α) (changes : List Change) (messages : List Message)
    (result : Except Failure α) : Prop where
  /-- Where the files allow all of the changes, they are made. -/
  allowed : ∀ place tree, place.tree.applyAll changes = .ok tree →
    job.run.run place = (result, ⟨tree, place.messages ++ messages⟩)
  /-- Where they do not, the job ends with their error, and the changes before it stay. -/
  refused : ∀ place e, place.tree.applyAll changes = .error e →
    (job.run.run place).1 = .error (.file e) ∧
      ∃ made, made <+: changes ∧ place.tree.applyAll made = .ok (job.run.run place).2.tree

namespace Does

variable {job : Job α} {next : α → Job β} {changes more : List Change}
  {messages others : List Message} {a : α} {result : Except Failure β} {failure : Failure}

/-- A job gets through if its result is none of failure and the files allow its changes. -/
theorem run_eq_ok_iff {result : Except Failure α} (does : Does job changes messages result)
    {place last : Workplace} : job.run.run place = (.ok a, last) ↔ result = .ok a ∧
      ∃ tree, place.tree.applyAll changes = .ok tree ∧
        last = ⟨tree, place.messages ++ messages⟩ := by
  cases made : place.tree.applyAll changes with
  | error e =>
    refine ⟨fun ran => ?_, fun ⟨_, tree, made, _⟩ => nomatch made⟩
    have gives := (does.refused place e made).1
    rw [ran] at gives
    cases gives
  | ok tree =>
    rw [does.allowed place tree made, Prod.mk.injEq]
    constructor
    · rintro ⟨gives, rfl⟩
      exact ⟨gives, tree, rfl, rfl⟩
    · rintro ⟨gives, other, same, rfl⟩
      cases same
      exact ⟨gives, rfl⟩

/-- A job that changes nothing. -/
theorem of_run {result : Except Failure α}
    (ran : ∀ place, job.run.run place = (result, ⟨place.tree, place.messages ++ messages⟩)) :
    Does job [] messages result where
  allowed place tree made := by
    cases made
    exact ran place
  refused place e failed := by cases failed

protected theorem pure (a : α) : Does (pure a) [] [] (.ok a) :=
  of_run fun place => by rw [List.append_nil]; rfl

protected theorem throw (failure : Failure) :
    Does (throw failure : Job α) [] [] (.error failure) :=
  of_run fun place => by rw [List.append_nil]; rfl

theorem tell (level : Level) (text : Text) :
    Does (Job.tell level text) [] [⟨level, text⟩] (.ok ⟨⟩) := of_run fun _ => rfl

/-- A single change. -/
theorem changing (change : Change) : Does (Job.changing change.apply) [change] [] (.ok ⟨⟩) where
  allowed place tree made := by
    rw [FileTree.applyAll_singleton] at made
    rw [run_changing, made, List.append_nil]
  refused place e failed := by
    rw [FileTree.applyAll_singleton] at failed
    rw [run_changing, failed]
    exact ⟨rfl, [], List.nil_prefix, rfl⟩

theorem write (path text : Text) : Does (Job.write path text) [.file path text] [] (.ok ⟨⟩) :=
  changing (.file path text)

theorem makeDirectory (path : Text) :
    Does (Job.makeDirectory path) [.directory path] [] (.ok ⟨⟩) :=
  changing (.directory path)

/-- Jobs that follow each other make their changes and tell their messages one behind the other. -/
theorem bind (first : Does job changes messages (.ok a)) (rest : Does (next a) more others result) :
    Does (job >>= next) (changes ++ more) (messages ++ others) result where
  allowed place tree made := by
    rw [FileTree.applyAll_append] at made
    obtain ⟨between, early, late⟩ := except_bind_eq_ok_iff.1 made
    rw [run_bind, first.allowed place between early, ← List.append_assoc]
    exact rest.allowed ⟨between, place.messages ++ messages⟩ tree late
  refused place e failed := by
    rw [FileTree.applyAll_append] at failed
    rw [run_bind]
    obtain early | ⟨between, early, late⟩ := except_bind_eq_error_iff.1 failed
    · obtain ⟨gives, made, front, reached⟩ := first.refused place e early
      rcases ran : job.run.run place with ⟨_ | _, after⟩ <;> rw [ran] at gives reached <;>
        cases gives
      exact ⟨rfl, made, front.trans (List.prefix_append _ _), reached⟩
    · rw [first.allowed place between early]
      obtain ⟨gives, made, front, reached⟩ :=
        rest.refused ⟨between, place.messages ++ messages⟩ e late
      refine ⟨gives, changes ++ made, (List.prefix_append_right_inj _).2 front, ?_⟩
      rw [FileTree.applyAll_append, early]
      exact reached

/-- What comes behind a failure is not done. -/
theorem failing (first : Does job changes messages (.error failure)) :
    Does (job >>= next) changes messages (.error failure) where
  allowed place tree made := by
    rw [run_bind, first.allowed place tree made]
  refused place e failed := by
    rw [run_bind]
    obtain ⟨gives, early⟩ := first.refused place e failed
    rcases ran : job.run.run place with ⟨_ | _, after⟩ <;> rw [ran] at gives early <;> cases gives
    exact ⟨rfl, early⟩

/-- Work that comes before the rest of a job and changes nothing. -/
theorem after (first : Does job [] messages (.ok a)) (rest : Does (next a) more others result) :
    Does (job >>= next) more (messages ++ others) result := first.bind rest

/-- A job that ends with a part that changes nothing and tells nothing. -/
theorem ending (first : Does job changes messages (.ok a)) (rest : Does (next a) [] [] result) :
    Does (job >>= next) changes messages result := by
  have whole := first.bind rest
  rwa [List.append_nil, List.append_nil] at whole

end Does

end Job

/-- The texts that a product writes, and where. -/
def Product.writes (directory : Text) (product : Product) : List (Text × Text) :=
  product.files.map fun file => (Path.join directory file.1, file.2)

/-- What the log says of the files of a product. -/
def Product.notes (directory : Text) (product : Product) : List Message :=
  product.files.flatMap fun file => product.remark.toList.map fun remark =>
    ⟨.debug, "Wrote " ++ Path.join directory file.1 ++ remark⟩

namespace Plan

variable {α ε : Type} (plan : Plan α ε)

/-- The item fails, and a batch ends with it. -/
def ends (failFast : Bool) (item : α) : Bool :=
  match plan.make item with
  | .ok _ => false
  | .error e => failFast || plan.isFatal e

/-- The items that a batch comes to: all up to the first one that ends it. -/
def tried (failFast : Bool) (items : List α) : List α :=
  items.takeWhile (!plan.ends failFast ·) ++ (items.dropWhile (!plan.ends failFast ·)).take 1

/-- What is made of the items that succeed. -/
def products (items : List α) : List Product := items.filterMap fun item => (plan.make item).toOption

/-- The items that fail, and why. -/
def failures (items : List α) : List (Text × ε) :=
  items.filterMap fun item => (failure? (plan.make item)).map (plan.name item, ·)

/-- The failure that leaves nothing to go on with. -/
def breakdown? (items : List α) : Option ε :=
  items.findSome? fun item => (failure? (plan.make item)).filter plan.isFatal

/-- The texts that the items write, and where. -/
def writes (directory : Text) (items : List α) : List (Text × Text) :=
  (plan.products items).flatMap (·.writes directory)

/-- What the log says of an item. -/
def told (options : BatchOptions) (item : α) : List Message :=
  ⟨.info, "Generating " ++ plan.title ++ " " ++ plan.name item⟩ ::
    match plan.make item with
    | .ok product => product.notes options.outDir
    | .error e =>
      if plan.isFatal e then [] else [⟨.error, (plan.failure e).render options.paint⟩]

/-- What a batch has done when it went on through some items. -/
def account (directory : Text) (done : Batch ε) (items : List α) : Except Failure (Batch ε) :=
  match plan.breakdown? items with
  | some e => .error (plan.failure e)
  | none => .ok ⟨done.written ++ (plan.writes directory items).map Prod.fst,
      done.failures ++ plan.failures items,
      (plan.products items).foldl (fun table product => product.enter table) done.table⟩

variable {plan} {item : α} {items : List α} {product : Product} {e : ε} {directory : Text}

theorem tried_cons (failFast : Bool) (item : α) (items : List α) :
    plan.tried failFast (item :: items) =
      if plan.ends failFast item then [item] else item :: plan.tried failFast items := by
  unfold tried
  rw [List.takeWhile_cons, List.dropWhile_cons]
  cases plan.ends failFast item <;> rfl

theorem mem_of_mem_tried {failFast : Bool} (tried : item ∈ plan.tried failFast items) :
    item ∈ items := by
  obtain before | last := List.mem_append.1 tried
  · exact (List.takeWhile_prefix _).subset before
  · exact (List.dropWhile_suffix _).subset (List.mem_of_mem_take last)

theorem ends_of_ok (made : plan.make item = .ok product) (failFast : Bool) :
    plan.ends failFast item = false := by
  rw [ends, made]

theorem ends_of_error (made : plan.make item = .error e) (failFast : Bool) :
    plan.ends failFast item = (failFast || plan.isFatal e) := by
  rw [ends, made]

/-- A batch that goes on comes to all items, unless one of them leaves nothing to go on with. -/
theorem tried_eq_self (sound : plan.breakdown? (plan.tried false items) = none) :
    plan.tried false items = items := by
  induction items with
  | nil => rfl
  | cons item items ih =>
    rw [tried_cons] at sound ⊢
    cases ends : plan.ends false item with
    | true =>
      rw [ends, if_pos rfl] at sound
      cases made : plan.make item with
      | ok product => exact absurd ((ends_of_ok made false).symm.trans ends) nofun
      | error e =>
        rw [ends_of_error made, Bool.false_or] at ends
        simp [breakdown?, made, failure?, Option.filter, ends] at sound
    | false =>
      rw [ends, if_neg nofun] at sound
      rw [if_neg nofun, ih]
      unfold breakdown? at sound ⊢
      rw [List.findSome?_cons] at sound
      split at sound
      · cases sound
      · exact sound

theorem writes_of_ok (made : plan.make item = .ok product) :
    plan.writes directory (item :: items) =
      product.writes directory ++ plan.writes directory items := by
  unfold writes products
  rw [List.filterMap_cons, made]
  rfl

theorem writes_of_error (made : plan.make item = .error e) :
    plan.writes directory (item :: items) = plan.writes directory items := by
  unfold writes products
  rw [List.filterMap_cons, made]
  rfl

theorem account_nil (done : Batch ε) : plan.account directory done [] = .ok done := by
  obtain ⟨written, failures, table⟩ := done
  simp [account, breakdown?, Plan.failures, writes, products]

theorem account_of_ok (made : plan.make item = .ok product) (done : Batch ε) :
    plan.account directory done (item :: items) =
      plan.account directory { done with
        written := done.written ++ (product.writes directory).map Prod.fst
        table := product.enter done.table } items := by
  unfold account
  rw [writes_of_ok made]
  simp [breakdown?, Plan.failures, products, made, failure?, Except.toOption]

theorem account_of_error (made : plan.make item = .error e) (goes : plan.isFatal e = false)
    (done : Batch ε) :
    plan.account directory done (item :: items) =
      plan.account directory { done with
        failures := done.failures ++ [(plan.name item, e)] } items := by
  unfold account
  rw [writes_of_error made]
  simp [breakdown?, Plan.failures, products, made, failure?, Except.toOption, Option.filter, goes]

theorem account_of_fatal (made : plan.make item = .error e) (fatal : plan.isFatal e = true)
    (done : Batch ε) : plan.account directory done (item :: items) = .error (plan.failure e) := by
  unfold account breakdown?
  rw [List.findSome?_cons, made]
  simp [failure?, Option.filter, fatal]

end Plan

namespace Batch

open Job

variable {α ε : Type} {plan : Plan α ε} {options : BatchOptions}

/-- Writes one file of a product and gives its path. -/
def deliverFile (directory : Text) (product : Product) (file : Text × Text) : Job Text := do
  let path := Path.join directory file.1
  Job.write path file.2
  match product.remark with
  | some remark => Job.tell .debug ("Wrote " ++ path ++ remark)
  | none => pure ()
  pure path

theorem deliver_eq (directory : Text) (product : Product) :
    deliver directory product = product.files.mapM (deliverFile directory product) := rfl

theorem does_deliver (directory : Text) (product : Product) :
    Does (deliver directory product) ((product.writes directory).map .ofWrite)
      (product.notes directory) (.ok ((product.writes directory).map Prod.fst)) := by
  have one (file : Text × Text) : Does (deliverFile directory product file)
      [.file (Path.join directory file.1) file.2]
      (product.remark.toList.map fun remark =>
        ⟨.debug, "Wrote " ++ Path.join directory file.1 ++ remark⟩)
      (.ok (Path.join directory file.1)) := by
    refine (Does.write _ _).bind ?_
    cases product.remark with
    | none => exact .pure _
    | some remark => exact (Does.tell _ _).ending (.pure _)
  rw [deliver_eq]
  unfold Product.writes Product.notes
  induction product.files with
  | nil => exact .pure []
  | cons file files ih =>
    rw [List.mapM_cons, List.flatMap_cons]
    exact (one file).bind (ih.ending (.pure _))

/-- What a batch does with the items that are left. -/
theorem does_runFrom (plan : Plan α ε) (options : BatchOptions) (done : Batch ε)
    (items : List α) : Does (runFrom plan options done items)
      ((plan.writes options.outDir (plan.tried options.failFast items)).map .ofWrite)
      ((plan.tried options.failFast items).flatMap (plan.told options))
      (plan.account options.outDir done (plan.tried options.failFast items)) := by
  induction items generalizing done with
  | nil =>
    rw [show plan.tried options.failFast [] = [] from rfl, Plan.account_nil]
    exact .pure _
  | cons item items ih =>
    rw [runFrom, Plan.tried_cons]
    cases made : plan.make item with
    | ok product =>
      rw [Plan.ends_of_ok made, if_neg nofun, Plan.writes_of_ok made, Plan.account_of_ok made,
        List.flatMap_cons, Plan.told, made, List.map_append]
      exact (Does.tell _ _).after ((does_deliver _ _).bind (ih _))
    | error e =>
      rw [Plan.ends_of_error made]
      dsimp only
      by_cases fatal : plan.isFatal e = true
      · rw [if_pos fatal, fatal, Bool.or_true, if_pos rfl, Plan.writes_of_error made,
          Plan.account_of_fatal made fatal, List.flatMap_singleton, Plan.told, made]
        dsimp only
        rw [if_pos fatal]
        exact (Does.tell _ _).after (.throw _)
      · rw [if_neg fatal]
        rw [Bool.not_eq_true] at fatal
        rw [fatal, Bool.or_false]
        cases fast : options.failFast with
        | true =>
          rw [if_pos rfl, if_pos rfl, Plan.writes_of_error made, Plan.account_of_error made fatal,
            Plan.account_nil, List.flatMap_singleton, Plan.told, made]
          dsimp only
          rw [fatal, if_neg nofun]
          exact (Does.tell _ _).after ((Does.tell _ _).after (.pure _))
        | false =>
          rw [fast] at ih
          rw [if_neg nofun, if_neg nofun, Plan.writes_of_error made,
            Plan.account_of_error made fatal, List.flatMap_cons, Plan.told, made]
          dsimp only
          rw [fatal, if_neg nofun]
          exact (Does.tell _ _).after ((Does.tell _ _).after (ih _))

/-- The items behind the one that ends a batch are not looked at. -/
theorem runFrom_tried (plan : Plan α ε) (options : BatchOptions) (done : Batch ε) (items : List α) :
    runFrom plan options done (plan.tried options.failFast items) =
      runFrom plan options done items := by
  induction items generalizing done with
  | nil => rfl
  | cons item items ih =>
    rw [Plan.tried_cons]
    cases made : plan.make item with
    | ok product => simp only [Plan.ends_of_ok made, Bool.false_eq_true, if_false, runFrom, made, ih]
    | error e =>
      rw [Plan.ends_of_error made]
      cases fatal : plan.isFatal e <;> cases fast : options.failFast <;>
        simp [runFrom, made, fatal, fast, ← ih]

/-- The text of the lookup table, and where it is written. -/
def tableWrites (directory file : Text) (table : LookupTable) : List (Text × Text) :=
  if table.isEmpty then [] else [(Path.join directory file, table.render)]

/-- What the log says of the lookup table. -/
def tableNotes (directory file : Text) (table : LookupTable) : List Message :=
  if table.isEmpty then [] else [⟨.debug, "Wrote " ++ Path.join directory file⟩]

theorem does_writeTable (directory file : Text) (table : LookupTable) :
    Does (writeTable directory file table) ((tableWrites directory file table).map .ofWrite)
      (tableNotes directory file table)
      (.ok (if table.isEmpty then none else some (Path.join directory file))) := by
  unfold writeTable tableWrites tableNotes
  by_cases empty : table.isEmpty = true
  · simp only [if_pos empty]
    exact .pure _
  · simp only [if_neg empty]
    exact (Does.write _ _).bind ((Does.tell _ _).ending (.pure _))

end Batch

namespace Plan

variable {α ε : Type} (plan : Plan α ε) (options : BatchOptions) (items : List α)

/-- What the items that a batch comes to are accounted for. -/
def accounted : Except Failure (Batch ε) :=
  plan.account options.outDir Batch.empty (plan.tried options.failFast items)

/-- The changes of a whole batch. -/
def changes : List Change :=
  .directory options.outDir ::
    ((plan.writes options.outDir (plan.tried options.failFast items)).map Change.ofWrite ++
      match plan.accounted options items with
      | .error _ => []
      | .ok done =>
        (Batch.tableWrites options.outDir plan.tableFile done.table).map Change.ofWrite)

/-- A change of a batch makes its directory, or it writes a file of an item or the lookup table. -/
theorem changes_cases {plan : Plan α ε} {options : BatchOptions} {items : List α} {change : Change}
    (listed : change ∈ plan.changes options items) :
    change = .directory options.outDir ∨
      ∃ name text, change = .file (Path.join options.outDir name) text ∧
        (name = plan.tableFile ∨
          ∃ item ∈ items, ∃ product, plan.make item = .ok product ∧ (name, text) ∈ product.files) := by
  obtain directory | listed := List.mem_cons.1 listed
  · exact .inl directory
  refine .inr ?_
  obtain files | table := List.mem_append.1 listed
  · obtain ⟨_, written, rfl⟩ := List.mem_map.1 files
    obtain ⟨product, made, held⟩ := List.mem_flatMap.1 written
    obtain ⟨item, tried, makes⟩ := List.mem_filterMap.1 made
    obtain ⟨file, own, rfl⟩ := List.mem_map.1 held
    exact ⟨file.1, file.2, rfl,
      .inr ⟨item, mem_of_mem_tried tried, product, eq_ok_of_toOption makes, own⟩⟩
  · split at table
    · cases table
    · obtain ⟨_, written, rfl⟩ := List.mem_map.1 table
      unfold Batch.tableWrites at written
      split at written
      · cases written
      · rw [List.mem_singleton.1 written]
        exact ⟨_, _, rfl, .inl rfl⟩

/-- The log of a whole batch. -/
def log : List Message :=
  (plan.tried options.failFast items).flatMap (plan.told options) ++
    match plan.accounted options items with
    | .error _ => []
    | .ok done => Batch.tableNotes options.outDir plan.tableFile done.table

/-- What a whole batch comes to. -/
def outcome : Except Failure (Batch ε × Option Text) :=
  (plan.accounted options items).map fun done =>
    (done, if done.table.isEmpty then none
      else some (Path.join options.outDir plan.tableFile))

end Plan

namespace Batch

open Job

variable {α ε : Type}

/-- A batch makes its directory, does what its items are accounted for, and writes their lookup
table. -/
theorem does_run (plan : Plan α ε) (options : BatchOptions) (items : List α) :
    Does (run plan options items) (plan.changes options items) (plan.log options items)
      (plan.outcome options items) := by
  have goes := does_runFrom plan options empty items
  unfold run Plan.changes Plan.log Plan.outcome
  refine (Does.makeDirectory options.outDir).bind ?_
  change Does _ _ _ (.map _ (plan.account options.outDir empty (plan.tried options.failFast items)))
  unfold Plan.accounted
  cases done : plan.account options.outDir empty (plan.tried options.failFast items) with
  | error failure =>
    rw [done] at goes
    simp only [List.append_eq, List.append_nil]
    exact goes.failing
  | ok batch =>
    rw [done] at goes
    exact goes.bind ((does_writeTable _ _ _).ending (.pure _))

/-- Unless the files do not allow it, a batch makes its directory, does what its items are accounted
for, and writes their lookup table. -/
theorem run_cases (plan : Plan α ε) (options : BatchOptions) (items : List α) (place : Workplace) :
    (∃ e, ((run plan options items).run.run place).1 = .error (.file e)) ∨
      ∃ base, place.tree.makeDirectory options.outDir = .ok base ∧
        match plan.account options.outDir empty (plan.tried options.failFast items) with
        | .error failure => ((run plan options items).run.run place).1 = .error failure ∧
          base.writeAll (plan.writes options.outDir (plan.tried options.failFast items)) =
            .ok ((run plan options items).run.run place).2.tree
        | .ok done => ((run plan options items).run.run place).1 =
            .ok (done, if done.table.isEmpty then none
              else some (Path.join options.outDir plan.tableFile)) ∧
          base.writeAll (plan.writes options.outDir (plan.tried options.failFast items) ++
              tableWrites options.outDir plan.tableFile done.table) =
            .ok ((run plan options items).run.run place).2.tree := by
  have goes := does_run plan options items
  cases changed : place.tree.applyAll (plan.changes options items) with
  | error e => exact .inl ⟨e, (goes.refused place e changed).1⟩
  | ok tree =>
    rw [goes.allowed place tree changed]
    unfold Plan.changes at changed
    unfold Plan.outcome
    unfold Plan.accounted at changed ⊢
    obtain ⟨base, made, wrote⟩ := except_bind_eq_ok_iff.1 changed
    refine .inr ⟨base, made, ?_⟩
    cases done : plan.account options.outDir empty (plan.tried options.failFast items) with
    | error failure =>
      rw [done, List.append_nil] at wrote
      exact ⟨rfl, (FileTree.applyAll_writes _ _).symm.trans wrote⟩
    | ok batch =>
      rw [done, ← List.map_append] at wrote
      exact ⟨rfl, (FileTree.applyAll_writes _ _).symm.trans wrote⟩

end Batch

end Highlight
