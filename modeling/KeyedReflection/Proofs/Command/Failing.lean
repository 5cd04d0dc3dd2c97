import KeyedReflection.Proofs.Command.Reading

/-!
# Commands that fail

A command that checks changes no file.  A job that writes renders both of its units first, which only reads;
so when the command fails before the first write, the files are as they were, and when it fails later, then
because something could not be written.  The two kinds of failures are told apart by the activities in whose
course they arose (`FailsAs`).

A manifest's jobs run one after another.  When one of them fails, the jobs in front of it have run, and what
they wrote is all that was written (`failing_command_keeps_files`).
-/

namespace KeyedReflection

variable {α β : Type}

/-! ## Failures of writing -/

/-- Of the failures of an action either all are of writing or none is. -/
def FailsAs (writing : Bool) (action : Action (StateM Workspace) α) : Prop :=
  ∀ w failure, (action.run.run w).1 = .error failure → failure.isOfWriting = writing

namespace FailsAs

variable {writing : Bool}

theorem pure (a : α) : FailsAs writing (Pure.pure a) :=
  fun _ _ failed => nomatch failed

theorem bind {action : Action (StateM Workspace) α} {next : α → Action (StateM Workspace) β}
    (first : FailsAs writing action) (further : ∀ a, FailsAs writing (next a)) :
    FailsAs writing (action >>= next) := by
  intro w failure failed
  rcases Action.bind_error_cases (Prod.ext failed rfl) with early | ⟨a, mid, _, late⟩
  · exact first w failure (by rw [early])
  · exact further a mid failure (by rw [late])

theorem lift (operation : StateM Workspace α) :
    FailsAs writing (ExceptT.lift operation : Action (StateM Workspace) α) :=
  fun _ _ failed => nomatch failed

/-- What does not depend on the machine fails before anything is written. -/
theorem ofCause (result : Except FailureCause α) : FailsAs false (Action.ofCause result) := by
  intro w failure failed
  change result.mapError _ = _ at failed
  cases result with
  | error cause =>
      cases failed
      rfl
  | ok a => cases failed

/-- A file operation fails in the course of its activity. -/
theorem ofFile {activity : Activity} (own : ∀ fault, (Failure.ofFile activity fault).isOfWriting = writing)
    (operation : StateM Workspace (Except FileFault α)) : FailsAs writing (Action.ofFile activity operation) := by
  intro w failure failed
  rw [Action.run_ofFile] at failed
  cases result : (operation.run w).1 with
  | error fault =>
      rw [result] at failed
      cases failed
      exact own fault
  | ok a =>
      rw [result] at failed
      cases failed

theorem within {activity : Activity} {action : Action (StateM Workspace) α}
    (kept : ∀ failure, (Failure.within activity failure).isOfWriting = failure.isOfWriting)
    (fails : FailsAs writing action) : FailsAs writing (Action.within activity action) := by
  intro w failure failed
  rw [Action.run_within] at failed
  cases result : (action.run.run w).1 with
  | error inner =>
      rw [result] at failed
      cases failed
      rw [kept, fails w inner result]
  | ok a =>
      rw [result] at failed
      cases failed

theorem forM {items : List α} {each : α → Action (StateM Workspace) Unit}
    (fails : ∀ item, FailsAs writing (each item)) : FailsAs writing (items.forM each) := by
  induction items with
  | nil => exact pure _
  | cons item items ih => exact bind (fails item) fun _ => ih

end FailsAs

variable (programs : String → Option Program)

/-- What fails in rendering is not of writing. -/
theorem failsAs_render (job : Job) : FailsAs false (job.render (Workspace.host programs)) := by
  have source (frontEnd : FrontEnd) (path : String) :
      FailsAs false (readSource (Workspace.host programs) frontEnd path) :=
    .within (fun _ => rfl) (.bind (.lift _) fun _ => .bind (.ofCause _) fun _ => .pure _)
  have schema (path : String) : FailsAs false (readSchema (Workspace.host programs) path) :=
    .within (fun _ => rfl) (.bind (.lift _) fun _ => .bind (.ofCause _) fun _ =>
      .bind (.ofCause _) fun _ => .pure _)
  have record : FailsAs false (job.readRecord (Workspace.host programs)) := by
    unfold Job.readRecord
    split
    · exact .bind (source _ _) fun _ => .bind (.ofCause _) fun _ => .pure _
    · exact .bind (schema _) fun _ => .bind (.ofCause _) fun _ => .pure _
    · exact .ofCause _
  have lines (input : String) : FailsAs false (job.bannerFor (Workspace.host programs) input) := by
    unfold Job.bannerFor
    split
    · exact .bind (.ofFile (fun _ => rfl) _) fun _ => .pure _
    · exact .pure _
  exact .bind (.ofCause _) fun _ => .bind record fun _ => .bind (lines _) fun _ =>
    .within (fun _ => rfl) (.ofCause _)

/-- What fails in writing is of writing. -/
theorem failsAs_writeOutput (path text : String) :
    FailsAs true (writeOutput (Workspace.host programs) path text) := by
  unfold writeOutput
  split
  · exact .bind (.pure _) fun _ => .ofFile (fun _ => rfl) _
  · exact .bind (.pure _) fun _ => .ofFile (fun _ => rfl) _
  · exact .bind (.ofFile (fun _ => rfl) _) fun _ => .ofFile (fun _ => rfl) _

theorem failsAs_load (path : String) : FailsAs false (Manifest.load (Workspace.host programs) path) := by
  refine .bind (.ofFile (fun _ => rfl) _) fun _ => .bind (.within (fun _ => rfl) (.ofCause _)) fun _ => ?_
  split
  · exact .pure _
  · exact .ofCause _

/-! ## Stages of a run -/

/-- The units that a job renders from some files. -/
def Job.unitsFrom (files : FileSystem) (job : Job) : Except Failure Cpp.Units :=
  answerFrom (job.render (Workspace.host programs)).run files

/-- The manifest that some files have at a path. -/
def Manifest.loadFrom (files : FileSystem) (path : String) : Except Failure Manifest :=
  answerFrom (load (Workspace.host programs) path).run files

/-- What comes of a command on a workspace. -/
def Command.outcome (command : Command) (w : Workspace) : Except Failure String × Workspace :=
  (command.run (Workspace.host programs)).run.run w

variable {programs : String → Option Program} {w w' : Workspace} {failure : Failure}

/-- A job that fails to be written either fails in rendering, and then the files are as they were, or it
renders its units and fails in writing them. -/
theorem Job.run_error_cases {job : Job}
    (failed : (job.run (Workspace.host programs) false).run.run w = (.error failure, w')) :
    (job.unitsFrom programs w.files = .error failure ∧ failure.isOfWriting = false ∧ w'.files = w.files) ∨
      ((∃ units, job.unitsFrom programs w.files = .ok units) ∧ failure.isOfWriting = true) := by
  have reads := IsReading.render programs job
  rcases Action.bind_error_cases failed with early | ⟨units, mid, rendered, late⟩
  · have first : ((job.render (Workspace.host programs)).run.run w).1 = .error failure := by rw [early]
    refine .inl ⟨(reads.run_fst w).symm.trans first, failsAs_render programs job w failure first, ?_⟩
    have quiet := reads.quiet w
    rwa [early] at quiet
  · have answer := reads.run_fst w
    rw [rendered] at answer
    have writes : FailsAs true ((job.outputs units).forM fun output =>
        writeOutput (Workspace.host programs) output.1 output.2) :=
      .forM fun _ => failsAs_writeOutput programs _ _
    exact .inr ⟨⟨units, answer.symm⟩, writes mid failure (congrArg Prod.fst late)⟩

/-- Loading a manifest leaves the workspace as it is. -/
theorem Manifest.run_load (path : String) (w : Workspace) :
    (load (Workspace.host programs) path).run.run w = (loadFrom programs w.files path, w) := by
  have text := Action.run_ofFile (.readingManifest path) ((Workspace.host programs).readText path) w
  refine Prod.ext ((IsReading.load programs path).ofOne.run_fst w) ?_
  rw [load]
  rcases read : (Action.ofFile (.readingManifest path) ((Workspace.host programs).readText path)).run.run w with
    ⟨failure | content, mid⟩
  all_goals
    rw [read] at text
    obtain rfl : mid = w := congrArg Prod.snd text
  · rw [Action.bind_of_error read]
  · rw [Action.bind_of_ok read]
    have decoded := Action.run_within (.decodingManifest path)
      (Action.ofCause ((parse content).mapError .document)) mid
    cases parsed : parse content with
    | error error =>
        rw [parsed] at decoded
        rw [Action.bind_of_error decoded]
        rfl
    | ok manifest =>
        rw [parsed] at decoded
        rw [Action.bind_of_ok decoded]
        split <;> rfl

/-- Jobs are numbered by their places. -/
theorem Manifest.numberedJobs_index {manifest : Manifest} {path : String} {front rest : List (Nat × Job)}
    {index : Nat} {job : Job} (jobs : manifest.numberedJobs path = front ++ (index, job) :: rest) :
    index = front.length := by
  have place : (manifest.numberedJobs path)[front.length]? = some (index, job) := by
    rw [jobs, List.getElem?_append_right (Nat.le_refl _), Nat.sub_self, List.getElem?_cons_zero]
  rw [numberedJobs, List.getElem?_map, List.getElem?_zipIdx, Nat.zero_add, Option.map_map] at place
  rcases Option.map_eq_some_iff.mp place with ⟨_, _, pair⟩
  exact (congrArg Prod.fst pair).symm

theorem Manifest.run_error_cases {path : String}
    (failed : (run (Workspace.host programs) false path).run.run w = (.error failure, w')) :
    (loadFrom programs w.files path = .error failure ∧ failure.isOfWriting = false ∧
      w'.files = w.files) ∨
    ∃ manifest front job rest mid inner, loadFrom programs w.files path = .ok manifest ∧
      manifest.numberedJobs path = front ++ (front.length, job) :: rest ∧
      (front.forM fun (index, job) => runJob (Workspace.host programs) false index job).run.run w =
        (.ok (), mid) ∧
      failure = inner.within (.runningJob front.length job.pattern) ∧
      ((job.unitsFrom programs mid.files = .error inner ∧ failure.isOfWriting = false ∧
        w'.files = mid.files) ∨
      ((∃ units, job.unitsFrom programs mid.files = .ok units) ∧ failure.isOfWriting = true)) := by
  rcases Action.bind_error_cases failed with early | ⟨manifest, start, loaded, late⟩
  · have unwritten := failsAs_load programs path w failure (by rw [early])
    rw [run_load, Prod.mk.injEq] at early
    exact .inl ⟨early.1, unwritten, by rw [early.2]⟩
  · rw [run_load, Prod.mk.injEq] at loaded
    rcases loaded with ⟨loaded, rfl⟩
    rcases Action.forM_error_cases late with ⟨front, ⟨index, job⟩, rest, mid, jobs, before, fails⟩
    obtain rfl := numberedJobs_index jobs
    refine .inr ⟨manifest, front, job, rest, mid, ?_⟩
    change (runJob (Workspace.host programs) false front.length job).run.run mid = _ at fails
    rw [runJob, Action.run_within] at fails
    rcases ran : (job.run (Workspace.host programs) false).run.run mid with ⟨inner | _, reached⟩
    · rw [ran] at fails
      cases fails
      exact ⟨inner, loaded, jobs, before, rfl, Job.run_error_cases ran⟩
    · rw [ran] at fails
      cases fails

/-! ## A workspace for witnesses -/

/-- The schema of a window with a width. -/
def windowSchema : String :=
  "\x7b\"ui::window\": \x7b\"width\": \x7b\"type\": \"int\"\x7d\x7d\x7d"

/-- The record of the schema. -/
def Record.narrow : Record where
  namespaces := ["ui"]
  name := "window"
  origin := .schema
  tree := (FieldTree.new "window" "").add 0 (.leaf ⟨"width", "int", "int", false, false, ""⟩)

/-- The only leaf of the record. -/
def KeyedLeaf.width : KeyedLeaf :=
  ⟨"width", "width", ⟨"width", "int", "int", false, false, ""⟩⟩

def ReflectionModule.narrow : ReflectionModule where
  recordName := "ui::window"
  scope := "ui::window_io"
  table := ⟨#[.width]⟩
  valueType := ValueType.ofLeaves [.width]
  keys := keyItems Record.narrow.tree [.width]
  functions := functionsOver ⟨#[.width]⟩ (ValueType.ofLeaves [.width]) [] []

def GenerateOptions.plain : GenerateOptions where
  separator := "/"
  keyStyle := none
  overrides := .empty
  parsers := []
  formatters := []
  unit := ⟨[], "window_io.h", banner none⟩

/-- The units of the record. -/
def Cpp.Units.narrow : Cpp.Units :=
  Cpp.units .narrow GenerateOptions.plain.unit

theorem generate_narrow : generate .narrow .plain = .ok .narrow := by
  have resolved : (keyRulesFor .narrow GenerateOptions.plain.overrides GenerateOptions.plain.separator
      GenerateOptions.plain.keyStyle).resolve Record.narrow.tree = .ok [.width] := by
    decide +kernel
  have table : DispatchTable.build [.width] = .ok ⟨#[.width]⟩ := by
    simp [DispatchTable.build, DispatchTable.firstClash]
  have built : buildModule .narrow .plain = .ok .narrow := by
    rw [buildModule, resolved]
    dsimp only
    rw [ReflectionModule.synthesize, table]
    rfl
  rw [generate, built]
  rfl

/-- A job with the schema, for the record that a pattern selects. -/
def Job.fromSchema (pattern header implementation : String) : Job :=
  { Job.blank with
    schema := some "window.json"
    pattern
    header
    implementation
    headerInclude := some "window_io.h" }

/-- A directory with the schema and a manifest. -/
def Workspace.withSchema (manifest : String) : Workspace where
  files := ((FileSystem.atDirectory "work").install "window.json" (.file windowSchema)).install "jobs.json"
    (.file manifest)
  calls := []

/-- Wherever the schema can be read, the units of the record are rendered. -/
theorem Job.render_fromSchema (header implementation : String)
    (readable : w.files.readText "window.json" = .ok windowSchema) :
    ((fromSchema "ui::window" header implementation).render (Workspace.host programs)).run.run w =
      (.ok .narrow, w) := by
  have text : ((ExceptT.lift ((Workspace.host programs).readText "window.json") :
      Action (StateM Workspace) (Except FileFault String))).run.run w = (.ok (.ok windowSchema), w) := by
    change (Except.ok (w.files.readText "window.json"), w) = _
    rw [readable]
  let document : SchemaDocument := ⟨[⟨"ui::window", [("width", ⟨none, some "int", none, none, none, []⟩)]⟩]⟩
  have parsed : SchemaDocument.ofText windowSchema = .ok document := by decide +kernel
  have selected : (RecordSource.schema document).extractOne "ui::window" = .ok .narrow := by decide +kernel
  have content : (Action.ofGeneration ((Except.ok windowSchema : Except FileFault String).mapError .io) :
      Action (StateM Workspace) String).run.run w = (.ok windowSchema, w) := rfl
  have schema : (readSchema (Workspace.host programs) "window.json").run.run w = (.ok (.schema document), w) := by
    rw [readSchema, Action.run_within, Action.bind_of_ok text, Action.bind_of_ok content, parsed]
    rfl
  have record : ((fromSchema "ui::window" header implementation).readRecord (Workspace.host programs)).run.run w =
      (.ok (.narrow, "window.json"), w) := by
    change (readSchema (Workspace.host programs) "window.json" >>= fun source =>
      Action.ofGeneration (source.extractOne "ui::window") >>= fun record =>
        pure (record, "window.json")).run.run w = _
    rw [Action.bind_of_ok schema, selected]
    rfl
  have options : (Action.ofCause (fromSchema "ui::window" header implementation).options :
      Action (StateM Workspace) GenerateOptions).run.run w = (.ok .plain, w) := rfl
  have lines : ((fromSchema "ui::window" header implementation).bannerFor (Workspace.host programs)
      "window.json").run.run w = (.ok (banner none), w) := rfl
  have made : generate .narrow { GenerateOptions.plain with
      unit := { GenerateOptions.plain.unit with banner := banner none } } = .ok .narrow := generate_narrow
  rw [render, Action.bind_of_ok options, Action.bind_of_ok record]
  dsimp only
  rw [Action.bind_of_ok lines, made]
  rfl

/-- A job without an input. -/
def Job.undecided : Job :=
  { Job.blank with
    pattern := "*"
    header := "h"
    implementation := "i" }

/-- A manifest with two jobs, of which the second has no input. -/
def brokenManifest : String :=
  "[\"structio.manifest@0.1.0\", [" ++
    "[null, \"window.json\", \"ui::window\", \"window_io.h\", \"window_io.cpp\", [], \"window_io.h\"], " ++
    "[null, null, \"*\", \"h\", \"i\"]]]"

theorem loadFrom_brokenManifest :
    Manifest.loadFrom (fun _ => none) (Workspace.withSchema brokenManifest).files "jobs.json" =
      .ok ⟨manifestVersion, [.fromSchema "ui::window" "window_io.h" "window_io.cpp", .undecided]⟩ := by
  decide +kernel

/-! ## What is left when a command fails -/

/-- When a command that writes fails, everything in front of the failure is done and nothing else is written.
A job that does not render leaves the files as they are, and of the jobs of a manifest those in front of the
one that fails have run.  A command that checks changes no file in any case. -/
theorem failing_command_keeps_files (programs : String → Option Program) (w : Workspace) :
    (∀ job, ((Command.generate job true).outcome programs w).2.files = w.files) ∧
    (∀ path, ((Command.batch path true).outcome programs w).2.files = w.files) ∧
    (∀ job failure w', (Command.generate job false).outcome programs w = (.error failure, w') →
      (job.unitsFrom programs w.files = .error failure ∧ failure.isOfWriting = false ∧
        w'.files = w.files) ∨
      ((∃ units, job.unitsFrom programs w.files = .ok units) ∧ failure.isOfWriting = true)) ∧
    (∀ path failure w', (Command.batch path false).outcome programs w = (.error failure, w') →
      (Manifest.loadFrom programs w.files path = .error failure ∧ failure.isOfWriting = false ∧
        w'.files = w.files) ∨
      ∃ manifest front job rest mid inner,
        Manifest.loadFrom programs w.files path = .ok manifest ∧
        manifest.numberedJobs path = front ++ (front.length, job) :: rest ∧
        (front.forM fun (index, job) =>
          Manifest.runJob (Workspace.host programs) false index job).run.run w = (.ok (), mid) ∧
        failure = inner.within (.runningJob front.length job.pattern) ∧
        ((job.unitsFrom programs mid.files = .error inner ∧ failure.isOfWriting = false ∧
          w'.files = mid.files) ∨
        ((∃ units, job.unitsFrom programs mid.files = .ok units) ∧ failure.isOfWriting = true))) := by
  refine ⟨fun job => ?_, fun path => ?_, fun job failure w' failed => ?_, fun path failure w' failed => ?_⟩
  · exact (IsReading.bindAction (IsReading.check programs job) fun _ => .pure _).quiet w
  · exact (IsReading.bindAction (IsReading.checkAll programs path) fun _ => .pure _).quiet w
  · rcases Action.bind_error_cases failed with early | ⟨_, _, _, nothing⟩
    · exact Job.run_error_cases early
    · cases nothing
  · rcases Action.bind_error_cases failed with early | ⟨_, _, _, nothing⟩
    · exact Manifest.run_error_cases early
    · cases nothing

/-- The first job of the manifest is run before the second fails. -/
theorem outcome_brokenManifest : ∃ w', (Command.batch "jobs.json" false).outcome (fun _ => none)
    (.withSchema brokenManifest) = (.error ⟨[.runningJob 1 "*"], .undecidedInput⟩, w') := by
  let host := Workspace.host fun _ => none
  let w := Workspace.withSchema brokenManifest
  let first := Job.fromSchema "ui::window" "window_io.h" "window_io.cpp"
  let writing := (first.outputs .narrow).forM fun output => writeOutput host output.1 output.2
  let last := (Manifest.runJob host false 1 .undecided).run.run (writing.run.run w).2
  have loaded : (Manifest.load host "jobs.json").run.run w = (.ok ⟨manifestVersion, [first, .undecided]⟩, w) := by
    rw [Manifest.run_load, loadFrom_brokenManifest]
  have jobs : (⟨manifestVersion, [first, .undecided]⟩ : Manifest).numberedJobs "jobs.json" =
      [(0, first), (1, .undecided)] := by
    decide +kernel
  have written : (writing.run.run w).1 = .ok () := by decide +kernel
  have firstRan : (Manifest.runJob host false 0 first).run.run w = (.ok (), (writing.run.run w).2) := by
    have ran : (first.run host false).run.run w = (.ok (), (writing.run.run w).2) :=
      (Action.bind_of_ok (Job.render_fromSchema _ _ (by decide +kernel))).trans (Prod.ext written rfl)
    rw [Manifest.runJob, Action.run_within, ran]
    rfl
  have secondFails : last.1 = .error ⟨[.runningJob 1 "*"], .undecidedInput⟩ := by decide +kernel
  have fails : (Manifest.run host false "jobs.json").run.run w =
      (.error ⟨[.runningJob 1 "*"], .undecidedInput⟩, last.2) := by
    rw [Manifest.run, Action.bind_of_ok loaded, jobs]
    exact (Action.bind_of_ok firstRan).trans (Action.bind_of_error (Prod.ext secondFails rfl))
  exact ⟨last.2, Action.bind_of_error fails⟩

/-- What the first job of the manifest has written is left when the second fails. -/
theorem failing_command_keeps_files_undecided :
    let programs : String → Option Program := fun _ => none
    let w := Workspace.withSchema brokenManifest
    ∃ failure w' manifest front job rest mid inner,
      (Command.batch "jobs.json" false).outcome programs w = (.error failure, w') ∧
      Manifest.loadFrom programs w.files "jobs.json" = .ok manifest ∧
      manifest.numberedJobs "jobs.json" = front ++ (front.length, job) :: rest ∧
      (front.forM fun (index, job) =>
        Manifest.runJob (Workspace.host programs) false index job).run.run w = (.ok (), mid) ∧
      failure = inner.within (.runningJob front.length job.pattern) ∧
      job.unitsFrom programs mid.files = .error inner ∧ w'.files = mid.files := by
  intro programs w
  rcases outcome_brokenManifest with ⟨w', failed⟩
  rcases (failing_command_keeps_files programs w).2.2.2 "jobs.json" _ w' failed with
    ⟨unloaded, _⟩ | ⟨manifest, front, job, rest, mid, inner, loaded, jobs, before, same, ends⟩
  · rw [loadFrom_brokenManifest] at unloaded
    cases unloaded
  · rcases ends with ⟨fails, _, kept⟩ | ⟨_, writing⟩
    · exact ⟨_, w', manifest, front, job, rest, mid, inner, failed, loaded, jobs, before, same, fails, kept⟩
    · cases writing

end KeyedReflection
