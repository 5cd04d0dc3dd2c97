import KeyedReflection.Proofs.Command.Runs
import KeyedReflection.Proofs.Results

/-!
# Checking what was written

A command that has written its units is run once more, and this time only checks.  The check renders the units
of every job again and finds them under the paths of the outputs (`Generation.check_eq_ok_iff`), unless
something was overwritten in the meantime: an output by another one, the manifest or a schema by an output, or
a file that the compiler reads.  That nothing of this kind has happened (`IsUndisturbed`) is not only enough for
the check to succeed, but also necessary, since a unit begins with a comment and is therefore neither a
manifest nor a schema (`check_after_writing_iff`).

No command looks for such a case: with the header and the implementation in one file it succeeds, and the check
that follows fails.
-/

namespace KeyedReflection

variable {programs : String → Option Program} {files : FileSystem} {w w' : Workspace}

/-! ## What is checked -/

theorem answerFrom_checkOutput {path text : String} :
    answerFrom (checkOutput (Workspace.host programs) path text).run files = .ok () ↔
      files.readText path = .ok text := by
  have first : answerFrom (Action.ofFile (.readingOutput path) ((Workspace.host programs).readText path)).run
      files = (files.readText path).mapError (Failure.ofFile (.readingOutput path)) :=
    congrArg Prod.fst (Action.run_ofFile _ _ _)
  have compares (present : String) : IsReading Eq (if present = text then pure () else
      Action.fail (.outputDiffers path) : Action (StateM Workspace) Unit).run := by
    split
    · exact .pure _
    · exact .ofCause _
  rw [checkOutput, IsReading.answerFrom_bind_eq_ok_iff
    (IsReading.ofFile _ (IsReading.readText programs path).ofOne) compares, first]
  constructor
  · rintro ⟨present, readable, passed⟩
    split at passed
    · rename_i same
      exact same ▸ exists_of_mapError_ok readable
    · cases passed
  · intro readable
    rw [readable]
    exact ⟨text, rfl, by rw [if_pos rfl]; rfl⟩

theorem checkOutput_of_differs {path present text : String} (readable : w.files.readText path = .ok present)
    (differs : present ≠ text) : (checkOutput (Workspace.host programs) path text).run.run w =
      (.error ⟨[], .outputDiffers path⟩, w) := by
  have read : (Action.ofFile (.readingOutput path) ((Workspace.host programs).readText path)).run.run w =
      (.ok present, w) := by
    rw [Action.run_ofFile]
    change ((w.files.readText path).mapError _, w) = _
    rw [readable]
    rfl
  rw [checkOutput, Action.bind_of_ok read, if_neg differs]
  rfl

/-- A job is checked successfully when its units, rendered once more, are what its files hold. -/
theorem Job.answerFrom_check {job : Job} :
    answerFrom (job.run (Workspace.host programs) true).run files = .ok () ↔
      ∃ units, job.unitsFrom programs files = .ok units ∧
        ∀ output ∈ job.outputs units, files.readText output.1 = .ok output.2 := by
  refine (IsReading.answerFrom_bind_forM_eq_ok_iff (IsReading.render programs job) ?_ files).trans ?_
  · exact fun output => (IsReading.checkOutput programs output.1 output.2).ofOne
  · exact exists_congr fun units => and_congr_right fun _ =>
      forall₂_congr fun output _ => answerFrom_checkOutput

/-! ## Requests -/

/-- What is to be generated: the units of one job, or those of all jobs of a manifest. -/
inductive Generation where
  | one (job : Job)
  | all (manifest : String)

namespace Generation

/-- The command that writes or checks what is to be generated. -/
def command (check : Bool) : Generation → Command
  | .one job => .generate job check
  | .all manifest => .batch manifest check

/-- The jobs that some files ask for. -/
def jobsFrom (programs : String → Option Program) (files : FileSystem) : Generation → Except Failure (List Job)
  | .one job => .ok [job]
  | .all manifest => (Manifest.loadFrom programs files manifest).map fun found =>
      (found.numberedJobs manifest).map Prod.snd

/-- The documents that are read: the manifest, if there is one, and the schemas of some jobs. -/
def documents (jobs : List Job) : Generation → List String
  | .one _ => jobs.filterMap Job.schema
  | .all manifest => manifest :: jobs.filterMap Job.schema

/-- A command that has succeeded has run the jobs that it found. -/
theorem exists_ran (request : Generation) {output : String}
    (done : (request.command false).outcome programs w = (.ok output, w')) :
    ∃ products : List (Job × Cpp.Units),
      request.jobsFrom programs w.files = .ok (products.map Prod.fst) ∧ Ran programs w products w' := by
  cases request with
  | one job =>
      rcases Action.exists_of_bind_ok done with ⟨_, mid, own, last⟩
      cases last
      rcases Job.exists_of_run_ok own with ⟨units, rendered, _⟩
      exact ⟨[(job, units)], rfl, .cons rendered own (.nil _)⟩
  | all path =>
      rcases Action.exists_of_bind_ok done with ⟨_, mid, ran, last⟩
      cases last
      rcases Action.exists_of_bind_ok ran with ⟨manifest, start, loaded, ran⟩
      rw [Manifest.run_load, Prod.mk.injEq] at loaded
      rcases loaded with ⟨loaded, rfl⟩
      rcases Ran.exists_of_forM ran with ⟨products, listed, ran⟩
      refine ⟨products, ?_, ran⟩
      rw [jobsFrom, loaded, listed]
      rfl

/-- The check of a command succeeds when every job that it finds is checked successfully. -/
theorem check_eq_ok_iff (request : Generation) (w : Workspace) :
    ((request.command true).outcome programs w).1 = .ok "" ↔
      ∃ jobs, request.jobsFrom programs w.files = .ok jobs ∧
        ∀ job ∈ jobs, ∃ units, job.unitsFrom programs w.files = .ok units ∧
          ∀ output ∈ job.outputs units, w.files.readText output.1 = .ok output.2 := by
  have quietly {action : Action (StateM Workspace) Unit} (reads : IsReading Eq action.run) :
      (((action >>= fun _ => pure "").run.run w).1 = .ok "") ↔ answerFrom action.run w.files = .ok () := by
    have whole : IsReading Eq (action >>= fun _ => pure "").run := .bindAction reads fun _ => .pure _
    rw [whole.run_fst]
    refine (IsReading.answerFrom_bind_eq_ok_iff reads (fun _ => .pure _) w.files).trans ?_
    constructor
    · rintro ⟨_, done, _⟩
      exact done
    · exact fun done => ⟨(), done, rfl⟩
  cases request with
  | one job =>
      refine (quietly (IsReading.check programs job)).trans (Job.answerFrom_check.trans ?_)
      refine ⟨fun found => ⟨[job], rfl, List.forall_mem_singleton.mpr found⟩, ?_⟩
      rintro ⟨_, same, found⟩
      cases same
      exact found job List.mem_cons_self
  | all path =>
      refine (quietly (IsReading.checkAll programs path)).trans
        ((IsReading.answerFrom_bind_forM_eq_ok_iff (IsReading.load programs path).ofOne ?_ w.files).trans ?_)
      · exact fun numbered => .within _ (IsReading.check programs numbered.2)
      constructor
      · rintro ⟨manifest, loaded, all⟩
        refine ⟨(manifest.numberedJobs path).map Prod.snd, congrArg (Except.map _) loaded,
          List.forall_mem_map.mpr fun numbered listed => ?_⟩
        exact Job.answerFrom_check.mp (IsReading.answerFrom_within_eq_ok_iff.mp (all numbered listed))
      · rintro ⟨jobs, found, all⟩
        rcases exists_of_map_ok found with ⟨manifest, loaded, rfl⟩
        refine ⟨manifest, loaded, fun numbered listed => IsReading.answerFrom_within_eq_ok_iff.mpr ?_⟩
        exact Job.answerFrom_check.mpr (all numbered.2 (List.mem_map_of_mem listed))

end Generation

/-- Nothing that is read again or is still to be found has been overwritten. -/
structure IsUndisturbed (programs : String → Option Program) (files : FileSystem) (request : Generation)
    (products : List (Job × Cpp.Units)) : Prop where
  outputs : ∀ first ∈ outputsOf products, ∀ second ∈ outputsOf products,
    files.canonicalPath first.1 = files.canonicalPath second.1 → first.2 = second.2
  documents : ∀ document ∈ request.documents (products.map Prod.fst), ∀ output ∈ outputsOf products,
    files.canonicalPath output.1 ≠ files.canonicalPath document
  sources : ∀ product ∈ products, product.1.schema = none →
    product.1.unitsFrom programs files = .ok product.2

/-- Jobs with a schema render the same as long as the schema reads the same. -/
theorem Job.unitsFrom_congr {job : Job} {path : String} {other : FileSystem} (noSource : job.source = none)
    (schema : job.schema = some path) (same : ReadsSame path files other) :
    job.unitsFrom programs files = job.unitsFrom programs other :=
  (IsReading.render_schema programs job noSource schema).answer ⟨files, []⟩ ⟨other, []⟩ same

namespace Generation

theorem mem_documents {request : Generation} {jobs : List Job} {document : String} :
    document ∈ request.documents jobs ↔ request = .all document ∨ ∃ job ∈ jobs, job.schema = some document := by
  cases request with
  | one job => simp [documents]
  | all manifest => simp [documents, eq_comm]

/-- The same jobs are found as long as the manifest reads the same. -/
theorem jobsFrom_congr {request : Generation} {other : FileSystem}
    (same : ∀ manifest, request = .all manifest → ReadsSame manifest files other) :
    request.jobsFrom programs files = request.jobsFrom programs other := by
  cases request with
  | one job => rfl
  | all manifest =>
      have loaded : Manifest.loadFrom programs files manifest = Manifest.loadFrom programs other manifest :=
        (IsReading.load programs manifest).answer ⟨files, []⟩ ⟨other, []⟩ (same manifest rfl)
      rw [jobsFrom, jobsFrom, loaded]

theorem exists_of_jobsFrom {manifest : String} {jobs : List Job}
    (found : (all manifest).jobsFrom programs files = .ok jobs) :
    ∃ text held, files.readText manifest = .ok text ∧ Manifest.parse text = .ok held := by
  rcases exists_of_map_ok found with ⟨held, loaded, _⟩
  rcases Manifest.exists_of_loadFrom loaded with ⟨text, readable, parsed⟩
  exact ⟨text, held, readable, parsed⟩

end Generation

section

variable {request : Generation} {products : List (Job × Cpp.Units)}
  (jobs : request.jobsFrom programs w.files = .ok (products.map Prod.fst)) (ran : Ran programs w products w')

include jobs ran

/-- When nothing is disturbed, the same jobs are found again, and they render the same units. -/
theorem IsUndisturbed.rendered_again (undisturbed : IsUndisturbed programs w'.files request products) :
    request.jobsFrom programs w'.files = .ok (products.map Prod.fst) ∧
      ∀ product ∈ products, product.1.unitsFrom programs w'.files = .ok product.2 := by
  constructor
  · rw [← jobs]
    refine Generation.jobsFrom_congr ?_
    rintro manifest rfl
    rcases Generation.exists_of_jobsFrom jobs with ⟨text, _, readable, _⟩
    have apart := undisturbed.documents manifest (Generation.mem_documents.mpr (.inl rfl))
    exact (ran.writesAll.readText_of_apart readable apart).trans readable.symm
  · intro product listed
    cases schema : product.1.schema with
    | none => exact undisturbed.sources product listed schema
    | some path =>
        rcases ran.exists_start product listed with ⟨start, outputs, rendered, written, within⟩
        rcases Job.exists_of_unitsFrom schema rendered with ⟨noSource, text, _, readable, _⟩
        have document : path ∈ request.documents (products.map Prod.fst) :=
          Generation.mem_documents.mpr (.inr ⟨product.1, List.mem_map_of_mem listed, schema⟩)
        have still := written.readText_of_apart readable fun output inside =>
          undisturbed.documents path document output (within inside)
        rw [← rendered]
        exact Job.unitsFrom_congr noSource schema (still.trans readable.symm)

/-- When all units are found again and the check succeeds, nothing is disturbed. -/
theorem isUndisturbed_of_checked
    (found : ∀ output ∈ outputsOf products, w'.files.readText output.1 = .ok output.2)
    (checked : ∃ jobs, request.jobsFrom programs w'.files = .ok jobs ∧
      ∀ job ∈ jobs, ∃ units, job.unitsFrom programs w'.files = .ok units ∧
        ∀ output ∈ job.outputs units, w'.files.readText output.1 = .ok output.2) :
    IsUndisturbed programs w'.files request products := by
  rcases checked with ⟨again, jobsAgain, each⟩
  have written := ran.writesAll
  have manifest : ∀ path, request = .all path → ∀ output ∈ outputsOf products,
      w'.files.canonicalPath output.1 ≠ w'.files.canonicalPath path := by
    rintro path rfl output listed met
    rcases Generation.exists_of_jobsFrom jobsAgain with ⟨text, held, readable, parsed⟩
    rcases written.exists_of_met readable listed met with ⟨last, alsoListed, rfl⟩
    exact Manifest.parse_ne_ok (ran.slash_of_outputs last alsoListed) held parsed
  have same : again = products.map Prod.fst := by
    refine Except.ok.inj (jobsAgain.symm.trans (Eq.trans (Generation.jobsFrom_congr ?_) jobs))
    rintro path rfl
    rcases Generation.exists_of_jobsFrom jobs with ⟨text, _, readable, _⟩
    exact (written.readText_of_apart readable (manifest path rfl)).trans readable.symm
  subst same
  have units : ∀ product ∈ products, product.1.unitsFrom programs w'.files = .ok product.2 := by
    intro product listed
    rcases each product.1 (List.mem_map_of_mem listed) with ⟨units, rendered, alsoFound⟩
    have own : ∀ output ∈ product.1.outputs product.2, w'.files.readText output.1 = .ok output.2 :=
      fun output inside => found output (List.mem_flatMap.mpr ⟨product, listed, inside⟩)
    rw [Job.outputs, List.forall_mem_cons, List.forall_mem_singleton] at alsoFound own
    have declarations := Except.ok.inj (alsoFound.1.symm.trans own.1)
    have definitions := Except.ok.inj (alsoFound.2.symm.trans own.2)
    exact rendered.trans (congrArg Except.ok (congrArg₂ Cpp.Units.mk declarations definitions))
  refine ⟨written.readText_iff.mp found, ?_, fun product listed _ => units product listed⟩
  intro document inside output listed met
  rcases Generation.mem_documents.mp inside with rfl | ⟨job, asked, schema⟩
  · exact manifest document rfl output listed met
  · rcases List.mem_map.mp asked with ⟨product, alsoListed, rfl⟩
    rcases Job.exists_of_unitsFrom schema (units product alsoListed) with ⟨_, text, held, readable, parsed⟩
    rcases written.exists_of_met readable listed met with ⟨last, lastListed, rfl⟩
    exact SchemaDocument.ofText_ne_ok (ran.slash_of_outputs last lastListed) held parsed

end

/-- What comes of a job in the directory with the schema, once it has written its units. -/
theorem outcome_fromSchema {header implementation : String} {w' : Workspace}
    (written : (((Job.fromSchema "ui::window" header implementation).outputs .narrow).forM fun (path, text) =>
      writeOutput (Workspace.host programs) path text).run.run (.withSchema "") = (.ok (), w')) :
    ((Generation.one (.fromSchema "ui::window" header implementation)).command false).outcome programs
      (.withSchema "") = (.ok "", w') := by
  have readable : (Workspace.withSchema "").files.readText "window.json" = .ok windowSchema := by
    decide +kernel
  have ran : ((Job.fromSchema "ui::window" header implementation).run (Workspace.host programs) false).run.run
      (.withSchema "") = (.ok (), w') :=
    (Action.bind_of_ok (Job.render_fromSchema _ _ readable)).trans written
  exact Action.bind_of_ok ran

/-- After a command has written its units, each output holds its unit exactly when no two different texts were
written to one place.  That and the success of the same command with a check come to the following: besides,
no output leads to the manifest or to a schema, and the jobs with a source file render the same once more. -/
theorem check_after_writing_iff {request : Generation} {output : String}
    (wrote : (request.command false).outcome programs w = (.ok output, w')) :
    ∃ products : List (Job × Cpp.Units),
      request.jobsFrom programs w.files = .ok (products.map Prod.fst) ∧ Ran programs w products w' ∧
      ((∀ output ∈ outputsOf products, w'.files.readText output.1 = .ok output.2) ↔
        ∀ first ∈ outputsOf products, ∀ second ∈ outputsOf products,
          w'.files.canonicalPath first.1 = w'.files.canonicalPath second.1 → first.2 = second.2) ∧
      ((∀ output ∈ outputsOf products, w'.files.readText output.1 = .ok output.2) ∧
          ((request.command true).outcome programs w').1 = .ok "" ↔
        IsUndisturbed programs w'.files request products) := by
  rcases request.exists_ran wrote with ⟨products, jobs, ran⟩
  have found := ran.writesAll.readText_iff
  refine ⟨products, jobs, ran, found, ?_⟩
  rw [Generation.check_eq_ok_iff]
  constructor
  · rintro ⟨all, checked⟩
    exact isUndisturbed_of_checked jobs ran all checked
  · intro undisturbed
    have all := found.mpr undisturbed.outputs
    rcases undisturbed.rendered_again jobs ran with ⟨jobsAgain, units⟩
    refine ⟨all, _, jobsAgain, fun job asked => ?_⟩
    rcases List.mem_map.mp asked with ⟨product, listed, rfl⟩
    exact ⟨product.2, units product listed, fun output inside =>
      all output (List.mem_flatMap.mpr ⟨product, listed, inside⟩)⟩

theorem exists_of_map_fst {products : List (Job × Cpp.Units)} {job : Job}
    (only : products.map Prod.fst = [job]) : ∃ units, products = [(job, units)] := by
  rcases List.map_eq_singleton_iff.mp only with ⟨⟨own, units⟩, rfl, rfl⟩
  exact ⟨units, rfl⟩

/-- A header and an implementation of their own pass the check. -/
theorem check_after_writing_iff_apart :
    let programs : String → Option Program := fun _ => none
    let request := Generation.one (.fromSchema "ui::window" "window_io.h" "window_io.cpp")
    ∃ w' products, (request.command false).outcome programs (.withSchema "") = (.ok "", w') ∧
      Ran programs (.withSchema "") products w' ∧
      (∀ output ∈ outputsOf products, w'.files.readText output.1 = .ok output.2) ∧
      ((request.command true).outcome programs w').1 = .ok "" := by
  intro programs request
  let job := Job.fromSchema "ui::window" "window_io.h" "window_io.cpp"
  let writing := (job.outputs .narrow).forM fun (path, text) => writeOutput (Workspace.host programs) path text
  let w' := (writing.run.run (.withSchema "")).2
  have written : writing.run.run (.withSchema "") = (.ok (), w') := Prod.ext (by decide +kernel) rfl
  have wrote : (request.command false).outcome programs (.withSchema "") = (.ok "", w') :=
    outcome_fromSchema written
  have readable : w'.files.readText "window.json" = .ok windowSchema := by decide +kernel
  have header : w'.files.canonicalPath "window_io.h" = .ok "/work/window_io.h" := by decide +kernel
  have implementation : w'.files.canonicalPath "window_io.cpp" = .ok "/work/window_io.cpp" := by decide +kernel
  have schema : w'.files.canonicalPath "window.json" = .ok "/work/window.json" := by decide +kernel
  rcases check_after_writing_iff wrote with ⟨products, jobs, ran, _, checked⟩
  refine ⟨w', products, wrote, ran, checked.mpr ⟨?_, ?_, ?_⟩⟩
  all_goals
    obtain ⟨units, rfl⟩ : ∃ units, products = [(job, units)] := exists_of_map_fst (Except.ok.inj jobs).symm
  · intro first listed second alsoListed same
    rcases List.mem_pair.mp listed with rfl | rfl <;> rcases List.mem_pair.mp alsoListed with rfl | rfl
    · rfl
    · exact absurd (header.symm.trans (same.trans implementation)) (by decide)
    · exact absurd (header.symm.trans (same.symm.trans implementation)) (by decide)
    · rfl
  · intro document asked output listed met
    obtain rfl : document = "window.json" := List.mem_singleton.mp asked
    rcases List.mem_pair.mp listed with rfl | rfl
    · exact absurd (header.symm.trans (met.trans schema)) (by decide)
    · exact absurd (implementation.symm.trans (met.trans schema)) (by decide)
  · intro product listed without
    obtain rfl := List.mem_singleton.mp listed
    cases without

/-- When the header and the implementation are one file, it is left with the definitions, and the check that
follows finds that the header differs. -/
theorem check_fails_on_shared_output :
    let programs : String → Option Program := fun _ => none
    let request := Generation.one (.fromSchema "ui::window" "window_io.h" "window_io.h")
    ∃ w', (request.command false).outcome programs (.withSchema "") = (.ok "", w') ∧
      w'.files.readText "window_io.h" = .ok Cpp.Units.narrow.definitions ∧
      ((request.command true).outcome programs w').1 = .error ⟨[], .outputDiffers "window_io.h"⟩ := by
  intro programs request
  let job := Job.fromSchema "ui::window" "window_io.h" "window_io.h"
  let writing := (job.outputs .narrow).forM fun (path, text) => writeOutput (Workspace.host programs) path text
  let w' := (writing.run.run (.withSchema "")).2
  have wrote : writing.run.run (.withSchema "") = (.ok (), w') := Prod.ext (by decide +kernel) rfl
  have readable : w'.files.readText "window.json" = .ok windowSchema := by decide +kernel
  have left : w'.files.readText "window_io.h" = .ok Cpp.Units.narrow.definitions := by
    rcases Action.exists_of_bind_ok wrote with ⟨_, between, _, wrote⟩
    rcases Action.exists_of_bind_ok wrote with ⟨_, last, implementation, wrote⟩
    cases wrote
    exact (writes_of_writeOutput implementation).readText
  have different : Cpp.Units.narrow.definitions ≠ Cpp.Units.narrow.declarations := by decide +kernel
  have checked : (job.run (Workspace.host programs) true).run.run w' =
      (.error ⟨[], .outputDiffers "window_io.h"⟩, w') :=
    (Action.bind_of_ok (Job.render_fromSchema _ _ readable)).trans
      (Action.bind_of_error (checkOutput_of_differs left different))
  exact ⟨w', outcome_fromSchema wrote, left, congrArg Prod.fst (Action.bind_of_error checked)⟩

end KeyedReflection
