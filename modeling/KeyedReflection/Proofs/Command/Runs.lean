import KeyedReflection.Proofs.Command.Failing
import KeyedReflection.Proofs.Files.Writing

/-!
# Jobs that have run

When a job is run, its units are rendered from the files that are there, and then written to its outputs
(`Job.exists_of_run_ok`).  Jobs that run one after another (`Ran`) have in the end written all of their outputs
in order, each of them rendered from the files that the jobs in front of it have left.

Whatever is rendered begins with the comment of the banner.  So it is neither a manifest nor a schema, neither of
which can begin with a slash.
-/

namespace KeyedReflection

variable {programs : String → Option Program} {files : FileSystem} {w w' : Workspace}

/-! ## Units are no documents -/

theorem skipBlank_slash (rest : List Char) : Json.skipBlank ('/' :: rest) = '/' :: rest := by
  rw [Json.skipBlank, if_neg (by decide)]

section

variable {text : String} (slash : text.toList.head? = some '/')

include slash

theorem Manifest.parse_ne_ok (manifest : Manifest) : Manifest.parse text ≠ .ok manifest := by
  rcases List.head?_eq_some_iff.mp slash with ⟨rest, characters⟩
  rw [parse, Json.Form.parse, Json.Form.readFrom, characters, skipBlank_slash]
  exact nofun

theorem SchemaDocument.ofText_ne_ok (document : SchemaDocument) : SchemaDocument.ofText text ≠ .ok document := by
  rcases List.head?_eq_some_iff.mp slash with ⟨rest, characters⟩
  have failing : Json.readDocument Json.depthLimit ('/' :: rest) = .error (.at .expectedValue ('/' :: rest)) := by
    rw [Json.readDocument, Json.readValue, skipBlank_slash]
    rfl
  rw [ofText, Json.Value.parse, characters, failing]
  exact nofun

end

/-- The units of a module begin with a comment, when there is a banner. -/
theorem Cpp.slash_of_units (m : ReflectionModule) {options : Cpp.UnitOptions} {line : String}
    {lines : List String} (banner : options.banner = line :: lines) :
    (Cpp.units m options).declarations.toList.head? = some '/' ∧
      (Cpp.units m options).definitions.toList.head? = some '/' := by
  have opening (rest : List String) :
      (Cpp.unlines (Cpp.bannerLines options.banner ++ rest)).toList.head? = some '/' := by
    rw [banner]
    simp [Cpp.unlines, Cpp.bannerLines, String.toList_join]
  constructor
  · simp only [Cpp.units, Cpp.declarations, String.toList_append, List.head?_append, List.append_assoc,
      opening, Option.some_or]
  · simp only [Cpp.units, Cpp.definitions, String.toList_append, List.head?_append, List.append_assoc,
      opening, Option.some_or]

/-- Rendering ends in the units of a module under a banner. -/
theorem Job.exists_of_render {job : Job} {units : Cpp.Units}
    (rendered : (job.render (Workspace.host programs)).run.run w = (.ok units, w')) :
    ∃ m options input, units = Cpp.units m options ∧ options.banner = banner input := by
  rcases Action.exists_of_bind_ok rendered with ⟨options, _, _, rendered⟩
  rcases Action.exists_of_bind_ok rendered with ⟨⟨record, input⟩, found, _, rendered⟩
  rcases Action.exists_of_bind_ok rendered with ⟨lines, last, lined, rendered⟩
  have fromBanner : ∃ input, lines = banner input := by
    rw [bannerFor] at lined
    split at lined
    · rcases Action.exists_of_bind_ok lined with ⟨text, _, _, done⟩
      cases done
      exact ⟨_, rfl⟩
    · cases lined
      exact ⟨_, rfl⟩
  rcases fromBanner with ⟨named, rfl⟩
  rcases Action.of_ofGeneration_ok (Action.of_within_ok rendered) with ⟨generated, _⟩
  rcases exists_of_map_ok generated with ⟨m, _, rfl⟩
  exact ⟨m, _, named, rfl, rfl⟩

/-- Whatever a job renders begins with a comment. -/
theorem Job.slash_of_outputs {job : Job} {units : Cpp.Units}
    (rendered : job.unitsFrom programs files = .ok units) :
    ∀ output ∈ job.outputs units, output.2.toList.head? = some '/' := by
  rcases exists_of_render (Prod.ext rendered rfl) with ⟨m, options, input, rfl, banner⟩
  rcases Cpp.slash_of_units m banner with ⟨declarations, definitions⟩
  exact List.forall_mem_cons.mpr ⟨declarations, List.forall_mem_singleton.mpr definitions⟩

/-- The manifest that is loaded is that of the text at its path. -/
theorem Manifest.exists_of_loadFrom {path : String} {manifest : Manifest}
    (loaded : loadFrom programs files path = .ok manifest) :
    ∃ text, files.readText path = .ok text ∧ Manifest.parse text = .ok manifest := by
  rcases Action.exists_of_bind_ok (Prod.ext loaded rfl) with ⟨text, mid, read, loaded⟩
  have content := congrArg Prod.fst (Action.of_ofFile_ok read)
  rcases Action.exists_of_bind_ok loaded with ⟨found, last, decoded, loaded⟩
  have parsed := exists_of_mapError_ok (Action.of_ofCause_ok (Action.of_within_ok decoded)).1
  split at loaded
  · cases loaded
    exact ⟨text, content, parsed⟩
  · cases loaded

/-- A job with a schema renders units when the schema can be read. -/
theorem Job.exists_of_unitsFrom {job : Job} {units : Cpp.Units} {path : String}
    (schema : job.schema = some path) (rendered : job.unitsFrom programs files = .ok units) :
    job.source = none ∧
      ∃ text document, files.readText path = .ok text ∧ SchemaDocument.ofText text = .ok document := by
  rcases Action.exists_of_bind_ok (Prod.ext rendered rfl) with ⟨options, start, configured, rendered⟩
  obtain rfl := (Action.of_ofCause_ok configured).2
  rcases Action.exists_of_bind_ok rendered with ⟨_, _, found, _⟩
  cases source : job.source with
  | some path =>
      rw [readRecord, schema, source] at found
      cases found
  | none =>
      rw [readRecord, schema, source] at found
      rcases Action.exists_of_bind_ok found with ⟨_, _, read, _⟩
      rcases Action.exists_of_bind_ok (Action.of_within_ok read) with ⟨result, _, looked, read⟩
      cases looked
      rcases Action.exists_of_bind_ok read with ⟨text, _, content, read⟩
      rcases Action.exists_of_bind_ok read with ⟨document, _, parsed, _⟩
      exact ⟨rfl, text, document, exists_of_mapError_ok (Action.of_ofGeneration_ok content).1,
        exists_of_mapError_ok (Action.of_ofGeneration_ok parsed).1⟩

/-! ## Runs that write -/

open FileSystem (Writes WritesAll)

/-- An output that is written is found under its path. -/
theorem writes_of_writeOutput {path text : String}
    (done : (writeOutput (Workspace.host programs) path text).run.run w = (.ok (), w')) :
    Writes w.files path text w'.files := by
  have writes {start : Workspace} (done : (Action.ofFile (.writingOutput path)
      ((Workspace.host programs).writeText path text)).run.run start = (.ok (), w')) :
      Writes start.files path text w'.files := by
    have written := Action.of_ofFile_ok done
    change Workspace.write path text start = _ at written
    rw [Workspace.write] at written
    split at written
    · rename_i stored
      cases written
      exact FileSystem.writes_of_writeText stored
    · cases written
  rw [writeOutput] at done
  split at done
  · exact writes done
  · exact writes done
  · rename_i parent _ _
    rcases Action.exists_of_bind_ok done with ⟨_, mid, prepared, done⟩
    have made := Action.of_ofFile_ok prepared
    have extended := FileSystem.extends_makeDirectories w.files parent
    have files : mid.files = (w.files.makeDirectories parent).2 :=
      congrArg (fun result => result.2.files) made.symm
    rw [← files] at extended
    exact extended.writes (writes done)

/-- A job that is run has rendered its units, and they are written to its outputs. -/
theorem Job.exists_of_run_ok {job : Job}
    (done : (job.run (Workspace.host programs) false).run.run w = (.ok (), w')) :
    ∃ units, job.unitsFrom programs w.files = .ok units ∧ WritesAll w.files (job.outputs units) w'.files := by
  have reads := IsReading.render programs job
  rcases Action.exists_of_bind_ok done with ⟨units, mid, rendered, done⟩
  have answer := reads.run_fst w
  have quiet := reads.quiet w
  rw [rendered] at answer quiet
  rcases Action.exists_of_bind_ok done with ⟨_, between, header, done⟩
  rcases Action.exists_of_bind_ok done with ⟨_, last, implementation, done⟩
  cases done
  have first := writes_of_writeOutput header
  have second := writes_of_writeOutput implementation
  change mid.files = w.files at quiet
  rw [quiet] at first
  exact ⟨units, answer.symm, .cons first (.cons second (.nil _))⟩

/-- Jobs run one after another, each with the units that it renders where it begins. -/
inductive Ran (programs : String → Option Program) : Workspace → List (Job × Cpp.Units) → Workspace → Prop
  | nil (w : Workspace) : Ran programs w [] w
  | cons {w mid w' : Workspace} {job : Job} {units : Cpp.Units} {rest : List (Job × Cpp.Units)}
    (rendered : job.unitsFrom programs w.files = .ok units)
    (done : (job.run (Workspace.host programs) false).run.run w = (.ok (), mid))
    (later : Ran programs mid rest w') : Ran programs w ((job, units) :: rest) w'

/-- The paths to which units are written and what is written there, in order. -/
def outputsOf (products : List (Job × Cpp.Units)) : List (String × String) :=
  products.flatMap fun (job, units) => job.outputs units

namespace Ran

variable {products : List (Job × Cpp.Units)}

theorem writesAll (ran : Ran programs w products w') : WritesAll w.files (outputsOf products) w'.files := by
  induction ran with
  | nil w => exact .nil w.files
  | cons rendered done _ ih =>
      rcases Job.exists_of_run_ok done with ⟨units, again, written⟩
      cases rendered.symm.trans again
      exact written.append ih

/-- What a job renders is written, with whatever is written later, to the files that it renders from. -/
theorem exists_start (ran : Ran programs w products w') :
    ∀ product ∈ products, ∃ start outputs, product.1.unitsFrom programs start = .ok product.2 ∧
      WritesAll start outputs w'.files ∧ outputs ⊆ outputsOf products := by
  induction ran with
  | nil => exact fun _ listed => absurd listed List.not_mem_nil
  | @cons w mid w' job units rest rendered done later ih =>
      refine List.forall_mem_cons.mpr ⟨?_, fun product listed => ?_⟩
      · exact ⟨w.files, _, rendered, (cons rendered done later).writesAll, List.Subset.refl _⟩
      · rcases ih product listed with ⟨start, outputs, started, written, within⟩
        exact ⟨start, outputs, started, written, fun output also =>
          List.mem_append_right _ (within also)⟩

theorem slash_of_outputs (ran : Ran programs w products w') :
    ∀ output ∈ outputsOf products, output.2.toList.head? = some '/' := by
  intro output listed
  rcases List.mem_flatMap.mp listed with ⟨product, made, own⟩
  rcases ran.exists_start product made with ⟨start, _, rendered, _, _⟩
  exact Job.slash_of_outputs rendered output own

theorem exists_of_forM {jobs : List (Nat × Job)}
    (done : (jobs.forM fun (index, job) =>
      Manifest.runJob (Workspace.host programs) false index job).run.run w = (.ok (), w')) :
    ∃ products : List (Job × Cpp.Units),
      products.map Prod.fst = jobs.map Prod.snd ∧ Ran programs w products w' := by
  induction jobs generalizing w with
  | nil =>
      cases done
      exact ⟨[], rfl, .nil _⟩
  | cons job jobs ih =>
      rcases Action.exists_of_bind_ok done with ⟨_, mid, first, later⟩
      have own := Action.of_within_ok first
      rcases Job.exists_of_run_ok own with ⟨units, rendered, _⟩
      rcases ih later with ⟨products, listed, ran⟩
      exact ⟨(job.2, units) :: products, congrArg (job.2 :: ·) listed, .cons rendered own ran⟩

end Ran

end KeyedReflection
