import KeyedReflection.Command.Basic
import KeyedReflection.Proofs.Host.Reading

/-!
# Commands before they write

Rendering the units of a job only reads (`IsReading.render`), and so do loading a manifest and comparing a
text with a file.  A command that checks is made of nothing else and therefore changes no file
(`IsReading.check`, `IsReading.checkAll`).

What a job with a schema renders depends on the text of the schema alone (`IsReading.render_schema`), and what
a manifest is depends on its own text (`IsReading.load`).
-/

namespace KeyedReflection

variable (programs : String → Option Program)

namespace IsReading

/-! ## Input -/

theorem declarations (frontEnd : FrontEnd) (path : String) :
    IsReading Eq (frontEnd.declarations (Workspace.host programs) path) := by
  have existing (path : String) : IsReading Eq (FrontEnd.existing (Workspace.host programs) path) := by
    refine bind (isDirectory programs path) fun found => ?_
    cases found with
    | false => exact pure none
    | true => exact bind (canonicalPath programs path) fun | .ok _ => pure _ | .error _ => pure _
  have defaults : IsReading Eq (frontEnd.defaultIncludes (Workspace.host programs)) :=
    bind (runProgram programs _ _) fun
      | .error _ => pure _
      | .ok _ => filterMapM existing _
  have directories : IsReading Eq (frontEnd.directories (Workspace.host programs)) := by
    unfold FrontEnd.directories
    split
    · exact pure _
    · exact bind defaults fun _ => pure _
  refine bind directories fun _ => bind (canonicalPath programs path) fun
    | .error _ => pure _
    | .ok _ => bind (runProgram programs _ _) fun
      | .error _ => pure _
      | .ok _ => pure _

theorem readSource (frontEnd : FrontEnd) (path : String) :
    IsReading Eq (KeyedReflection.readSource (Workspace.host programs) frontEnd path).run :=
  within _ (bindAction (lift (declarations programs frontEnd path)) fun _ =>
    bindAction (ofCause _) fun _ => pure _)

theorem readSchema (path : String) :
    IsReading (ReadsSame path) (KeyedReflection.readSchema (Workspace.host programs) path).run :=
  within _ (bindAction (lift (readText programs path)) fun _ => bindAction (ofCause _) fun _ =>
    bindAction (ofCause _) fun _ => pure _)

/-! ## Jobs -/

section

variable (job : Job)

theorem readRecord : IsReading Eq (job.readRecord (Workspace.host programs)).run := by
  unfold Job.readRecord
  split
  · exact bindAction (readSource programs _ _) fun _ => bindAction (ofCause _) fun _ => pure _
  · exact bindAction (readSchema programs _).ofOne fun _ => bindAction (ofCause _) fun _ => pure _
  · exact ofCause _

theorem bannerFor (input : String) :
    IsReading (ReadsSame input) (job.bannerFor (Workspace.host programs) input).run := by
  unfold Job.bannerFor
  split
  · exact bindAction (ofFile _ (readText programs input)) fun _ => pure _
  · exact pure _

/-- Rendering only reads. -/
theorem render : IsReading Eq (job.render (Workspace.host programs)).run :=
  bindAction (ofCause _) fun _ => bindAction (readRecord programs job) fun (_, input) =>
    bindAction (bannerFor programs job input).ofOne fun _ => within _ (ofCause _)

/-- The units of a job with a schema depend on the text of the schema alone. -/
theorem render_schema {path : String} (noSource : job.source = none) (schema : job.schema = some path) :
    IsReading (ReadsSame path) (job.render (Workspace.host programs)).run := by
  have fromSchema : job.readRecord (Workspace.host programs) =
      KeyedReflection.readSchema (Workspace.host programs) path >>= fun source =>
        Action.ofGeneration (source.extractOne job.pattern) >>= fun record =>
          Pure.pure (record, path) := by
    rw [Job.readRecord, noSource, schema]
  rw [Job.render, fromSchema]
  simp only [bind_assoc, pure_bind]
  exact bindAction (ofCause _) fun _ => bindAction (readSchema programs path) fun _ =>
    bindAction (ofCause _) fun _ => bindAction (bannerFor programs job path) fun _ =>
      within _ (ofCause _)

theorem checkOutput (path text : String) :
    IsReading (ReadsSame path) (KeyedReflection.checkOutput (Workspace.host programs) path text).run := by
  refine bindAction (ofFile _ (readText programs path)) fun _ => ?_
  split
  · exact pure _
  · exact ofCause _

/-- A job that is only checked changes no file. -/
theorem check : IsReading Eq (job.run (Workspace.host programs) true).run := by
  exact bindAction (render programs job) fun _ => forM fun (path, text) _ =>
    (checkOutput programs path text).ofOne

end

/-! ## Manifests -/

/-- What a manifest is depends on its text alone. -/
theorem load (path : String) :
    IsReading (ReadsSame path) (Manifest.load (Workspace.host programs) path).run := by
  refine bindAction (ofFile _ (readText programs path)) fun _ =>
    bindAction (within _ (ofCause _)) fun _ => ?_
  split
  · exact pure _
  · exact ofCause _

theorem checkAll (path : String) :
    IsReading Eq (Manifest.run (Workspace.host programs) true path).run :=
  bindAction (load programs path).ofOne fun _ => forM fun (_, job) _ => within _ (check programs job)

end IsReading
end KeyedReflection
