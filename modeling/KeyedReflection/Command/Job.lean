import KeyedReflection.Command.FrontEnd
import KeyedReflection.Files.Path
import KeyedReflection.Generation.Basic

/-!
# Generation jobs

A job says from which input, be it a source file or a schema, the units of one record are generated
and where they are written.  Running a job has three stages: the units are rendered, which only reads;
then either they are written, or they are compared with the files that are there.  So nothing is
written before both units are known.
-/

namespace KeyedReflection

/-- One generation run, as it is asked for. -/
structure Job where
  source : Option String
  schema : Option String
  /-- The pattern that selects the record. -/
  pattern : String
  /-- Where the declarations go. -/
  header : String
  /-- Where the definitions go. -/
  implementation : String
  includes : List String
  /-- How the definitions include the header; by its file name when it is not given. -/
  headerInclude : Option String
  parsers : List String
  formatters : List String
  separator : String
  overrides : List String
  keyStyle : Option KeyStyle
  frontEnd : FrontEnd
  /-- The banner also names the input. -/
  bannerInput : Bool
  deriving DecidableEq, Repr

variable {m : Type → Type} [Monad m]

/-- A command in progress. -/
abbrev Action (m : Type → Type) (α : Type) := ExceptT Failure m α

namespace Action

/-- Do a file operation in the course of an activity. -/
def ofFile {α : Type} (activity : Activity) (operation : m (Except FileFault α)) : Action m α :=
  ExceptT.mk do
    match ← operation with
    | .ok value => pure (.ok value)
    | .error fault => pure (.error (.ofFile activity fault))

/-- Take up a result that does not depend on the machine. -/
def ofCause {α : Type} (result : Except FailureCause α) : Action m α :=
  ExceptT.mk (pure (result.mapError fun cause => ⟨[], cause⟩))

/-- Take up a result of generation. -/
def ofGeneration {α : Type} (result : Except GenerationError α) : Action m α :=
  ofCause (result.mapError .generation)

def fail {α : Type} (cause : FailureCause) : Action m α :=
  ofCause (.error cause)

/-- Do something in the course of an activity. -/
def within {α : Type} (activity : Activity) (action : Action m α) : Action m α :=
  ExceptT.adapt (Failure.within activity) action

end Action

/-- The records declared in a source file. -/
def readSource (host : Host m) (frontEnd : FrontEnd) (path : String) : Action m RecordSource :=
  Action.within (.readingSource path) do
    let result ← ExceptT.lift (frontEnd.declarations host path)
    let tree ← Action.ofGeneration result
    pure (.declarations tree)

/-- The records of a schema file. -/
def readSchema (host : Host m) (path : String) : Action m RecordSource :=
  Action.within (.loadingSchema path) do
    let result ← ExceptT.lift (host.readText path)
    let text ← Action.ofGeneration (result.mapError .io)
    let document ← Action.ofGeneration ((SchemaDocument.ofText text).mapError .ofSchemaText)
    pure (.schema document)

/-- Write a text to a file, whose directory is made if it is missing. -/
def writeOutput (host : Host m) (path text : String) : Action m Unit := do
  match Path.parent? path with
  | none => pure ()
  | some "" => pure ()
  | some parent => Action.ofFile (.makingDirectory parent) (host.makeDirectories parent)
  Action.ofFile (.writingOutput path) (host.writeText path text)

/-- Compare a text with that of a file. -/
def checkOutput (host : Host m) (path text : String) : Action m Unit := do
  let present ← Action.ofFile (.readingOutput path) (host.readText path)
  if present = text then pure () else Action.fail (.outputDiffers path)

namespace Job

/-- The job with its relative paths seen from a directory. -/
def rebase (base : String) (job : Job) : Job :=
  { job with
    source := job.source.map (Path.rebase base)
    schema := job.schema.map (Path.rebase base)
    header := Path.rebase base job.header
    implementation := Path.rebase base job.implementation
    frontEnd := { job.frontEnd with
      includeDirectories := job.frontEnd.includeDirectories.map (Path.rebase base) } }

/-- The options of generation, without the input in the banner. -/
def options (job : Job) : Except FailureCause GenerateOptions := do
  let parsers ← (job.parsers.mapM ConversionSpec.parse).mapError fun fault =>
    .generation (.invalidConversion fault)
  let formatters ← (job.formatters.mapM ConversionSpec.parse).mapError fun fault =>
    .generation (.invalidConversion fault)
  let headerInclude ← match job.headerInclude, Path.fileName? job.header with
    | some given, _ => .ok given
    | none, some name => .ok name
    | none, none => .error (.headerWithoutName job.header)
  let overrides ← (KeyOverrides.ofSpecs job.overrides).mapError fun fault =>
    .generation (.invalidOverride fault)
  pure
    { separator := job.separator
      keyStyle := job.keyStyle
      overrides
      parsers
      formatters
      unit := { includes := job.includes, headerInclude, banner := banner none } }

/-- The record of a job, and the path of its input. -/
def readRecord (host : Host m) (job : Job) : Action m (Record × String) := do
  match job.source, job.schema with
  | some path, none =>
    let source ← readSource host job.frontEnd path
    let record ← Action.ofGeneration (source.extractOne job.pattern)
    pure (record, path)
  | none, some path =>
    let source ← readSchema host path
    let record ← Action.ofGeneration (source.extractOne job.pattern)
    pure (record, path)
  | _, _ => Action.fail .undecidedInput

/-- The banner of a job: it names the input on request. -/
def bannerFor (host : Host m) (job : Job) (input : String) : Action m (List String) :=
  if job.bannerInput then do
    let text ← Action.ofFile (.readingInput input) (host.readText input)
    pure (banner (some ((Path.fileName? input).getD input, Text.utf8 text)))
  else pure (banner none)

/-- The units of a job.  Nothing is written. -/
def render (host : Host m) (job : Job) : Action m Cpp.Units := do
  let options ← Action.ofCause job.options
  let (record, input) ← job.readRecord host
  let lines ← job.bannerFor host input
  let options := { options with unit := { options.unit with banner := lines } }
  Action.within (.generating record.qualifiedName) (Action.ofGeneration (generate record options))

/-- The files of a job and what goes into them, in the order of writing. -/
def outputs (job : Job) (units : Cpp.Units) : List (String × String) :=
  [(job.header, units.declarations), (job.implementation, units.definitions)]

/-- Run a job: write its units, or only check that they are there. -/
def run (host : Host m) (check : Bool) (job : Job) : Action m Unit := do
  let units ← job.render host
  (job.outputs units).forM fun (path, text) =>
    if check then checkOutput host path text else writeOutput host path text

end Job
end KeyedReflection
