import KeyedReflection.Command.Job
import KeyedReflection.Json.Typed

/-!
# Manifests

A manifest is a JSON document that lists jobs.  Its version is checked after it has been read.  Members
that a manifest does not know are passed over; a job has no members but its own.
-/

namespace KeyedReflection

/-- The fields of a job, in the order in which they stand when a job is written as an array. -/
inductive JobField where
  | source
  | schema
  | pattern
  | header
  | implementation
  | includes
  | headerInclude
  | parsers
  | formatters
  | separator
  | overrides
  | keyStyle
  | compiler
  | compilerArguments
  | includeDirectories
  | noDefaultIncludes
  | bannerInput
  deriving DecidableEq, Repr

namespace JobField

/-- All fields in order. -/
def all : List JobField :=
  [.source, .schema, .pattern, .header, .implementation, .includes, .headerInclude, .parsers,
    .formatters, .separator, .overrides, .keyStyle, .compiler, .compilerArguments,
    .includeDirectories, .noDefaultIncludes, .bannerInput]

/-- The name of a field in a manifest. -/
def name : JobField → String
  | .source => "source"
  | .schema => "schema"
  | .pattern => "struct"
  | .header => "header"
  | .implementation => "impl"
  | .includes => "includes"
  | .headerInclude => "header_include"
  | .parsers => "parse"
  | .formatters => "format"
  | .separator => "key_sep"
  | .overrides => "keys"
  | .keyStyle => "key_style"
  | .compiler => "compiler"
  | .compilerArguments => "compiler_args"
  | .includeDirectories => "include_dirs"
  | .noDefaultIncludes => "no_default_includes"
  | .bannerInput => "banner_input"

/-- Whether a job has to give the field. -/
def isRequired : JobField → Bool
  | .pattern => true
  | .header => true
  | .implementation => true
  | _ => false

open Json

def readPath (cs : List Char) : TypedStep String :=
  readText "path string" cs

def readString (cs : List Char) : TypedStep String :=
  readText "a string" cs

/-- The key styles by name. -/
def keyStyles : List (String × KeyStyle) :=
  [("hyphenated", .hyphenated), ("verbatim", .verbatim)]

/-- Read the value of a field into a job. -/
def read (field : JobField) (job : Job) (cs : List Char) : TypedStep Job :=
  let into {α : Type} (step : TypedStep α) (update : α → Job) : TypedStep Job :=
    step.map fun (value, rest) => (update value, rest)
  match field with
  | .source => into (readOptional readPath cs) fun source => { job with source }
  | .schema => into (readOptional readPath cs) fun schema => { job with schema }
  | .pattern => into (readString cs) fun pattern => { job with pattern }
  | .header => into (readPath cs) fun header => { job with header }
  | .implementation => into (readPath cs) fun implementation => { job with implementation }
  | .includes => into (readList readString cs) fun includes => { job with includes }
  | .headerInclude =>
    into (readOptional readString cs) fun headerInclude => { job with headerInclude }
  | .parsers => into (readList readString cs) fun parsers => { job with parsers }
  | .formatters => into (readList readString cs) fun formatters => { job with formatters }
  | .separator => into (readString cs) fun separator => { job with separator }
  | .overrides => into (readList readString cs) fun overrides => { job with overrides }
  | .keyStyle =>
    into (readOptional (readVariant keyStyles) cs) fun keyStyle => { job with keyStyle }
  | .compiler =>
    into (readString cs) fun compiler => { job with frontEnd := { job.frontEnd with compiler } }
  | .compilerArguments =>
    into (readList readString cs) fun arguments =>
      { job with frontEnd := { job.frontEnd with arguments } }
  | .includeDirectories =>
    into (readList readPath cs) fun includeDirectories =>
      { job with frontEnd := { job.frontEnd with includeDirectories } }
  | .noDefaultIncludes =>
    into (readFlag cs) fun noDefaultIncludes =>
      { job with frontEnd := { job.frontEnd with noDefaultIncludes } }
  | .bannerInput => into (readFlag cs) fun bannerInput => { job with bannerInput }

end JobField

/-- A front end of which nothing is asked. -/
def FrontEnd.default : FrontEnd where
  compiler := defaultCompiler
  arguments := []
  includeDirectories := []
  noDefaultIncludes := false

/-- The job that gives no field. -/
def Job.blank : Job where
  source := none
  schema := none
  pattern := ""
  header := ""
  implementation := ""
  includes := []
  headerInclude := none
  parsers := []
  formatters := []
  separator := defaultSeparator
  overrides := []
  keyStyle := none
  frontEnd := .default
  bannerInput := false

def Job.form : Json.Form JobField Job where
  expected := "struct Job"
  fields := JobField.all
  name := JobField.name
  isRequired := JobField.isRequired
  read := JobField.read
  ignoresOthers := false

/-- What a manifest holds. -/
structure Manifest where
  version : String
  jobs : List Job
  deriving DecidableEq, Repr

inductive ManifestField where
  | version
  | jobs
  deriving DecidableEq, Repr

namespace ManifestField

def name : ManifestField → String
  | .version => "schema_version"
  | .jobs => "jobs"

/-- Read the value of a field into a manifest. -/
def read (field : ManifestField) (manifest : Manifest) (cs : List Char) :
    Json.TypedStep Manifest :=
  match field with
  | .version =>
    (Json.readText "a string" cs).map fun (found, rest) => ({ manifest with version := found }, rest)
  | .jobs =>
    (Json.readList (Job.form.readFrom .blank) cs).map fun (found, rest) =>
      ({ manifest with jobs := found }, rest)

end ManifestField

namespace Manifest

def form : Json.Form ManifestField Manifest where
  expected := "struct Manifest"
  fields := [.version, .jobs]
  name := ManifestField.name
  isRequired _ := true
  read := ManifestField.read
  ignoresOthers := true

/-- The manifest that a text holds. -/
def parse (text : String) : Except Json.DocumentError Manifest :=
  form.parse ⟨"", []⟩ text

/-- Whether the manifest is of the version that is understood, white space left aside. -/
def isUnderstood (manifest : Manifest) : Bool :=
  Text.trim manifest.version == manifestVersion

variable {m : Type → Type} [Monad m]

/-- Read the manifest at a path. -/
def load (host : Host m) (path : String) : Action m Manifest := do
  let text ← Action.ofFile (.readingManifest path) (host.readText path)
  let manifest ← Action.within (.decodingManifest path)
    (Action.ofCause ((parse text).mapError .document))
  if manifest.isUnderstood then pure manifest
  else Action.fail (.otherManifestVersion manifest.version)

/-- The jobs of a manifest with their numbers; their paths are seen from the directory of the manifest at
the given path. -/
def numberedJobs (path : String) (manifest : Manifest) : List (Nat × Job) :=
  let base := (Path.parent? path).getD "."
  manifest.jobs.zipIdx.map fun (job, index) => (index, job.rebase base)

/-- Run one job of a manifest. -/
def runJob (host : Host m) (check : Bool) (index : Nat) (job : Job) : Action m Unit :=
  Action.within (.runningJob index job.pattern) (job.run host check)

/-- Run the jobs of the manifest at a path, up to the first that fails. -/
def run (host : Host m) (check : Bool) (path : String) : Action m Unit := do
  let manifest ← load host path
  (manifest.numberedJobs path).forM fun (index, job) => runJob host check index job

end Manifest
end KeyedReflection
