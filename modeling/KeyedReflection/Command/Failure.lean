import KeyedReflection.Generation.Error
import KeyedReflection.Json.Typed

/-!
# Failures of commands

A command fails for a cause, in the course of activities that lie inside one another.  The report of a
failure names the activities from the outermost to the innermost and then the cause; a cause that has a
code is followed by the code, its phase and the advice.
-/

namespace KeyedReflection

/-- What a command was doing. -/
inductive Activity where
  | readingSource (path : String)
  | loadingSchema (path : String)
  | readingInput (path : String)
  | generating (record : String)
  | readingOutput (path : String)
  | makingDirectory (path : String)
  | writingOutput (path : String)
  | writingSchema (path : String)
  | readingManifest (path : String)
  | decodingManifest (path : String)
  | runningJob (index : Nat) (pattern : String)
  deriving DecidableEq, Repr

def Activity.message : Activity → String
  | .readingSource path => "parse source: " ++ path
  | .loadingSchema path => "load schema: " ++ path
  | .readingInput path => "read input: " ++ path
  | .generating record => "generate reflection for " ++ record
  | .readingOutput path => "read existing output: " ++ path
  | .makingDirectory path => "create output dir: " ++ path
  | .writingOutput path => "write output: " ++ path
  | .writingSchema path => "write schema: " ++ path
  | .readingManifest path => "read manifest: " ++ path
  | .decodingManifest path => "parse manifest JSON: " ++ path
  | .runningJob index pattern => "manifest job[" ++ toString index ++ "] " ++ pattern

def manifestVersion : String := "structio.manifest@0.1.0"

/-- Why a command failed. -/
inductive FailureCause where
  | generation (error : GenerationError)
  | file (fault : FileFault)
  | document (error : Json.DocumentError)
  | otherManifestVersion (found : String)
  /-- Not exactly one of a source and a schema is given. -/
  | undecidedInput
  | headerWithoutName (path : String)
  | nothingToExport (pattern source : String)
  | outputDiffers (path : String)
  deriving DecidableEq, Repr

/-- The words for a cause; of a malformed pattern the malformation is told once more. -/
def FailureCause.messages : FailureCause → List String
  | .generation (.invalidPattern fault) =>
    [(GenerationError.invalidPattern fault).message, fault.message]
  | .generation error => [error.message]
  | .file fault => [fault.message]
  | .document error => [error.message]
  | .otherManifestVersion found =>
    ["manifest schema_version mismatch: expected " ++ manifestVersion ++ " got " ++
      Text.quote found]
  | .undecidedInput => ["exactly one of `source` and `schema` must be given"]
  | .headerWithoutName path => ["header path has no file name: " ++ path]
  | .nothingToExport pattern source =>
    ["no struct matches " ++ Text.quote pattern ++ " in " ++ source]
  | .outputDiffers path => ["generated output differs: " ++ path]

/-- A cause and the activities in whose course it arose, the outermost first. -/
structure Failure where
  during : List Activity
  cause : FailureCause
  deriving DecidableEq, Repr

namespace Failure

/-- The failure seen from an activity around it. -/
def within (activity : Activity) (failure : Failure) : Failure :=
  { failure with during := activity :: failure.during }

/-- The failure of an activity whose file operation failed. -/
def ofFile (activity : Activity) (fault : FileFault) : Failure :=
  ⟨[activity], .file fault⟩

def message (failure : Failure) : String :=
  Text.join ": " (failure.during.map Activity.message ++ failure.cause.messages)

/-- The report of the cause, if the cause has a code. -/
def diagnostic? (failure : Failure) : Option Diagnostic :=
  match failure.cause with
  | .generation error => some error.diagnostic
  | _ => none

/-- What is told of a failure when a command ends. -/
def report (failure : Failure) : String :=
  failure.message ++
    match failure.diagnostic? with
    | none => ""
    | some diagnostic =>
      "\n" ++ diagnostic.code.number ++ " (" ++ diagnostic.phase.name ++ ")" ++
        match diagnostic.help with
        | none => ""
        | some help => "\nhelp: " ++ help

/-- Whether writing failed, as opposed to all that comes before it. -/
def isOfWriting (failure : Failure) : Bool :=
  failure.during.any fun
    | .makingDirectory _ => true
    | .writingOutput _ => true
    | .writingSchema _ => true
    | _ => false

end Failure
end KeyedReflection
