import KeyedReflection.Diagnostic.CompilerMessage
import KeyedReflection.Json.Value

/-!
# Diagnostic codes

Every failure of a generation run has a code, and the code fixes the phase of the run, a general
message and, for some, an advice.  The catalog lists them all as a table.
-/

namespace KeyedReflection

/-- A phase of a generation run. -/
inductive Phase where
  | parse
  | extract
  | configure
  | resolve
  | emit
  deriving DecidableEq, Repr

def Phase.name : Phase → String
  | .parse => "Parse"
  | .extract => "Extract"
  | .configure => "Configure"
  | .resolve => "Resolve"
  | .emit => "Emit"

/-- A kind of failure. -/
inductive DiagnosticCode where
  | parseFailed
  | frontEndFailed
  | recordNotFound
  | recordAmbiguous
  | recursiveRecord
  | invalidSchema
  | invalidGlob
  | invalidKeyOverride
  | invalidConversionSpec
  | duplicateKey
  | io
  deriving DecidableEq, Repr

namespace DiagnosticCode

/-- All codes, by ascending number. -/
def all : List DiagnosticCode :=
  [.parseFailed, .frontEndFailed, .recordNotFound, .recordAmbiguous, .recursiveRecord,
    .invalidSchema, .invalidGlob, .invalidKeyOverride, .invalidConversionSpec, .duplicateKey, .io]

def number : DiagnosticCode → String
  | .parseFailed => "SIO0001"
  | .frontEndFailed => "SIO0002"
  | .recordNotFound => "SIO0100"
  | .recordAmbiguous => "SIO0101"
  | .recursiveRecord => "SIO0102"
  | .invalidSchema => "SIO0110"
  | .invalidGlob => "SIO0120"
  | .invalidKeyOverride => "SIO0200"
  | .invalidConversionSpec => "SIO0201"
  | .duplicateKey => "SIO0210"
  | .io => "SIO0900"

def title : DiagnosticCode → String
  | .parseFailed => "ParseFailed"
  | .frontEndFailed => "FrontEndFailed"
  | .recordNotFound => "RecordNotFound"
  | .recordAmbiguous => "RecordAmbiguous"
  | .recursiveRecord => "RecursiveRecord"
  | .invalidSchema => "InvalidSchema"
  | .invalidGlob => "InvalidGlob"
  | .invalidKeyOverride => "InvalidKeyOverride"
  | .invalidConversionSpec => "InvalidConversionSpec"
  | .duplicateKey => "DuplicateKey"
  | .io => "Io"

/-- The phase in which a failure arises. -/
def phase : DiagnosticCode → Phase
  | .parseFailed => .parse
  | .frontEndFailed => .parse
  | .recordNotFound => .extract
  | .recordAmbiguous => .extract
  | .recursiveRecord => .extract
  | .invalidSchema => .extract
  | .invalidGlob => .extract
  | .invalidKeyOverride => .configure
  | .invalidConversionSpec => .configure
  | .duplicateKey => .resolve
  | .io => .emit

/-- The message that holds for every failure of a kind. -/
def generalMessage : DiagnosticCode → String
  | .parseFailed => "the compiler front-end reported errors"
  | .frontEndFailed => "the compiler front-end could not be run"
  | .recordNotFound => "no record matches the glob"
  | .recordAmbiguous => "more than one record matches the glob"
  | .recursiveRecord => "record contains itself"
  | .invalidSchema => "malformed schema file"
  | .invalidGlob => "malformed record glob"
  | .invalidKeyOverride => "malformed key override"
  | .invalidConversionSpec => "malformed conversion spec"
  | .duplicateKey => "two fields resolve to the same external key"
  | .io => "i/o failure"

/-- What to do about a failure. -/
def help? : DiagnosticCode → Option String
  | .frontEndFailed =>
    some "Install clang or pass --compiler, or generate from an exported schema."
  | .recordAmbiguous => some "Narrow the glob, e.g. with a namespace prefix: \"ns::name\"."
  | .invalidKeyOverride => some "Use the form `dotted.path=Segment`."
  | .invalidConversionSpec => some "Use the form `carrier_type;function_name;user_function_%`."
  | .duplicateKey => some "Adjust the key overrides so every field keeps a distinct key."
  | _ => none

def catalogRow (code : DiagnosticCode) : String :=
  "| " ++ code.number ++ " | " ++ code.phase.name ++ " | " ++ code.generalMessage ++ " | " ++
    code.help?.getD "" ++ " |\n"

/-- The catalog of all codes. -/
def catalog : String :=
  "# structio diagnostics catalog\n\n" ++
    "This document is generated from `crates/structio-core/src/diagnostics.rs`.\n\n" ++
    "| Code | Phase | Message | Help |\n" ++ "| ---- | ----- | ------- | ---- |\n" ++
    String.join (all.map catalogRow)

end DiagnosticCode

/-- A failure as it is reported. -/
structure Diagnostic where
  code : DiagnosticCode
  phase : Phase
  severity : Severity
  message : String
  help : Option String
  deriving DecidableEq, Repr

namespace Diagnostic

/-- The report of an error, with the phase and the advice of its code. -/
def error (code : DiagnosticCode) (message : String) : Diagnostic :=
  ⟨code, code.phase, .error, message, code.help?⟩

/-- The text of a report. -/
def render (d : Diagnostic) : String :=
  d.code.number ++ " " ++ d.phase.name ++ " " ++ d.severity.label ++ ": " ++ d.message ++
    (match d.help with
      | some help => "\n  help: " ++ help
      | none => "")

/-- A report as a JSON object. -/
def toJson (d : Diagnostic) : Json.Value :=
  .object [
    ("code", .string (d.code.number ++ d.code.title)),
    ("phase", .string d.phase.name),
    ("severity", .string d.severity.label),
    ("message", .string d.message),
    ("help", match d.help with
      | some help => .string help
      | none => .null)]

end Diagnostic
end KeyedReflection
