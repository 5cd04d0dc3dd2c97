import KeyedReflection.Declaration.Extraction
import KeyedReflection.Diagnostic.Code
import KeyedReflection.Diagnostic.CompilerMessage
import KeyedReflection.Files.Path
import KeyedReflection.Module.Synthesis
import KeyedReflection.NamePattern.Basic
import KeyedReflection.Schema.Document

/-!
# Failures of a generation run

Everything that can keep a generation run from its result, as one type.  Each cause keeps the data it
is about; its words, its code and with it the phase and the advice are functions of the cause.
-/

namespace KeyedReflection

/-- Why the compiler gave no declaration tree. -/
inductive FrontEndFault where
  | notRun (compiler path : String) (fault : FileFault)
  | failed (compiler path report : String)
  | undecodable (path : String) (error : Json.SyntaxError)
  deriving DecidableEq, Repr

def FrontEndFault.message : FrontEndFault → String
  | .notRun compiler path fault => "run " ++ compiler ++ " on " ++ path ++ ": " ++ fault.message
  | .failed compiler path report => compiler ++ " failed for " ++ path ++ ":\n" ++ report
  | .undecodable path error => "decode clang AST JSON for " ++ path ++ ": " ++ error.message

/-- The words for a refused conversion spec. -/
def ConversionCause.message : ConversionCause → String
  | .notThreeParts => "expected exactly three `;`-separated parts"
  | .emptyCarrier => "empty carrier type"
  | .functionNotIdentifier => "function name is not an identifier"
  | .templateNotUnary => "template must contain exactly one `%`"
  | .nameTaken name => "function name " ++ Text.quote name ++ " is already generated"

/-- Why a generation run has no result. -/
inductive GenerationError where
  | notFound (pattern : String)
  | ambiguous (pattern : String) (names : List String)
  | parseFailed (path : String) (messages : List CompilerMessage)
  | recursiveRecord (recursion : RecursiveRecord)
  | duplicateKey (clash : KeyClash)
  | invalidConversion (fault : ConversionFault)
  | invalidOverride (fault : OverrideFault)
  | invalidSchema (fault : SchemaFault)
  | invalidPattern (fault : PatternFault)
  | frontEnd (fault : FrontEndFault)
  | json (error : Json.SyntaxError)
  | io (fault : FileFault)
  deriving DecidableEq, Repr

namespace GenerationError

/-- The first message after which extraction stops, in words. -/
def firstError (messages : List CompilerMessage) : String :=
  match messages.find? fun message => message.severity.stopsExtraction with
  | some message => message.render
  | none => "front-end reported errors"

def message : GenerationError → String
  | .notFound pattern => "no record matches " ++ Text.quote pattern
  | .ambiguous pattern names =>
    Text.quote pattern ++ " matches " ++ toString names.length ++ " records: " ++
      Text.join ", " names
  | .parseFailed path messages => "could not parse " ++ path ++ ": " ++ firstError messages
  | .recursiveRecord recursion =>
    "record " ++ recursion.record ++ " contains itself through field " ++
      Text.quote recursion.field
  | .duplicateKey clash =>
    "external key " ++ Text.quote clash.key ++ " is produced by both " ++ Text.quote clash.first ++
      " and " ++ Text.quote clash.second
  | .invalidConversion fault =>
    "invalid conversion spec " ++ Text.quote fault.spec ++ ": " ++ fault.cause.message
  | .invalidOverride fault =>
    "invalid key override " ++ Text.quote fault.spec ++ ": " ++ fault.cause.message
  | .invalidSchema fault => "invalid schema: " ++ fault.message
  | .invalidPattern fault =>
    "invalid record glob " ++ Text.quote fault.text ++ ": " ++ fault.message
  | .frontEnd fault => "front-end failed: " ++ fault.message
  | .json error => error.message
  | .io fault => fault.message

def code : GenerationError → DiagnosticCode
  | .notFound _ => .recordNotFound
  | .ambiguous _ _ => .recordAmbiguous
  | .parseFailed _ _ => .parseFailed
  | .recursiveRecord _ => .recursiveRecord
  | .duplicateKey _ => .duplicateKey
  | .invalidConversion _ => .invalidConversionSpec
  | .invalidOverride _ => .invalidKeyOverride
  | .invalidSchema _ => .invalidSchema
  | .invalidPattern _ => .invalidGlob
  | .frontEnd _ => .frontEndFailed
  | .json _ => .invalidSchema
  | .io _ => .io

/-- The report of an error. -/
def diagnostic (error : GenerationError) : Diagnostic :=
  .error error.code error.message

/-- The error of a text that is not a schema document. -/
def ofSchemaText : SchemaTextFault → GenerationError
  | .json error => .json error
  | .schema fault => .invalidSchema fault

/-- The error of a record that has no module. -/
def ofSynthesis : SynthesisFault → GenerationError
  | .nameTaken spec => .invalidConversion ⟨spec.render, .nameTaken spec.functionName⟩
  | .keyClash clash => .duplicateKey clash

end GenerationError
end KeyedReflection
