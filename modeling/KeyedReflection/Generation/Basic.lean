import KeyedReflection.Cpp.Units
import KeyedReflection.Generation.Error
import KeyedReflection.NamePattern.Matching
import KeyedReflection.Schema.Export
import KeyedReflection.Sha256

/-!
# From a source to C++

Records are found in a source by a pattern, and reflection is generated for a record.
-/

namespace KeyedReflection

/-!
## Sources of records

Records come from a schema document or from the declarations of a source file.  Either way a name
pattern selects them by their qualified names, and they are found in document order.
-/

/-- Where records come from. -/
inductive RecordSource where
  | schema (document : SchemaDocument)
  | declarations (tree : DeclarationTree)

/-- The only record of a list, which was selected by a pattern. -/
def singleRecord (pattern : String) : List Record → Except GenerationError Record
  | [] => .error (.notFound pattern)
  | [record] => .ok record
  | records => .error (.ambiguous pattern (records.map Record.qualifiedName))

namespace RecordSource

/-- The records whose qualified names a test accepts. -/
def buildRecords (source : RecordSource) (accepts : String → Bool) :
    Except GenerationError (List Record) :=
  match source with
  | .schema document => (document.buildRecords accepts).mapError .invalidSchema
  | .declarations tree => (tree.buildRecords accepts).mapError .recursiveRecord

/-- The records that a pattern selects. -/
def findRecords (source : RecordSource) (pattern : String) : Except GenerationError (List Record) :=
  match NamePattern.parse pattern with
  | .error fault => .error (.invalidPattern fault)
  | .ok matcher => source.buildRecords matcher.matches

/-- The one record that a pattern selects. -/
def extractOne (source : RecordSource) (pattern : String) : Except GenerationError Record :=
  (source.findRecords pattern).bind (singleRecord pattern)

end RecordSource

/-!
## Generating reflection

`buildModule` takes a record to its reflection module, and `generate` takes it to the two C++ units.
Nothing is written anywhere.  The banner names the generator, and the input by its digest.
-/

/-- What shapes the generated units besides the record. -/
structure GenerateOptions where
  separator : String
  /-- Without a style a record has that of its origin. -/
  keyStyle : Option KeyStyle
  overrides : KeyOverrides
  parsers : List ConversionSpec
  formatters : List ConversionSpec
  unit : Cpp.UnitOptions

/-- The separator of key segments when no other is asked for. -/
def defaultSeparator : String := "/"

/-- The name and version of the generator. -/
def generatorName : String := "structio 0.1.0"

/-- The comment lines at the top of the units. -/
def banner (input : Option (String × List UInt8)) : List String :=
  ("Generated by " ++ generatorName ++ ". Do not edit.") ::
    match input with
    | some (name, bytes) => ["Input: " ++ name ++ " (sha256 " ++ Sha256.hexDigest bytes ++ ")"]
    | none => []

/-- The reflection module of a record. -/
def buildModule (record : Record) (options : GenerateOptions) :
    Except GenerationError ReflectionModule :=
  let rules := keyRulesFor record options.overrides options.separator options.keyStyle
  match rules.resolve record.tree with
  | .error clash => .error (.duplicateKey clash)
  | .ok keyed =>
    (ReflectionModule.synthesize record keyed options.parsers options.formatters).mapError
      .ofSynthesis

/-- The two units of a record. -/
def generate (record : Record) (options : GenerateOptions) : Except GenerationError Cpp.Units :=
  (buildModule record options).map fun m => Cpp.units m options.unit

end KeyedReflection
