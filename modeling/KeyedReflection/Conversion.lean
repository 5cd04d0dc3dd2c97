import KeyedReflection.Text.Basic

/-!
# Conversions

A conversion spec `carrier;function;template` asks for a generated function that parses values from,
or formats them to, a carrier type.  The generated function calls a user function whose name is the
template with the type of the field in place of its one percent sign; since a type spelling is
rarely an identifier, it is made one by `sanitize` first.
-/

namespace KeyedReflection

/-- A parse or format rule. -/
structure ConversionSpec where
  carrierType : String
  functionName : String
  /-- The name of the user function, with a percent sign in place of the type. -/
  template : String
  deriving DecidableEq, Repr

/-- Why a text is not a conversion spec, or cannot be used as one. -/
inductive ConversionCause where
  | notThreeParts
  | emptyCarrier
  | functionNotIdentifier
  | templateNotUnary
  /-- Another function of the module has the name. -/
  | nameTaken (name : String)
  deriving DecidableEq, Repr

/-- A conversion spec that is refused, and why. -/
structure ConversionFault where
  spec : String
  cause : ConversionCause
  deriving DecidableEq, Repr

/-- Turn one character after another into a part of an identifier.  The flag tells that the
character before was replaced, so that a run of such characters leaves one underscore. -/
def sanitizeFrom : Bool → List Char → List Char
  | _, [] => []
  | inRun, c :: cs =>
    if Text.isWordCharacter c then c :: sanitizeFrom false cs
    else if inRun then sanitizeFrom true cs
    else '_' :: sanitizeFrom true cs

/-- A type spelling as part of an identifier: every run of other characters than letters, digits and
underscores becomes one underscore, and a digit in front gets an underscore before it. -/
def sanitize (spelling : String) : String :=
  let body := sanitizeFrom false spelling.toList
  match spelling.toList with
  | c :: _ => .ofList (if c.isDigit then '_' :: body else body)
  | [] => ""

namespace ConversionSpec

/-- Read a spec: three parts between semicolons, without the white space around them. -/
def parse (spec : String) : Except ConversionFault ConversionSpec :=
  match (Text.splitOn ';' spec).map Text.trim with
  | [carrierType, functionName, template] =>
    if carrierType = "" then .error ⟨spec, .emptyCarrier⟩
    else if !Text.isIdentifier functionName then .error ⟨spec, .functionNotIdentifier⟩
    else if template.toList.count '%' ≠ 1 then .error ⟨spec, .templateNotUnary⟩
    else .ok ⟨carrierType, functionName, template⟩
  | _ => .error ⟨spec, .notThreeParts⟩

def render (spec : ConversionSpec) : String :=
  spec.carrierType ++ ";" ++ spec.functionName ++ ";" ++ spec.template

/-- The user function for a field of the given type. -/
def userFunctionFor (spec : ConversionSpec) (declaredType : String) : String :=
  .ofList (spec.template.toList.flatMap fun c =>
    if c = '%' then (sanitize declaredType).toList else [c])

end ConversionSpec
end KeyedReflection
