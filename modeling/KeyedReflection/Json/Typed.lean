import KeyedReflection.Json.Reader
import KeyedReflection.Json.Skipping
import KeyedReflection.Json.Value
import KeyedReflection.Text.Basic
import KeyedReflection.Text.Quoted

/-!
# Documents of an expected shape

Schema entries and manifests are JSON of a fixed shape.  A document that is JSON but not of that shape
is refused with a `ShapeFault`, which says what was found and what was expected.
-/

namespace KeyedReflection
namespace Json

/-- What a fault says was found. -/
inductive Found where
  | null
  | bool (value : Bool)
  | integer (value : Int)
  | double (value : Binary64)
  | string (value : String)
  | sequence
  | map
  deriving DecidableEq, Repr

def Value.found : Value → Found
  | .null => .null
  | .bool b => .bool b
  | .integer n => .integer n
  | .double x => .double x
  | .string s => .string s
  | .array _ => .sequence
  | .object _ => .map

/-- The words for what was found. -/
def Found.describe : Found → String
  | .null => "null"
  | .bool b => "boolean `" ++ toString b ++ "`"
  | .integer n => "integer `" ++ toString n ++ "`"
  | .double x => "floating point `" ++ x.render ++ "`"
  | .string s => "string " ++ Text.quote s
  | .sequence => "sequence"
  | .map => "map"

/-- How a document departs from its shape. -/
inductive ShapeFault where
  | invalidType (found : Found) (expected : String)
  | invalidLength (length : Nat) (expected : String)
  | missingField (name : String)
  | duplicateField (name : String)
  | unknownField (name : String) (expected : List String)
  | unknownVariant (name : String) (expected : List String)
  deriving DecidableEq, Repr

/-- A name between backquotes. -/
def ticked (name : String) : String :=
  "`" ++ name ++ "`"

/-- The words for the names that would have been accepted. -/
def oneOf : List String → String
  | [first, second] => ticked first ++ " or " ++ ticked second
  | names => "one of " ++ Text.join ", " (names.map ticked)

def ShapeFault.message : ShapeFault → String
  | .invalidType found expected => "invalid type: " ++ found.describe ++ ", expected " ++ expected
  | .invalidLength length expected =>
    "invalid length " ++ toString length ++ ", expected " ++ expected
  | .missingField name => "missing field " ++ ticked name
  | .duplicateField name => "duplicate field " ++ ticked name
  | .unknownField name expected => "unknown field " ++ ticked name ++ ", expected " ++ oneOf expected
  | .unknownVariant name expected =>
    "unknown variant " ++ ticked name ++ ", expected " ++ oneOf expected

/-!
## Reading

A document whose shape is known is read while it is scanned, and the first thing amiss stops the
reader, whether the text is no JSON there or the shape is not the expected one.  What comes later in
the document is not looked at.

A `Form` describes a structure: its fields in order, which of them are required, and how the value of
each is read.  An object gives the fields by name and in any order.  An array gives them by position, and
what it lacks at the end must not be required.
-/

/-- Why a text is not a document of the expected shape. -/
inductive DocumentFault where
  | malformed (fault : Fault)
  | misshapen (fault : ShapeFault)
  deriving DecidableEq, Repr

/-- A fault of a document whose text is known. -/
inductive DocumentError where
  | malformed (error : SyntaxError)
  | misshapen (fault : ShapeFault)
  deriving DecidableEq, Repr

/-- The place of a fault in a text. -/
def DocumentFault.locate (text : List Char) : DocumentFault → DocumentError
  | .malformed fault => .malformed (fault.locate text)
  | .misshapen fault => .misshapen fault

def DocumentError.message : DocumentError → String
  | .malformed error => error.message
  | .misshapen fault => fault.message

/-- What a step of a typed reader gives. -/
abbrev TypedStep (α : Type) := Except DocumentFault (α × List Char)

/-- A step that knows no shape, as a step of a typed reader. -/
def untyped {α : Type} (step : Except Fault α) : Except DocumentFault α :=
  step.mapError .malformed

/-- The fault of a value that is not of the expected type.  A keyword, a number or a string is read to
say what was found, and may turn out not to be JSON; an array or an object is not entered. -/
def wrongType (expected : String) (cs : List Char) : DocumentFault :=
  match skipBlank cs with
  | '[' :: _ => .misshapen (.invalidType .sequence expected)
  | '\x7b' :: _ => .misshapen (.invalidType .map expected)
  | cs =>
    match readValue (cs.length + 2) 0 cs with
    | .ok (value, _) => .misshapen (.invalidType value.found expected)
    | .error fault => .malformed fault

/-! ### Values -/

def readText (expected : String) (cs : List Char) : TypedStep String :=
  match skipBlank cs with
  | '"' :: rest => untyped (readString rest)
  | cs => .error (wrongType expected cs)

/-- Read a truth value. -/
def readFlag (cs : List Char) : TypedStep Bool :=
  match skipBlank cs with
  | 't' :: rest => untyped ((readKeyword ['r', 'u', 'e'] rest).map fun rest => (true, rest))
  | 'f' :: rest => untyped ((readKeyword ['a', 'l', 's', 'e'] rest).map fun rest => (false, rest))
  | cs => .error (wrongType "a boolean" cs)

/-- Read null. -/
def readUnitValue (cs : List Char) : TypedStep Unit :=
  match skipBlank cs with
  | 'n' :: rest => untyped ((readKeyword ['u', 'l', 'l'] rest).map fun rest => ((), rest))
  | cs => .error (wrongType "unit" cs)

/-- Read a value or null. -/
def readOptional {α : Type} (read : List Char → TypedStep α) (cs : List Char) :
    TypedStep (Option α) :=
  match skipBlank cs with
  | 'n' :: rest => untyped ((readKeyword ['u', 'l', 'l'] rest).map fun rest => (none, rest))
  | cs => (read cs).map fun (value, rest) => (some value, rest)

/-- Read the items of a list up to its closing bracket, after those already read.  The first argument
bounds their number. -/
def readListItems {α : Type} (read : List Char → TypedStep α) :
    Nat → Bool → List α → List Char → TypedStep (List α)
  | 0, _, _, cs => .error (.malformed (.before .endInList cs))
  | steps + 1, isFirst, items, cs =>
    match nextItem isFirst cs with
    | .error fault => .error (.malformed fault)
    | .ok none => .ok (items.reverse, (skipBlank cs).drop 1)
    | .ok (some cs) =>
      match read cs with
      | .error fault => .error fault
      | .ok (item, rest) => readListItems read steps false (item :: items) rest

def readList {α : Type} (read : List Char → TypedStep α) (cs : List Char) : TypedStep (List α) :=
  match skipBlank cs with
  | '[' :: rest => readListItems read (rest.length + 1) true [] rest
  | cs => .error (wrongType "a sequence" cs)

/-- Read the name of one of some alternatives, behind its opening quote. -/
def readVariantName {α : Type} (alternatives : List (String × α)) (cs : List Char) : TypedStep α :=
  match untyped (readString cs) with
  | .error fault => .error fault
  | .ok (name, rest) =>
    match alternatives.lookup name with
    | some value => .ok (value, rest)
    | none => .error (.misshapen (.unknownVariant name (alternatives.map Prod.fst)))

/-- Read one of some alternatives: its name, or an object whose only member has its name and the value
null. -/
def readVariant {α : Type} (alternatives : List (String × α)) (cs : List Char) : TypedStep α :=
  match skipBlank cs with
  | '"' :: rest => readVariantName alternatives rest
  | '\x7b' :: rest =>
    match nextMember true rest with
    | .error fault => .error (.malformed fault)
    | .ok none => .error (.malformed (.at .expectedValue (skipBlank rest)))
    | .ok (some name) =>
      match readVariantName alternatives name with
      | .error fault => .error fault
      | .ok (value, rest) =>
        match (untyped (skipColon rest)).bind readUnitValue with
        | .error fault => .error fault
        | .ok (_, rest) =>
          match skipBlank rest with
          | '\x7d' :: rest => .ok (value, rest)
          | [] => .error (.malformed (.before .endInObject []))
          | other => .error (.malformed (.at .expectedValue other))
  | [] => .error (.malformed (.before .endInValue []))
  | other => .error (.malformed (.at .expectedValue other))

/-! ### Structures -/

/-- The form of a structure that is read field by field. -/
structure Form (Field Result : Type) where
  /-- What a fault says was expected. -/
  expected : String
  fields : List Field
  name : Field → String
  isRequired : Field → Bool
  /-- Read the value of a field into what was read so far. -/
  read : Field → Result → List Char → TypedStep Result
  /-- Members of other names are passed over. -/
  ignoresOthers : Bool

namespace Form

variable {Field Result : Type} [DecidableEq Field]

def field? (form : Form Field Result) (name : String) : Option Field :=
  form.fields.find? fun field => form.name field == name

/-- The first required field that is not among those given. -/
def missing? (form : Form Field Result) (given : List Field) : Option Field :=
  form.fields.find? fun field => form.isRequired field && !given.contains field

/-- Read the member of a given name, behind the name. -/
def readMember (form : Form Field Result) (name : String) (given : List Field) (result : Result)
    (cs : List Char) : TypedStep (List Field × Result) :=
  match form.field? name with
  | some field =>
    if given.contains field then .error (.misshapen (.duplicateField name))
    else
      match (untyped (skipColon cs)).bind (form.read field result) with
      | .error fault => .error fault
      | .ok (result, rest) => .ok ((field :: given, result), rest)
  | none =>
    if form.ignoresOthers then
      match untyped ((skipColon cs).bind skipValue) with
      | .error fault => .error fault
      | .ok rest => .ok ((given, result), rest)
    else .error (.misshapen (.unknownField name (form.fields.map form.name)))

/-- Read the members of an object up to its closing brace.  The first argument bounds their number. -/
def readMembers (form : Form Field Result) :
    Nat → Bool → List Field → Result → List Char → TypedStep Result
  | 0, _, _, _, cs => .error (.malformed (.before .endInObject cs))
  | steps + 1, isFirst, given, result, cs =>
    match nextMember isFirst cs with
    | .error fault => .error (.malformed fault)
    | .ok none =>
      match form.missing? given with
      | some field => .error (.misshapen (.missingField (form.name field)))
      | none => .ok (result, (skipBlank cs).drop 1)
    | .ok (some cs) =>
      match untyped (readString cs) with
      | .error fault => .error fault
      | .ok (name, cs) =>
        match form.readMember name given result cs with
        | .error fault => .error fault
        | .ok ((given, result), rest) => form.readMembers steps false given result rest

/-- Accept the end of an array all of whose places are filled. -/
def closeArray (cs : List Char) : Except Fault (List Char) :=
  match skipBlank cs with
  | ']' :: rest => .ok rest
  | ',' :: rest =>
    match skipBlank rest with
    | ']' :: after => .error (.at .trailingComma (']' :: after))
    | other => .error (.at .trailingCharacters other)
  | [] => .error (.before .endInList [])
  | other => .error (.at .trailingCharacters other)

/-- What a fault says was expected of an array. -/
def expectedLength (form : Form Field Result) : String :=
  form.expected ++ " with " ++ toString form.fields.length ++ " elements"

/-- Read the values of the fields that are left from the items of an array, up to its closing bracket. -/
def readPlaces (form : Form Field Result) :
    List Field → Bool → Result → List Char → TypedStep Result
  | [], _, result, cs => untyped ((closeArray cs).map fun rest => (result, rest))
  | field :: fields, isFirst, result, cs =>
    match nextItem isFirst cs with
    | .error fault => .error (.malformed fault)
    | .ok none =>
      match (field :: fields).findIdx? form.isRequired with
      | some later =>
        let place := form.fields.length - (fields.length + 1) + later
        .error (.misshapen (.invalidLength place form.expectedLength))
      | none => .ok (result, (skipBlank cs).drop 1)
    | .ok (some cs) =>
      match form.read field result cs with
      | .error fault => .error fault
      | .ok (result, rest) => form.readPlaces fields false result rest

/-- Read a structure, with the values that its fields have when they are not given. -/
def readFrom (form : Form Field Result) (default : Result) (cs : List Char) : TypedStep Result :=
  match skipBlank cs with
  | '[' :: rest => form.readPlaces form.fields true default rest
  | '\x7b' :: rest => form.readMembers (rest.length + 1) true [] default rest
  | cs => .error (wrongType form.expected cs)

/-- The structure that a whole text holds. -/
def parse (form : Form Field Result) (default : Result) (text : String) :
    Except DocumentError Result :=
  match form.readFrom default text.toList with
  | .error fault => .error (fault.locate text.toList)
  | .ok (result, rest) =>
    match expectEnd rest with
    | .error fault => .error ((DocumentFault.malformed fault).locate text.toList)
    | .ok _ => .ok result

end Form
end Json

end KeyedReflection
