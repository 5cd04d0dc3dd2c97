import KeyedReflection.Json.Value
import KeyedReflection.Module.Basic

/-!
# Running a module

A module can be run on records whose fields hold JSON values.  A value that goes in or out is tagged
with the canonical type that it belongs to, as a value of the module's value type would be.

A `RecordState` maps dotted field ids to field contents, where an optional field may be without a
value.  A patch maps keys to values, or to nothing for a field to be unset.
-/

namespace KeyedReflection

open Json (Value)

/-- A value of a module's value type. -/
structure TaggedValue where
  canonicalType : String
  value : Value

/-- What to do with keys: set the value, or unset. -/
abbrev Patch := SortedMap (Option TaggedValue)

/-- Why an operation on a key failed. -/
inductive KeyFault where
  | unknownKey (key : String)
  | notOptional (key : String)
  | typeMismatch (key expected found : String)
  | missingConversion (key function : String)
  deriving DecidableEq, Repr

def KeyFault.message : KeyFault → String
  | .unknownKey key => "unknown key: " ++ key
  | .notOptional key => "non-optional key: " ++ key
  | .typeMismatch key expected found =>
    "type mismatch for key " ++ key ++ ": expected " ++ expected ++ ", got " ++ found
  | .missingConversion key function =>
    "no user function " ++ function ++ " registered for key " ++ key

/-- The key that a fault is about. -/
def KeyFault.key : KeyFault → String
  | .unknownKey key => key
  | .notOptional key => key
  | .typeMismatch key _ _ => key
  | .missingConversion key _ => key

/-- Why an operation gave no result. -/
inductive RunFault where
  | key (fault : KeyFault)
  /-- The function that was run has a statement of another kind for the key. -/
  | mismatchedStatement (key : String) (statement : Statement)
  deriving DecidableEq, Repr

def RunFault.message : RunFault → String
  | .key fault => fault.message
  | .mismatchedStatement name statement =>
    "internal error: entered unreachable code: key " ++ Text.quote name ++
      " dispatched to mismatched statement " ++ statement.describe

/-! ## Records -/

/-- The contents of a record's fields by dotted id. -/
abbrev RecordState := SortedMap (Option Value)

namespace RecordState

/-- A new record: optional fields have no value, and other fields hold null. -/
def new (m : ReflectionModule) : RecordState :=
  SortedMap.ofList (m.table.entries.toList.map fun entry =>
    (entry.dottedId, if entry.leaf.isOptional then none else some .null))

/-- The value of a field, if the record has the field and the field has a value. -/
def field? (state : RecordState) (id : String) : Option Value :=
  (state.find? id).join

/-- Whether two fields have the same contents. -/
def sameContents : Option Value → Option Value → Bool
  | none, none => true
  | some left, some right => left.same right
  | _, _ => false

/-- Whether two records have the same fields with the same contents. -/
def same (left right : RecordState) : Bool :=
  left.sameBy sameContents right

end RecordState

/-! ## Running -/

/-- A module with the user functions that its conversions call. -/
structure Interpreter where
  module : ReflectionModule
  userFunctions : SortedMap (Value → Value)

namespace Interpreter

/-- A module without any user functions. -/
def new (m : ReflectionModule) : Interpreter :=
  ⟨m, .empty⟩

/-- Add a user function under a name. -/
def register (interpreter : Interpreter) (name : String) (function : Value → Value) : Interpreter :=
  { interpreter with userFunctions := interpreter.userFunctions.insert name function }

/-- Look a key up in the table, and then its branch in a switch. -/
def runSwitch (interpreter : Interpreter) (switch : Switch Statement) (key : String) :
    Except KeyFault (Nat × Statement) :=
  match interpreter.module.table.indexOf? key with
  | none => .error (.unknownKey key)
  | some index =>
    match switch.branchFor? index, switch.default with
    | some branch, _ => .ok (index, branch.body)
    | none, .notOptional => .error (.notOptional key)
    | none, .unreachable => .error (.unknownKey key)

/-- Run the body of a function up to the statement for a key. -/
def runBody (interpreter : Interpreter) (body : FunctionBody) (key : String) :
    Except KeyFault (Nat × Statement) :=
  match body with
  | .switch switch => interpreter.runSwitch switch key
  | _ => .error (.unknownKey key)

/-- The statement of the function of a kind for a key. -/
def dispatch (interpreter : Interpreter) (kind : FunctionKind) (key : String) :
    Except RunFault (Nat × Statement) :=
  match interpreter.module.function? kind with
  | none => .error (.key (.unknownKey key))
  | some f => (interpreter.runBody f.body key).mapError .key

/-- The statement of the function of a name for a key. -/
def dispatchNamed (interpreter : Interpreter) (name key : String) :
    Except RunFault (Nat × Statement) :=
  match interpreter.module.functionNamed? name with
  | none => .error (.key (.missingConversion key name))
  | some f => (interpreter.runBody f.body key).mapError .key

/-- The canonical type of the entry at a position. -/
def canonicalTypeAt (interpreter : Interpreter) (index : Nat) : String :=
  match interpreter.module.table.entries[index]? with
  | some entry => entry.leaf.canonicalType
  | none => ""

/-- Accept a value of the expected canonical type only. -/
def narrow (key expected : String) (value : TaggedValue) : Except RunFault Value :=
  if value.canonicalType = expected then .ok value.value
  else .error (.key (.typeMismatch key expected value.canonicalType))

def callUser (interpreter : Interpreter) (key function : String) (argument : Value) :
    Except RunFault Value :=
  match interpreter.userFunctions.find? function with
  | some f => .ok (f argument)
  | none => .error (.key (.missingConversion key function))

/-- Get the value of a field by key. -/
def get (interpreter : Interpreter) (state : RecordState) (key : String) :
    Except RunFault (Option TaggedValue) :=
  match interpreter.dispatch .get key with
  | .error fault => .error fault
  | .ok (index, .returnField id) =>
    .ok ((state.field? id).map fun value => ⟨interpreter.canonicalTypeAt index, value⟩)
  | .ok (_, statement) => .error (.mismatchedStatement key statement)

/-- Set a field by key to a value of its canonical type. -/
def set (interpreter : Interpreter) (state : RecordState) (key : String) (value : TaggedValue) :
    Except RunFault RecordState :=
  match interpreter.dispatch .set key with
  | .error fault => .error fault
  | .ok (_, .assignField id canonicalType) =>
    (narrow key canonicalType value).map fun value => state.insert id (some value)
  | .ok (_, statement) => .error (.mismatchedStatement key statement)

/-- Leave an optional field without a value, by key. -/
def unset (interpreter : Interpreter) (state : RecordState) (key : String) :
    Except RunFault RecordState :=
  match interpreter.dispatch .unset key with
  | .error fault => .error fault
  | .ok (_, .resetField id) => .ok (state.insert id none)
  | .ok (_, statement) => .error (.mismatchedStatement key statement)

/-- The declared type of a field by key. -/
def typeOf (interpreter : Interpreter) (key : String) : Except RunFault String :=
  match interpreter.dispatch .type key with
  | .error fault => .error fault
  | .ok (_, .returnTypeName declaredType) => .ok declaredType
  | .ok (_, statement) => .error (.mismatchedStatement key statement)

def canonicalTypeOf (interpreter : Interpreter) (key : String) : String :=
  match interpreter.module.table.indexOf? key with
  | some index => interpreter.canonicalTypeAt index
  | none => ""

/-- Take up a field in a patch if two records differ in it. -/
def diffField (interpreter : Interpreter) (current previous : RecordState) (patch : Patch)
    (field : DiffField) : Patch :=
  let now := current.field? field.id
  if RecordState.sameContents now (previous.field? field.id) then patch
  else
    patch.insert field.key (now.map fun value => ⟨interpreter.canonicalTypeOf field.key, value⟩)

/-- The patch from one record to another: the fields in which they differ, with what they hold in the
current record. -/
def diff (interpreter : Interpreter) (current previous : RecordState) : Patch :=
  match (interpreter.module.function? .diff).map ModuleFunction.body with
  | some (.diff fields) => fields.foldl (interpreter.diffField current previous) .empty
  | _ => .empty

/-- Do what an entry of a patch says. -/
def applyEntry (interpreter : Interpreter) (state : RecordState) (key : String) :
    Option TaggedValue → Except RunFault RecordState
  | some value => interpreter.set state key value
  | none => interpreter.unset state key

/-- Apply entries from first to last, up to the first that fails. -/
def applyEntries (interpreter : Interpreter) (state : RecordState) :
    List (String × Option TaggedValue) → RecordState × Except RunFault Unit
  | [] => (state, .ok ())
  | (key, value) :: rest =>
    match interpreter.applyEntry state key value with
    | .ok state => interpreter.applyEntries state rest
    | .error fault => (state, .error fault)

/-- Apply a patch in key order, up to the first entry that fails.  What was applied before stays. -/
def apply (interpreter : Interpreter) (state : RecordState) (patch : Patch) :
    RecordState × Except RunFault Unit :=
  interpreter.applyEntries state patch.entries

/-- Run the parse function of a name. -/
def parse (interpreter : Interpreter) (name key : String) (representation : Value) :
    Except RunFault TaggedValue :=
  match interpreter.dispatchNamed name key with
  | .error fault => .error fault
  | .ok (index, .returnParsed function) =>
    (interpreter.callUser key function representation).map fun value =>
      ⟨interpreter.canonicalTypeAt index, value⟩
  | .ok (_, statement) => .error (.mismatchedStatement key statement)

/-- Run the format function of a name. -/
def format (interpreter : Interpreter) (name key : String) (value : TaggedValue) :
    Except RunFault Value :=
  match interpreter.dispatchNamed name key with
  | .error fault => .error fault
  | .ok (_, .returnFormatted function canonicalType) =>
    (narrow key canonicalType value).bind (interpreter.callUser key function)
  | .ok (_, statement) => .error (.mismatchedStatement key statement)

end Interpreter
end KeyedReflection
