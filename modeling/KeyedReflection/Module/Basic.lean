import KeyedReflection.Conversion
import KeyedReflection.Dispatch
import KeyedReflection.Key

/-!
# Modules and their values

A reflection module offers the fields of a record by key.  It is a value that can be written as C++ and run,
and so is the union type of its values.
-/

namespace KeyedReflection

/-!
## The value type of a module

All fields of a record are read and written through one union type.  It has an alternative for each
canonical type among the fields.  The declared types that stand for a canonical type are kept with
its alternative, for documentation.
-/

/-- A finite set of texts in ascending order. -/
abbrev SortedSet := SortedMap Unit

/-- Canonical types with the declared types seen for them. -/
structure ValueType where
  alternatives : SortedMap SortedSet

namespace ValueType

/-- Take up the type of one more leaf. -/
def addLeaf (valueType : ValueType) (leaf : Leaf) : ValueType :=
  let declared := (valueType.alternatives.find? leaf.canonicalType).getD SortedMap.empty
  ⟨valueType.alternatives.insert leaf.canonicalType (declared.insert leaf.declaredType ())⟩

/-- The union over all leaves. -/
def ofLeaves (leaves : List KeyedLeaf) : ValueType :=
  leaves.foldl (fun valueType keyed => valueType.addLeaf keyed.leaf) ⟨SortedMap.empty⟩

/-- The declared types of an alternative, when they say more than the canonical type. -/
def aliasNote? (valueType : ValueType) (canonicalType : String) : Option String :=
  (valueType.alternatives.find? canonicalType).bind fun declared =>
    if declared.keys = [canonicalType] then none else some (Text.join ", " declared.keys)

/-- Every declared type, in ascending order. -/
def declaredTypes (valueType : ValueType) : List String :=
  (valueType.alternatives.entries.foldl
    (fun all (_, declared) => declared.keys.foldl (fun all name => all.insert name ()) all)
    (SortedMap.empty : SortedSet)).keys

end ValueType

/-!
## Reflection modules

A module describes the reflection of one record independently of how it is written down: the
constants that name its keys, the type of its values, and functions that get, set, unset, compare,
patch and convert fields by key.  It can be written as C++ and it can be run.
-/

/-- What a branch of a switch does. -/
inductive Statement where
  /-- Give the value of the field. -/
  | returnField (id : String)
  /-- Take a value of the canonical type and store it. -/
  | assignField (id canonicalType : String)
  /-- Leave the optional field without a value. -/
  | resetField (id : String)
  | returnTypeName (declaredType : String)
  /-- Give what the user function makes of the representation. -/
  | returnParsed (function : String)
  /-- Give what the user function makes of a value of the canonical type. -/
  | returnFormatted (function canonicalType : String)
  deriving DecidableEq, Repr

/-- A statement with its parts by name. -/
def Statement.describe : Statement → String
  | .returnField id => "ReturnField \x7b id: " ++ Text.quote id ++ " \x7d"
  | .assignField id canonicalType =>
    "AssignField \x7b id: " ++ Text.quote id ++ ", canonical_type: " ++ Text.quote canonicalType ++
      " \x7d"
  | .resetField id => "ResetField \x7b id: " ++ Text.quote id ++ " \x7d"
  | .returnTypeName declaredType =>
    "ReturnTypeName \x7b declared_type: " ++ Text.quote declaredType ++ " \x7d"
  | .returnParsed function => "ReturnParsed \x7b function: " ++ Text.quote function ++ " \x7d"
  | .returnFormatted function canonicalType =>
    "ReturnFormatted \x7b function: " ++ Text.quote function ++ ", canonical_type: " ++
      Text.quote canonicalType ++ " \x7d"

/-- The kind and the parts of a statement, by which statements are ordered. -/
def Statement.parts : Statement → List String
  | .returnField id => ["return", id]
  | .assignField id canonicalType => ["assign", id, canonicalType]
  | .resetField id => ["reset", id]
  | .returnTypeName declaredType => ["type", declaredType]
  | .returnParsed function => ["parsed", function]
  | .returnFormatted function canonicalType => ["formatted", function, canonicalType]

/-- A statement is determined by its kind and its parts. -/
theorem Statement.parts_injective {left right : Statement} (same : left.parts = right.parts) :
    left = right := by
  cases left <;> cases right <;> simp_all [Statement.parts]

instance : Ord Statement := ⟨compareOn Statement.parts⟩

instance : Std.TransOrd Statement :=
  inferInstanceAs (Std.TransCmp (compareOn Statement.parts))

instance : Std.LawfulEqOrd Statement where
  eq_of_compare same := Statement.parts_injective (Std.LawfulEqOrd.eq_of_compare same)

/-- A field that is compared, with its key. -/
structure DiffField where
  id : String
  key : String
  deriving DecidableEq, Repr

/-- What a function does. -/
inductive FunctionBody where
  /-- Look the key up and do what its branch says. -/
  | switch (switch : Switch Statement)
  /-- Compare every field, in the order of the table. -/
  | diff (fields : List DiffField)
  /-- Set or unset every entry of a patch. -/
  | apply
  deriving DecidableEq, Repr

inductive FunctionKind where
  | get
  | set
  | unset
  | diff
  | apply
  | type
  | parse (spec : ConversionSpec)
  | format (spec : ConversionSpec)
  deriving DecidableEq, Repr

/-- The failures that a function may raise. -/
structure Throws where
  unknownKey : Bool
  nonOptionalKey : Bool
  deriving DecidableEq, Repr

structure ModuleFunction where
  kind : FunctionKind
  name : String
  /-- The lines of its documentation, without those on failures. -/
  doc : List String
  throws : Throws
  body : FunctionBody
  deriving DecidableEq, Repr

/-- A constant that names a key, or a group of them for a sub-record. -/
inductive KeyItem where
  | constant (name key doc : String)
  | group (name doc : String) (items : List KeyItem)

/-- The reflection of a record. -/
structure ReflectionModule where
  /-- The qualified name of the record. -/
  recordName : String
  /-- The namespace that the generated code lives in. -/
  scope : String
  table : DispatchTable
  valueType : ValueType
  keys : List KeyItem
  functions : List ModuleFunction

namespace ReflectionModule

def function? (m : ReflectionModule) (kind : FunctionKind) : Option ModuleFunction :=
  m.functions.find? fun f => f.kind == kind

def functionNamed? (m : ReflectionModule) (name : String) : Option ModuleFunction :=
  m.functions.find? fun f => f.name == name

end ReflectionModule

end KeyedReflection
