import KeyedReflection.Module.Basic

/-!
# Building the module of a record

A module is built from a record and its keyed leaves.  The functions come in a fixed order: the six
that every module has, then one for each parse spec and one for each format spec.  A spec must not
name its function like one of the fixed functions, like another of the module's own names, or like
the function of an earlier spec.
-/

namespace KeyedReflection

/-- Why a record has no module. -/
inductive SynthesisFault where
  | nameTaken (spec : ConversionSpec)
  | keyClash (clash : KeyClash)
  deriving DecidableEq, Repr

namespace ReflectionModule

/-- The names that a module uses for its own functions and constants. -/
def reservedNames : List String :=
  ["get", "set", "unset", "diff", "apply", "type", "key_index", "sorted_keys", "keys"]

/-- The first spec whose function name is in a list or is the name of an earlier spec. -/
def firstTaken? (taken : List String) : List ConversionSpec → Option ConversionSpec
  | [] => none
  | spec :: rest =>
    if spec.functionName ∈ taken then some spec
    else firstTaken? (spec.functionName :: taken) rest

/-- The constants for the leaves below a field, down to a number of levels.  A leaf without a key
gets no constant, and a group without constants is left out. -/
def keyItemsBelow (tree : FieldTree) (keyOf : SortedMap String) :
    Nat → String → FieldId → List KeyItem
  | 0, _, _ => []
  | levels + 1, above, id =>
    (tree.members id).filterMap fun member =>
      let dotted := Text.joinAfter "." above (tree.identifier member)
      match tree.field? member with
      | some (.leaf leaf) =>
        (keyOf.find? dotted).map fun key => .constant leaf.identifier key leaf.doc
      | some (.node node) =>
        match keyItemsBelow tree keyOf levels dotted member with
        | [] => none
        | items => some (.group node.identifier node.doc items)
      | none => none

/-- The constants for all keyed leaves of a tree. -/
def keyItems (tree : FieldTree) (keyed : List KeyedLeaf) : List KeyItem :=
  let keyOf := SortedMap.ofList (keyed.map fun leaf => (leaf.dottedId, leaf.key))
  keyItemsBelow tree keyOf tree.size "" FieldTree.rootId

/-- Failure on unknown keys only. -/
def throwsUnknown : Throws := ⟨true, false⟩

/-- Failure on unknown keys and on keys of fields that are not optional. -/
def throwsBoth : Throws := ⟨true, true⟩

/-- A switch over every key of a table. -/
def totalSwitch (table : DispatchTable) (body : KeyedLeaf → Statement) : FunctionBody :=
  .switch (table.switch .all .unreachable body)

/-- The function that gives the value of a field. -/
def getFunction (table : DispatchTable) : ModuleFunction where
  kind := .get
  name := "get"
  doc := ["Get a value by key."]
  throws := throwsUnknown
  body := totalSwitch table fun entry => .returnField entry.dottedId

/-- The function that stores a value in a field. -/
def setFunction (table : DispatchTable) : ModuleFunction where
  kind := .set
  name := "set"
  doc := ["Set a value by key."]
  throws := throwsUnknown
  body := totalSwitch table fun entry => .assignField entry.dottedId entry.leaf.canonicalType

/-- The function that leaves an optional field without a value. -/
def unsetFunction (table : DispatchTable) : ModuleFunction where
  kind := .unset
  name := "unset"
  doc := ["Unset an optional value by key."]
  throws := throwsBoth
  body := .switch (table.switch .optionalOnly .notOptional fun entry => .resetField entry.dottedId)

/-- The function that gives the differences between two records. -/
def diffFunction (table : DispatchTable) : ModuleFunction where
  kind := .diff
  name := "diff"
  doc := ["Construct a `key->variant` map of differences between two instances."]
  throws := ⟨false, false⟩
  body := .diff (table.entries.toList.map fun entry => ⟨entry.dottedId, entry.key⟩)

/-- The function that applies a patch. -/
def applyFunction : ModuleFunction where
  kind := .apply
  name := "apply"
  doc := ["Apply a diff (`key->variant` map) to an instance."]
  throws := throwsBoth
  body := .apply

/-- The function that gives the declared type of a field. -/
def typeFunction (table : DispatchTable) (valueType : ValueType) : ModuleFunction where
  kind := .type
  name := "type"
  doc :=
    ["Retrieve the type name of a value by key.",
      "Possible return values are: " ++
        Text.join ", " (valueType.declaredTypes.map fun name => "`\"" ++ name ++ "\"`") ++ "."]
  throws := throwsUnknown
  body := totalSwitch table fun entry => .returnTypeName entry.leaf.declaredType

def parseFunction (table : DispatchTable) (spec : ConversionSpec) : ModuleFunction where
  kind := .parse spec
  name := spec.functionName
  doc := ["Parse a value for a given key from `" ++ spec.carrierType ++ "`."]
  throws := throwsUnknown
  body := totalSwitch table fun entry => .returnParsed (spec.userFunctionFor entry.leaf.declaredType)

def formatFunction (table : DispatchTable) (spec : ConversionSpec) : ModuleFunction where
  kind := .format spec
  name := spec.functionName
  doc := ["Format a value for a given key to `" ++ spec.carrierType ++ "`."]
  throws := throwsUnknown
  body := totalSwitch table fun entry =>
    .returnFormatted (spec.userFunctionFor entry.leaf.declaredType) entry.leaf.canonicalType

/-- The functions over a table, in order. -/
def functionsOver (table : DispatchTable) (valueType : ValueType)
    (parsers formatters : List ConversionSpec) : List ModuleFunction :=
  [getFunction table, setFunction table, unsetFunction table, diffFunction table, applyFunction,
    typeFunction table valueType] ++
    parsers.map (parseFunction table) ++ formatters.map (formatFunction table)

/-- Build the module of a record from its keyed leaves. -/
def synthesize (record : Record) (keyed : List KeyedLeaf)
    (parsers formatters : List ConversionSpec) : Except SynthesisFault ReflectionModule :=
  match firstTaken? reservedNames (parsers ++ formatters) with
  | some spec => .error (.nameTaken spec)
  | none =>
    match DispatchTable.build keyed with
    | .error clash => .error (.keyClash clash)
    | .ok table =>
      let valueType := ValueType.ofLeaves table.entries.toList
      .ok {
        recordName := record.qualifiedName
        scope := record.qualifiedName ++ "_io"
        table
        valueType
        keys := keyItems record.tree keyed
        functions := functionsOver table valueType parsers formatters }

end ReflectionModule
end KeyedReflection
