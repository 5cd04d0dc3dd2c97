import KeyedReflection.Json.Reader
import KeyedReflection.Json.Typed
import KeyedReflection.Record
import KeyedReflection.Text.Quoted

/-!
# Schema documents

A schema document names records and describes each by entries, from which its field tree is built.
-/

namespace KeyedReflection

/-!
## Entries of a schema

A schema document maps qualified record names to objects, and these map dotted paths to entries.  An
entry with a type describes a leaf; an entry without one describes a sub-record, of which only the
comment counts.  The entry of the empty path documents the record itself.

An entry is written as an object.  When read, it may also be an array of its parts in their order.
-/

structure SchemaEntry where
  /-- The key of the leaf, for information only. -/
  key : Option String
  type : Option String
  canonicalType : Option String
  isOptional : Option Bool
  hasDefault : Option Bool
  /-- The documentation, line by line. -/
  comment : List String
  deriving DecidableEq, Repr

namespace SchemaEntry

open Json (Value ShapeFault Members)

/-- An entry that says nothing. -/
def blank : SchemaEntry :=
  ⟨none, none, none, none, none, []⟩

/-- A text, or nothing for `null`. -/
def readText : Value → Except ShapeFault (Option String)
  | .null => .ok none
  | .string s => .ok (some s)
  | value => .error (.invalidType value.found "a string")

/-- A truth value, or nothing for `null`. -/
def readFlag : Value → Except ShapeFault (Option Bool)
  | .null => .ok none
  | .bool b => .ok (some b)
  | value => .error (.invalidType value.found "a boolean")

/-- A line of a comment. -/
def readLine : Value → Except ShapeFault String
  | .string s => .ok s
  | value => .error (.invalidType value.found "a string")

def readComment : Value → Except ShapeFault (List String)
  | .array items => items.mapM readLine
  | value => .error (.invalidType value.found "a sequence")

/-- Take up one part of an entry. -/
def readPart (entry : SchemaEntry) (name : String) (value : Value) :
    Except ShapeFault SchemaEntry :=
  match name with
  | "key" => (readText value).map fun key => { entry with key }
  | "type" => (readText value).map fun type => { entry with type }
  | "canonical_type" => (readText value).map fun canonicalType => { entry with canonicalType }
  | "is_optional" => (readFlag value).map fun isOptional => { entry with isOptional }
  | "has_default" => (readFlag value).map fun hasDefault => { entry with hasDefault }
  | "comment" => (readComment value).map fun comment => { entry with comment }
  | _ => .ok entry

/-- The names of the parts, in order. -/
def partNames : List String :=
  ["key", "type", "canonical_type", "is_optional", "has_default", "comment"]

/-- Read the parts of an entry from first to last. -/
def readParts (parts : Members) : Except ShapeFault SchemaEntry :=
  parts.foldlM (fun entry (name, value) => readPart entry name value) blank

def read : Value → Except ShapeFault SchemaEntry
  | .object members => readParts members
  | .array items =>
    match readParts (partNames.zip items) with
    | .error fault => .error fault
    | .ok entry =>
      if partNames.length < items.length then
        .error (.invalidLength items.length "fewer elements in array")
      else .ok entry
  | value => .error (.invalidType value.found "struct SchemaEntry")

/-- A part that is written only when it is there. -/
def writePart (name : String) (value : Option Value) : Members :=
  match value with
  | some value => [(name, value)]
  | none => []

def write (entry : SchemaEntry) : Value :=
  .object (writePart "key" (entry.key.map .string) ++ writePart "type" (entry.type.map .string) ++
    writePart "canonical_type" (entry.canonicalType.map .string) ++
    writePart "is_optional" (entry.isOptional.map .bool) ++
    writePart "has_default" (entry.hasDefault.map .bool) ++
    [("comment", .array (entry.comment.map .string))])

end SchemaEntry

/-!
## Records from schema entries

A record is built entry by entry.  The sub-records on the way to an entry are added when they have no
entry of their own yet.  An entry is refused when its path is malformed, when it passes through a leaf,
or when a leaf and another entry share one path.
-/

/-- Why an entry does not fit into a record. -/
inductive EntryCause where
  /-- The record itself has a type. -/
  | typedRecord
  | emptySegment
  /-- The path goes through a leaf. -/
  | throughLeaf (segment : String)
  /-- A leaf has the path of another field. -/
  | duplicateField
  /-- A sub-record has the path of a leaf. -/
  | collidesWithLeaf
  deriving DecidableEq, Repr

def EntryCause.message : EntryCause → String
  | .typedRecord => "the record itself cannot be a typed field"
  | .emptySegment => "empty path segment"
  | .throughLeaf segment => Text.quote segment ++ " is a leaf field"
  | .duplicateField => "duplicate field"
  | .collidesWithLeaf => "sub-record entry collides with a leaf field"

/-- Why a schema is refused. -/
inductive SchemaFault where
  | notAnObject
  | recordNotAnObject (name : String)
  | misshapenEntry (record path : String) (fault : Json.ShapeFault)
  | malformedName (name : String)
  | misplacedEntry (record path : String) (cause : EntryCause)
  deriving DecidableEq, Repr

def SchemaFault.message : SchemaFault → String
  | .notAnObject => "top level must be an object keyed by qualified record name"
  | .recordNotAnObject name => "record " ++ name ++ ": expected an object of field entries"
  | .misshapenEntry record path fault =>
    "record " ++ record ++ ", field " ++ Text.quote path ++ ": " ++ fault.message
  | .malformedName name => "malformed record name " ++ Text.quote name
  | .misplacedEntry record path cause => record ++ "." ++ path ++ ": " ++ cause.message

/-- The entries of a record, with their paths, in document order. -/
structure RecordSchema where
  qualifiedName : String
  entries : List (String × SchemaEntry)
  deriving DecidableEq, Repr

namespace RecordSchema

/-- The leaf that an entry of a given type describes. -/
def leafOf (identifier type : String) (entry : SchemaEntry) (doc : String) : Leaf where
  identifier := identifier
  declaredType := type
  canonicalType := entry.canonicalType.getD type
  isOptional := entry.isOptional.getD false
  hasDefault := entry.hasDefault.getD false
  doc := doc

/-- Go down to the sub-record at a path, adding the sub-records that are missing. -/
def descend (tree : FieldTree) (parent : FieldId) :
    List String → Except EntryCause (FieldTree × FieldId)
  | [] => .ok (tree, parent)
  | segment :: rest =>
    match tree.findMember parent segment with
    | some id =>
      if (tree.leaf? id).isSome then .error (.throughLeaf segment) else descend tree id rest
    | none =>
      let tree := tree.add parent (.node ⟨segment, "", []⟩)
      descend tree tree.last rest

/-- Put an entry in its place below a sub-record. -/
def placeEntry (tree : FieldTree) (parent : FieldId) (identifier : String) (entry : SchemaEntry)
    (doc : String) : Except EntryCause FieldTree :=
  match entry.type, tree.findMember parent identifier with
  | some _, some _ => .error .duplicateField
  | some type, none => .ok (tree.add parent (.leaf (leafOf identifier type entry doc)))
  | none, some id =>
    if (tree.leaf? id).isSome then .error .collidesWithLeaf else .ok (tree.setDoc id doc)
  | none, none => .ok (tree.add parent (.node ⟨identifier, doc, []⟩))

/-- Add one entry to a record. -/
def addEntry (tree : FieldTree) (path : String) (entry : SchemaEntry) :
    Except EntryCause FieldTree :=
  let doc := Text.join "\n" entry.comment
  if path = "" then
    if entry.type.isSome then .error .typedRecord else .ok (tree.setDoc FieldTree.rootId doc)
  else
    let segments := Text.splitOn '.' path
    if "" ∈ segments then .error .emptySegment
    else
      match descend tree FieldTree.rootId segments.dropLast with
      | .error cause => .error cause
      | .ok (tree, parent) => placeEntry tree parent (segments.getLastD "") entry doc

/-- Build a record from its entries. -/
def build (schema : RecordSchema) : Except SchemaFault Record :=
  let scopes := Text.splitScopes schema.qualifiedName
  if "" ∈ scopes then .error (.malformedName schema.qualifiedName)
  else
    let name := scopes.getLastD ""
    let tree := schema.entries.foldlM (fun tree (path, entry) =>
      (addEntry tree path entry).mapError fun cause =>
        SchemaFault.misplacedEntry schema.qualifiedName path cause) (FieldTree.new name "")
    tree.map fun tree => ⟨scopes.dropLast, name, .schema, tree⟩

end RecordSchema

/-!
## Documents

A schema document is an object of records by qualified name.  A name may start with a double colon,
which says no more than that the record is not in a namespace.  All entries are checked for their
shape when the document is read; records are built when they are asked for.
-/

/-- The records of a schema document, in document order. -/
structure SchemaDocument where
  records : List RecordSchema
  deriving DecidableEq, Repr

/-- Why a text is not a schema document. -/
inductive SchemaTextFault where
  | json (error : Json.SyntaxError)
  | schema (fault : SchemaFault)
  deriving DecidableEq, Repr

namespace SchemaDocument

open Json (Value)

def readEntries (record : String) (members : Json.Members) :
    Except SchemaFault (List (String × SchemaEntry)) :=
  members.mapM fun (path, value) =>
    match SchemaEntry.read value with
    | .ok entry => .ok (path, entry)
    | .error fault => .error (.misshapenEntry record path fault)

def readRecord (name : String) (value : Value) : Except SchemaFault RecordSchema :=
  match value with
  | .object members =>
    let qualifiedName := (Text.dropMark "::" name).getD name
    (readEntries qualifiedName members).map fun entries => ⟨qualifiedName, entries⟩
  | _ => .error (.recordNotAnObject name)

/-- Read a document that is already a JSON value. -/
def ofValue : Value → Except SchemaFault SchemaDocument
  | .object members =>
    (members.mapM fun (name, value) => readRecord name value).map fun records => ⟨records⟩
  | _ => .error .notAnObject

/-- Read the text of a document. -/
def ofText (text : String) : Except SchemaTextFault SchemaDocument :=
  match Value.parse text with
  | .error error => .error (.json error)
  | .ok value => (ofValue value).mapError .schema

/-- Build the records whose qualified names a test accepts. -/
def buildRecords (document : SchemaDocument) (accepts : String → Bool) :
    Except SchemaFault (List Record) :=
  (document.records.filter fun schema => accepts schema.qualifiedName).mapM RecordSchema.build

end SchemaDocument

end KeyedReflection
