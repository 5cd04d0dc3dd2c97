import KeyedReflection.Json.Value
import KeyedReflection.Json.Printer
import KeyedReflection.Schema.Document
import KeyedReflection.Key

/-!
# Exporting records as a schema

The schema of a record has an entry for the record itself under the empty path, and then one for
every field in pre-order.  A leaf entry tells everything about the leaf, and its key on request.
-/

namespace KeyedReflection

structure ExportOptions where
  /-- Also write the keys of leaves. -/
  withKeys : Bool
  separator : String
  /-- Without a style each record has that of its origin. -/
  keyStyle : Option KeyStyle
  overrides : KeyOverrides

/-- The rules for the keys of a record. -/
def keyRulesFor (record : Record) (overrides : KeyOverrides) (separator : String)
    (keyStyle : Option KeyStyle) : KeyRules :=
  ⟨overrides, separator, keyStyle.getD (.forOrigin record.origin)⟩

namespace Schema

open Json (Value Members)

/-- The entry of a sub-record. -/
def nodeEntry (doc : String) : SchemaEntry :=
  { SchemaEntry.blank with comment := Text.lines doc }

def leafEntry (key : Option String) (leaf : Leaf) : SchemaEntry where
  key := key
  type := some leaf.declaredType
  canonicalType := some leaf.canonicalType
  isOptional := some leaf.isOptional
  hasDefault := some leaf.hasDefault
  comment := Text.lines leaf.doc

/-- The keys to write, by dotted id. -/
def exportedKeys (record : Record) (options : ExportOptions) : Except KeyClash (SortedMap String) :=
  if options.withKeys then
    let rules := keyRulesFor record options.overrides options.separator options.keyStyle
    (rules.resolve record.tree).map fun keyed =>
      .ofList (keyed.map fun leaf => (leaf.dottedId, leaf.key))
  else .ok SortedMap.empty

def fieldEntry (keys : SortedMap String) (dottedId : String) : Field → SchemaEntry
  | .node node => nodeEntry node.doc
  | .leaf leaf => leafEntry (keys.find? dottedId) leaf

/-- The entries of a record by path. -/
def recordEntries (record : Record) (keys : SortedMap String) : List (String × SchemaEntry) :=
  ("", nodeEntry record.tree.root.doc) ::
    record.tree.walk.filterMap fun (dottedId, id) =>
      (record.tree.field? id).map fun field => (dottedId, fieldEntry keys dottedId field)

/-- The schema of a record. -/
def ofRecord (record : Record) (options : ExportOptions) : Except KeyClash Value :=
  (exportedKeys record options).map fun keys =>
    .object (Members.collect
      ((recordEntries record keys).map fun (path, entry) => (path, entry.write)))

/-- The schema document of some records, in order. -/
def ofRecords (records : List Record) (options : ExportOptions) : Except KeyClash Value :=
  (records.mapM fun record =>
    (ofRecord record options).map fun schema => (record.qualifiedName, schema)).map fun schemas =>
      .object (Members.collect schemas)

/-- The text of a schema document, which ends in a line feed. -/
def render (document : Value) : String :=
  document.indented ++ "\n"

end Schema
end KeyedReflection
