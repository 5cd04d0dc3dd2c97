import KeyedReflection.Proofs.Module.Constants
import KeyedReflection.Proofs.Schema.RoundTrip

/-!
# Keys in schemas and in modules

The keys of a record are resolved once for its module and once more when it is exported with keys.  The
exporter then joins them to the fields that it walks over by their dotted ids, and what it finds no key for
is written without one.  So it has to be shown that no key gets lost or goes to another field: the walk and
the table have the same dotted ids for the leaves, and the keys under them are the same
(`Schema.tellsKeys_recordEntries`).

Nothing reads the keys of a schema again.  Whether or not they were written, the same records are loaded
(`RecordSource.findRecords_withoutKeys`).
-/

namespace KeyedReflection

open Json (Value Members)

/-! ## Schemas without keys -/

def SchemaEntry.withoutKey (entry : SchemaEntry) : SchemaEntry :=
  { entry with key := none }

def RecordSchema.withoutKeys (schema : RecordSchema) : RecordSchema :=
  ⟨schema.qualifiedName, schema.entries.map fun entry => (entry.1, entry.2.withoutKey)⟩

def SchemaDocument.withoutKeys (document : SchemaDocument) : SchemaDocument :=
  ⟨document.records.map RecordSchema.withoutKeys⟩

/-- A record is built without regard to keys. -/
theorem RecordSchema.build_withoutKeys (schema : RecordSchema) : schema.withoutKeys.build = schema.build := by
  rw [build, build, withoutKeys]
  dsimp only
  rw [List.foldlM_map]
  rfl

theorem SchemaDocument.buildRecords_withoutKeys (document : SchemaDocument) (accepts : String → Bool) :
    document.withoutKeys.buildRecords accepts = document.buildRecords accepts := by
  rw [buildRecords, buildRecords, withoutKeys, List.filter_map, List.mapM_map]
  exact congrArg (fun build => List.mapM build _) (funext RecordSchema.build_withoutKeys)

/-- Records are found without regard to keys. -/
theorem RecordSource.findRecords_withoutKeys (document : SchemaDocument) (pattern : String) :
    (RecordSource.schema document.withoutKeys).findRecords pattern =
      (RecordSource.schema document).findRecords pattern := by
  rw [findRecords, findRecords]
  cases NamePattern.parse pattern with
  | error fault => rfl
  | ok matcher =>
      dsimp only
      rw [buildRecords, buildRecords, document.buildRecords_withoutKeys]

namespace Schema

theorem map_withoutKey_recordEntries (record : Record) (keys : SortedMap String) :
    (recordEntries record keys).map (fun entry => (entry.1, entry.2.withoutKey)) =
      recordEntries record .empty := by
  have each : ∀ (dottedId : String) (field : Field),
      (fieldEntry keys dottedId field).withoutKey = fieldEntry .empty dottedId field := by
    intro dottedId field
    cases field with
    | node node => rfl
    | leaf leaf =>
        rw [fieldEntry, fieldEntry, SortedMap.find?_empty]
        rfl
  rw [recordEntries, recordEntries, List.map_cons, List.map_filterMap]
  congr 1
  apply List.filterMap_congr
  intro place _
  rw [Option.map_map]
  apply Option.map_congr
  intro field _
  rw [Function.comp, each]

/-! ## The keys of entries -/

/-- The part of an entry that tells the key. -/
def keyPart? : Value → Option Value
  | .object parts => parts.lookup "key"
  | _ => none

theorem keyPart?_write (entry : SchemaEntry) : keyPart? entry.write = entry.key.map .string := by
  rcases entry with ⟨key, type, canonicalType, isOptional, hasDefault, comment⟩
  cases key <;> cases type <;> cases canonicalType <;> cases isOptional <;> cases hasDefault <;> rfl

theorem names_recordEntries {record : Record} (closed : record.tree.IsClosed) (keys : SortedMap String) :
    (recordEntries record keys).map Prod.fst = "" :: record.tree.walk.map Prod.fst := by
  rw [recordEntries, List.map_cons, List.map_filterMap, ← List.filterMap_eq_map]
  congr 1
  apply List.filterMap_congr
  rintro ⟨dottedId, id⟩ listed
  rcases FieldTree.exists_field?_of_mem_walk closed listed with ⟨field, found⟩
  dsimp only at found ⊢
  rw [found]
  rfl

theorem mem_recordEntries {record : Record} (keys : SortedMap String) {place : String × FieldId}
    (listed : place ∈ record.tree.walk) {field : Field} (found : record.tree.field? place.2 = some field) :
    (place.1, fieldEntry keys place.1 field) ∈ recordEntries record keys := by
  refine List.mem_cons_of_mem _ (List.mem_filterMap.mpr ⟨place, listed, ?_⟩)
  dsimp only
  rw [found]
  rfl

end Schema

/-- The key of the entry with a dotted id. -/
def DispatchTable.keyAt? (table : DispatchTable) (dottedId : String) : Option String :=
  (table.entries.toList.find? fun entry => entry.dottedId == dottedId).map KeyedLeaf.key

theorem DispatchTable.isSome_keyAt?_iff {table : DispatchTable} {dottedId : String} :
    (table.keyAt? dottedId).isSome = true ↔ dottedId ∈ table.entries.toList.map KeyedLeaf.dottedId := by
  rw [keyAt?, Option.isSome_map, List.find?_isSome, List.mem_map]
  simp only [beq_iff_eq]

/-- The keys that are joined to fields when exporting are those of the table. -/
theorem DispatchTable.find?_ofList_eq_keyAt? {table : DispatchTable} {keyed : List KeyedLeaf}
    (perm : table.entries.toList.Perm keyed) (distinct : (keyed.map KeyedLeaf.dottedId).Nodup)
    (dottedId : String) :
    (SortedMap.ofList (keyed.map fun leaf => (leaf.dottedId, leaf.key))).find? dottedId =
      table.keyAt? dottedId := by
  have tableDistinct := (perm.map KeyedLeaf.dottedId).nodup_iff.mpr distinct
  rw [SortedMap.find?_ofList_map distinct, keyAt?]
  congr 1
  apply Option.ext
  intro entry
  rw [SortedMap.find?_eq_some_iff_of_distinct distinct,
    SortedMap.find?_eq_some_iff_of_distinct tableDistinct, perm.mem_iff]

namespace Schema

/-- The members of a record tell the keys of a table.  There is one entry for the record, which has no key,
and one for each field, which has the key of the table for its dotted id.  The table has one key for each
leaf, and no others. -/
structure TellsKeys (tree : FieldTree) (table : DispatchTable) (members : Members) : Prop where
  paths : members.map Prod.fst = "" :: tree.walk.map Prod.fst
  distinct : (members.map Prod.fst).Nodup
  top : ∃ entry, ("", entry) ∈ members ∧ keyPart? entry = none
  keyed : ∀ place ∈ tree.walk, ∃ entry, (place.1, entry) ∈ members ∧
    keyPart? entry = (table.keyAt? place.1).map .string
  leaves : ∀ place ∈ tree.walk,
    ((table.keyAt? place.1).isSome = true ↔ (tree.leaf? place.2).isSome = true)
  single : (table.entries.toList.map KeyedLeaf.dottedId).Nodup
  covered : ∀ entry ∈ table.entries.toList, entry.dottedId ∈ tree.walk.map Prod.fst

section

variable {record : Record} {m : ReflectionModule} {keyed : List KeyedLeaf} {options : GenerateOptions}
  {rules : KeyRules}

/-- The dotted ids of a table are those under which the walk meets leaves. -/
theorem mem_dottedIds_iff (plain : record.tree.HasPlainNames) (isOver : m.IsOver record keyed options)
    (resolved : rules.resolve record.tree = .ok keyed) {dottedId : String} :
    dottedId ∈ m.table.entries.toList.map KeyedLeaf.dottedId ↔
      ∃ place ∈ record.tree.walk, (record.tree.leaf? place.2).isSome = true ∧ place.1 = dottedId := by
  have ids : keyed.map KeyedLeaf.dottedId =
      (record.tree.walk.filter fun place => (record.tree.leaf? place.2).isSome).map Prod.fst := by
    rw [((KeyRules.resolve_eq_ok_iff plain).mp resolved).1, KeyRules.levelKeyed,
      ← record.tree.map_leaves_eq_filter_walk, List.map_map, List.map_map]
    rfl
  rw [(isOver.perm.map KeyedLeaf.dottedId).mem_iff, ids, List.mem_map]
  simp only [List.mem_filter, and_assoc]

/-- The entries of a record, with the keys resolved for it, tell the keys of its module. -/
theorem tellsKeys_recordEntries (plain : record.tree.HasPlainNames)
    (distinct : record.tree.HasDistinctSiblings) (isOver : m.IsOver record keyed options)
    (resolved : rules.resolve record.tree = .ok keyed) :
    TellsKeys record.tree m.table ((recordEntries record
      (.ofList (keyed.map fun leaf => (leaf.dottedId, leaf.key)))).map fun entry =>
        (entry.1, entry.2.write)) := by
  have closed := plain.isClosed
  have ids := (KeyRules.resolve_distinct plain resolved).2
  have joined := DispatchTable.find?_ofList_eq_keyAt? isOver.perm ids
  generalize SortedMap.ofList (keyed.map fun leaf => (leaf.dottedId, leaf.key)) = keys at joined ⊢
  have names : ((recordEntries record keys).map fun entry => (entry.1, entry.2.write)).map Prod.fst =
      (recordEntries record keys).map Prod.fst := by
    rw [List.map_map]
    rfl
  have paths := names_recordEntries closed keys
  have different := nodup_recordEntries closed (FieldTree.isNamed_outline plain distinct) keys
  have walkDifferent : (record.tree.walk.map Prod.fst).Nodup := (List.nodup_cons.mp (paths ▸ different)).2
  have leaves : ∀ place ∈ record.tree.walk, ((m.table.keyAt? place.1).isSome = true ↔
      (record.tree.leaf? place.2).isSome = true) := by
    intro place listed
    rw [DispatchTable.isSome_keyAt?_iff, mem_dottedIds_iff plain isOver resolved]
    constructor
    · rintro ⟨other, otherListed, isLeaf, same⟩
      rw [List.inj_on_of_nodup_map walkDifferent otherListed listed same] at isLeaf
      exact isLeaf
    · exact fun isLeaf => ⟨place, listed, isLeaf, rfl⟩
  refine ⟨names.trans paths, names ▸ different, ⟨_, List.mem_cons_self, keyPart?_write _⟩, ?_, leaves,
    (isOver.perm.map KeyedLeaf.dottedId).nodup_iff.mpr ids, ?_⟩
  · intro place listed
    rcases FieldTree.exists_field?_of_mem_walk closed listed with ⟨field, found⟩
    refine ⟨_, List.mem_map_of_mem (mem_recordEntries keys listed found), ?_⟩
    rw [keyPart?_write]
    cases field with
    | leaf leaf => rw [← joined place.1, fieldEntry, leafEntry]
    | node node =>
        have isNode : ¬(m.table.keyAt? place.1).isSome = true := by
          rw [leaves place listed, FieldTree.leaf?, found]
          exact Bool.false_ne_true
        rw [Option.not_isSome_iff_eq_none.mp isNode]
        rfl
  · intro entry inside
    rcases (mem_dottedIds_iff plain isOver resolved).mp (List.mem_map_of_mem inside) with
      ⟨place, listed, _, same⟩
    exact List.mem_map.mpr ⟨place, listed, same⟩

end

/-! ## Reading documents -/

/-- A schema document is read from a value, and from its text. -/
def IsReadAs (value : Value) (document : SchemaDocument) : Prop :=
  SchemaDocument.ofValue value = .ok document ∧ SchemaDocument.ofText (render value) = .ok document

theorem isReadAs_documentOf (qualifiedName : String) {entries : List (String × SchemaEntry)}
    (paths : (entries.map Prod.fst).Nodup) :
    IsReadAs (documentOf qualifiedName entries) ⟨[(RecordSchema.mk qualifiedName entries).unmarked]⟩ :=
  ⟨SchemaDocument.ofValue_unmarked _, SchemaDocument.ofText_unmarked (List.nodup_singleton _)
    (List.forall_mem_singleton.mpr paths)⟩

/-- Documents of one record that were written with some keys and without keys load the same records. -/
theorem findRecords_keys (name : String) (record : Record) (keys : SortedMap String) (pattern : String) :
    (RecordSource.schema ⟨[⟨name, recordEntries record keys⟩]⟩).findRecords pattern =
      (RecordSource.schema ⟨[⟨name, recordEntries record .empty⟩]⟩).findRecords pattern := by
  have less : (SchemaDocument.mk [⟨name, recordEntries record keys⟩]).withoutKeys =
      ⟨[⟨name, recordEntries record .empty⟩]⟩ := by
    rw [SchemaDocument.withoutKeys, List.map_singleton, RecordSchema.withoutKeys,
      map_withoutKey_recordEntries]
  rw [← less, RecordSource.findRecords_withoutKeys]

end Schema

/-- Exporting a record with keys and building its module agree.  Both fail on the first clash of keys, and
on nothing else.  Otherwise the schema tells the keys of the table; and it can be loaded again, from the
value or from the text, with the same outcome as a schema without keys whatever the pattern is. -/
theorem export_keys_agree {record : Record} (plain : record.tree.HasPlainNames)
    (distinct : record.tree.HasDistinctSiblings) (separator : String) (overrides : KeyOverrides)
    (style : Option KeyStyle) (unit : Cpp.UnitOptions) :
    let exporting (withKeys : Bool) : ExportOptions := ⟨withKeys, separator, style, overrides⟩
    let generating : GenerateOptions := ⟨separator, style, overrides, [], [], unit⟩
    (∃ clash, Schema.ofRecord record (exporting true) = .error clash ∧
      buildModule record generating = .error (.duplicateKey clash)) ∨
    ∃ m members withKeys withoutKeys document plainDocument,
      buildModule record generating = .ok m ∧
      Schema.ofRecord record (exporting true) = .ok (.object members) ∧
      Schema.TellsKeys record.tree m.table members ∧
      Schema.ofRecords [record] (exporting true) = .ok withKeys ∧
      Schema.ofRecords [record] (exporting false) = .ok withoutKeys ∧
      Schema.IsReadAs withKeys document ∧ Schema.IsReadAs withoutKeys plainDocument ∧
      ∀ pattern, (RecordSource.schema document).findRecords pattern =
        (RecordSource.schema plainDocument).findRecords pattern := by
  intro exporting generating
  have closed := plain.isClosed
  have named := FieldTree.isNamed_outline plain distinct
  cases resolved : (keyRulesFor record overrides separator style).resolve record.tree with
  | error clash =>
      refine .inl ⟨clash, ?_, ?_⟩
      · rw [Schema.ofRecord, Schema.exportedKeys, if_pos rfl]
        dsimp only
        rw [resolved]
        rfl
      · rw [buildModule, resolved]
  | ok keyed =>
      rcases @buildModule_of_resolved _ generating _ plain resolved rfl with ⟨m, built⟩
      rcases exists_keyed_of_built built with ⟨others, sameResolved, _, isOver⟩
      rw [resolved] at sameResolved
      cases sameResolved
      have exported : Schema.exportedKeys record (exporting true) =
          .ok (.ofList (keyed.map fun leaf => (leaf.dottedId, leaf.key))) := by
        rw [Schema.exportedKeys, if_pos rfl]
        dsimp only
        rw [resolved]
        rfl
      have unkeyed : Schema.exportedKeys record (exporting false) = .ok .empty := rfl
      rcases exists_of_map_ok (Schema.ofRecord_eq closed named exported) with ⟨value, written, isMember⟩
      cases isMember
      exact .inr ⟨m, _, _, _, _, _, built, written,
        Schema.tellsKeys_recordEntries plain distinct isOver resolved,
        Schema.ofRecords_singleton closed named exported, Schema.ofRecords_singleton closed named unkeyed,
        Schema.isReadAs_documentOf _ (Schema.nodup_recordEntries closed named _),
        Schema.isReadAs_documentOf _ (Schema.nodup_recordEntries closed named _),
        Schema.findRecords_keys _ record _⟩

/-- The key of the width in a window is written at its dotted id, and the sub-record around it has none. -/
theorem export_keys_agree_window : ∃ members size width,
    Record.window.tree.HasPlainNames ∧ Record.window.tree.HasDistinctSiblings ∧
    Schema.ofRecord Record.window ⟨true, "/", none, .empty⟩ = .ok (.object members) ∧
    ("size", size) ∈ members ∧ Schema.keyPart? size = none ∧
    ("size.width", width) ∈ members ∧ Schema.keyPart? width = some (.string "size/width") := by
  have plain : Record.window.tree.HasPlainNames := by decide
  have distinct : Record.window.tree.HasDistinctSiblings := by decide
  rcases export_keys_agree plain distinct "/" .empty none ⟨[], "", []⟩ with
    ⟨clash, _, failed⟩ | ⟨m, members, _, _, _, _, built, written, tells, _⟩
  · rcases buildModule_window with ⟨m, built⟩
    rw [GenerateOptions.slashed, failed] at built
    cases built
  · rcases tells.keyed ("size", 1) (by decide) with ⟨size, sizeListed, sizeKey⟩
    rcases tells.keyed ("size.width", 2) (by decide) with ⟨width, widthListed, widthKey⟩
    have unkeyed : m.table.keyAt? "size" = none := by
      rw [← Option.not_isSome_iff_eq_none, tells.leaves ("size", 1) (by decide)]
      decide
    have keyed : m.table.keyAt? "size.width" = some "size/width" := by
      rcases exists_keyed_of_built built with ⟨keyed, resolved, _, isOver⟩
      cases resolved.symm.trans resolve_eq_windowKeyed
      have listed : (⟨"size/width", "size.width",
          ⟨"width", "length_t", "int", true, false, "In pixels.\n"⟩⟩ : KeyedLeaf) ∈ m.table.entries.toList :=
        isOver.perm.mem_iff.mpr List.mem_cons_self
      have found := (buildModule_wellBuilt plain built).find?_dottedId listed
      rw [DispatchTable.keyAt?, found]
      rfl
    rw [unkeyed] at sizeKey
    rw [keyed] at widthKey
    exact ⟨members, size, width, plain, distinct, written, sizeListed, sizeKey, widthListed, widthKey⟩

end KeyedReflection
