import KeyedReflection.Proofs.Declaration.Extraction
import KeyedReflection.Proofs.Json.Members
import KeyedReflection.Proofs.Schema.Placing

/-!
# Exporting several records

Whatever records a pattern selects, each of them can be written and comes back: its qualified name is cut
into the same scopes again, and its fields have plain and different names (`Record.IsWritable`).  Of records
from a schema this holds because of what building refuses, whatever the document says.

A document has its records by name.  So what comes back from the document of several records are records of
the same names in the same order, but of records that share a name only one (`export_reloaded`).
-/

namespace KeyedReflection

open Text (IsPlainName)
open Json (Value Members)

/-! ## Records that can be written -/

/-- A record that comes back from its schema. -/
structure Record.IsWritable (record : Record) : Prop where
  isScoped : record.IsScoped
  closed : record.tree.IsClosed
  named : record.tree.outline.IsNamed

theorem Record.IsKept.isWritable {record : Record} (kept : record.IsKept) : record.IsWritable :=
  ⟨kept.wellScoped.isScoped, kept.isClosed, kept.isNamed⟩

namespace RecordSchema

variable {tree next : FieldTree}

theorem placeEntry_isGrown (grown : tree.IsGrown) {parent : FieldId}
    (isNode : ∃ n, tree.field? parent = some (.node n)) {identifier : String}
    (plain : IsPlainName identifier) {entry : SchemaEntry} {doc : String}
    (placed : placeEntry tree parent identifier entry doc = .ok next) : next.IsGrown := by
  rcases isNode with ⟨n, found⟩
  rw [placeEntry] at placed
  cases member : tree.findMember parent identifier with
  | some id =>
      cases typed : entry.type with
      | some type =>
          rw [member, typed] at placed
          cases placed
      | none =>
          rw [member, typed] at placed
          dsimp only at placed
          split at placed
          · cases placed
          · cases placed
            exact grown.setDoc id doc
  | none =>
      cases typed : entry.type with
      | some type =>
          rw [member, typed] at placed
          cases placed
          exact grown.add found rfl plain member
      | none =>
          rw [member, typed] at placed
          cases placed
          exact grown.add found rfl plain member

/-- An entry that is taken leaves the shape of a tree, whatever was read before. -/
theorem addEntry_isGrown (grown : tree.IsGrown) {path : String} {entry : SchemaEntry}
    (added : addEntry tree path entry = .ok next) : next.IsGrown := by
  rw [addEntry] at added
  by_cases isRecord : path = ""
  · rw [if_pos isRecord] at added
    split at added
    · cases added
    · cases added
      exact grown.setDoc _ _
  · rw [if_neg isRecord] at added
    dsimp only at added
    by_cases unnamed : "" ∈ Text.splitOn '.' path
    · rw [if_pos unnamed] at added
      cases added
    · rw [if_neg unnamed] at added
      have plain : ∀ segment ∈ pathOf path, IsPlainName segment := plain_pathOf fun _ => unnamed
      have further : pathOf path ≠ [] := mt pathOf_eq_nil_iff.mp isRecord
      rcases (List.eq_nil_or_concat' (pathOf path)).resolve_left further with ⟨above, last, own⟩
      rw [own] at plain
      rcases List.forall_mem_append.mp plain with ⟨abovePlain, lastPlain⟩
      rw [← pathOf_of_ne isRecord, own, List.dropLast_concat, List.getLastD_concat] at added
      rcases descend_cases "" grown (FieldTree.follow?_nil tree FieldTree.rootId) ⟨tree.root, rfl⟩
          abovePlain with
        ⟨cause, failed, _⟩ | ⟨between, parent, descended, reached⟩
      · rw [failed] at added
        cases added
      · rw [descended] at added
        exact placeEntry_isGrown reached.grown reached.isNode (lastPlain last List.mem_cons_self) added

/-- A record that was built has the name that was asked for, and can be written. -/
theorem isWritable_of_build {schema : RecordSchema} {record : Record}
    (built : build schema = .ok record) :
    record.qualifiedName = schema.qualifiedName ∧ record.IsWritable := by
  rw [build] at built
  dsimp only at built
  split at built
  · cases built
  · rename_i named
    rcases exists_of_map_ok built with ⟨tree, added, rfl⟩
    have grown : tree.IsGrown := by
      refine foldlM_induction ?_ added (.new _ "")
      intro before entry after shaped stepped
      exact addEntry_isGrown shaped (exists_of_mapError_ok stepped)
    have scopes : (Text.splitScopes schema.qualifiedName).dropLast ++
        [(Text.splitScopes schema.qualifiedName).getLastD ""] =
        Text.splitScopes schema.qualifiedName := by
      have nonempty := Text.splitScopes_ne_nil schema.qualifiedName
      rw [List.getLastD_eq_getLast?, List.getLast?_eq_some_getLast nonempty]
      exact List.dropLast_append_getLast nonempty
    have sameName : Record.qualifiedName ⟨(Text.splitScopes schema.qualifiedName).dropLast,
        (Text.splitScopes schema.qualifiedName).getLastD "", .schema, tree⟩ =
        schema.qualifiedName := by
      rw [Record.qualifiedName, qualify, scopes, Text.join_splitScopes]
    refine ⟨sameName, ⟨?_, ?_⟩, grown.closed, FieldTree.isNamed_outline grown.plain grown.distinct⟩
    · rw [sameName, scopes]
    · rw [scopes]
      exact named

end RecordSchema

/-- Schemas can say anything; of declarations it is asked that a compiler wrote them. -/
def RecordSource.IsLawful : RecordSource → Prop
  | .schema _ => True
  | .declarations tree => tree.root.IsLawfulThroughout

/-- Every record that is found can be written. -/
theorem RecordSource.isWritable_of_mem_findRecords {source : RecordSource} (lawful : source.IsLawful)
    {pattern : String} {records : List Record} (found : source.findRecords pattern = .ok records)
    {record : Record} (listed : record ∈ records) : record.IsWritable := by
  cases source with
  | declarations tree => exact (tree.isKept_of_mem_findRecords lawful found listed).isWritable
  | schema document =>
      rw [findRecords] at found
      split at found
      · cases found
      · rcases exists_of_mem_mapM (exists_of_mapError_ok found) listed with ⟨schema, _, built⟩
        exact (RecordSchema.isWritable_of_build built).2

/-! ## Documents of several records -/

/-- The schema of a record with some keys. -/
def Record.schemaWith (record : Record) (keys : SortedMap String) : RecordSchema :=
  ⟨record.qualifiedName, Schema.recordEntries record keys⟩

namespace Schema

variable {records : List Record} {options : ExportOptions}

/-- Records are written by name: of each name once, in the order in which the names came first. -/
theorem ofRecords_cases (writable : ∀ record ∈ records, record.IsWritable)
    (keyed : ∀ record ∈ records, ∃ keys, exportedKeys record options = .ok keys) :
    ∃ written : List (Record × SortedMap String),
      ofRecords records options =
        .ok (documentOfAll (written.map fun entry => entry.1.schemaWith entry.2)) ∧
      (∀ entry ∈ written, entry.1 ∈ records) ∧
      (written.map fun entry => entry.1.qualifiedName).Nodup ∧
      (written.map fun entry => entry.1.qualifiedName) = (records.map Record.qualifiedName).eraseDups ∧
      ((written.map fun entry => entry.1.qualifiedName) = records.map Record.qualifiedName ↔
        (records.map Record.qualifiedName).Nodup) := by
  have each : ∀ record ∈ records, ∃ keys,
      (ofRecord record options).map (fun schema => (record.qualifiedName, schema)) =
        .ok (memberOf (record.schemaWith keys)) := by
    intro record listed
    rcases keyed record listed with ⟨keys, exported⟩
    exact ⟨keys, ofRecord_eq (writable record listed).closed (writable record listed).named exported⟩
  rcases mapM_cases (fun record => (ofRecord record options).map fun schema =>
      (record.qualifiedName, schema)) records with
    ⟨members, ran, paired⟩ | ⟨clash, _, record, listed, failed⟩
  · have names : members.map Prod.fst = records.map Record.qualifiedName := by
      rw [← List.forall₂_eq_eq_eq, List.forall₂_map_left_iff, List.forall₂_map_right_iff]
      refine paired.flip.imp ?_
      intro member record stepped
      rcases exists_of_map_ok stepped with ⟨schema, _, rfl⟩
      rfl
    have fromRecords : ∀ member ∈ Members.collect members, ∃ entry : Record × SortedMap String,
        entry.1 ∈ records ∧ memberOf (entry.1.schemaWith entry.2) = member := by
      intro member listed
      rcases exists_of_mem_mapM ran (Members.mem_of_mem_collect listed) with ⟨record, inside, stepped⟩
      rcases each record inside with ⟨keys, exported⟩
      rw [stepped] at exported
      exact ⟨(record, keys), inside, (Except.ok.inj exported).symm⟩
    rcases exists_map_eq fromRecords with ⟨written, inside, same⟩
    have writtenNames : (written.map fun entry => entry.1.qualifiedName) =
        (Members.collect members).map Prod.fst := by
      rw [← same, List.map_map]
      rfl
    refine ⟨written, ?_, inside, ?_, ?_, ?_⟩
    · rw [ofRecords, ran, documentOfAll, List.map_map]
      exact congrArg (Except.ok ∘ Value.object) same.symm
    · rw [writtenNames]
      exact Members.collect_distinct members
    · rw [writtenNames, Members.names_collect, names]
    · rw [writtenNames, ← names]
      exact Members.names_collect_eq_iff
  · rcases each record listed with ⟨keys, exported⟩
    rw [failed] at exported
    cases exported

end Schema

/-- The document of some records gives each of them back. -/
theorem findRecords_documentOfAll {written : List (Record × SortedMap String)}
    (writable : ∀ entry ∈ written, entry.1.IsWritable) :
    (RecordSource.schema ⟨written.map fun entry => entry.1.schemaWith entry.2⟩).findRecords "*" =
      .ok (written.map fun entry => entry.1.reloaded) := by
  have built : (written.map fun entry => entry.1.schemaWith entry.2).mapM RecordSchema.build =
      .ok (written.map fun entry => entry.1.reloaded) := by
    induction written with
    | nil => rfl
    | cons entry rest ih =>
        rcases List.forall_mem_cons.mp writable with ⟨first, others⟩
        rw [List.map_cons, List.mapM_cons, ih others, Record.schemaWith,
          build_recordEntries first.isScoped first.closed first.named]
        rfl
  rw [RecordSource.findRecords_star, built]
  rfl

/-- Records that are exported together and loaded again come back by name: of each name one, in the order
in which the names came first. -/
theorem exists_reloaded {records : List Record} {options : ExportOptions}
    (writable : ∀ record ∈ records, record.IsWritable)
    (keyed : ∀ record ∈ records, ∃ keys, Schema.exportedKeys record options = .ok keys) :
    ∃ value document reloaded,
      Schema.ofRecords records options = .ok value ∧
      SchemaDocument.ofValue value = .ok document ∧
      SchemaDocument.ofText (Schema.render value) = .ok document ∧
      (RecordSource.schema document).findRecords "*" = .ok reloaded ∧
      (∀ other ∈ reloaded, ∃ record ∈ records, other = record.reloaded) ∧
      reloaded.map Record.qualifiedName = (records.map Record.qualifiedName).eraseDups ∧
      (reloaded.map Record.qualifiedName = records.map Record.qualifiedName ↔
        (records.map Record.qualifiedName).Nodup) := by
  rcases Schema.ofRecords_cases writable keyed with
    ⟨written, exported, inside, distinct, names, allNames⟩
  have writtenWritable : ∀ entry ∈ written, entry.1.IsWritable := fun entry listed =>
    writable entry.1 (inside entry listed)
  have unmarked : ∀ schema ∈ written.map fun entry => entry.1.schemaWith entry.2,
      Text.dropMark "::" schema.qualifiedName = none :=
    List.forall_mem_map.mpr fun entry listed =>
      (writtenWritable entry listed).isScoped.dropMark_qualifiedName
  have paths : ∀ schema ∈ written.map fun entry => entry.1.schemaWith entry.2,
      (schema.entries.map Prod.fst).Nodup :=
    List.forall_mem_map.mpr fun entry listed =>
      Schema.nodup_recordEntries (writtenWritable entry listed).closed
        (writtenWritable entry listed).named entry.2
  have schemaNames : (written.map fun entry => entry.1.schemaWith entry.2).map
      RecordSchema.qualifiedName = written.map fun entry => entry.1.qualifiedName := by
    rw [List.map_map]
    rfl
  have reloadedNames : (written.map fun entry => entry.1.reloaded).map Record.qualifiedName =
      written.map fun entry => entry.1.qualifiedName := by
    rw [List.map_map]
    rfl
  refine ⟨_, _, _, exported, SchemaDocument.ofValue_documentOfAll unmarked,
    SchemaDocument.ofText_render_documentOfAll unmarked (schemaNames ▸ distinct) paths,
    findRecords_documentOfAll writtenWritable, ?_, ?_, ?_⟩
  · exact List.forall_mem_map.mpr fun entry listed => ⟨entry.1, inside entry listed, rfl⟩
  · rw [reloadedNames, names]
  · rw [reloadedNames]
    exact allNames

/-- The records that a pattern selects can be exported together unless keys are asked for and clash.
Loaded again, they come back under the same names in the same order, those that share a name as one of
them.  So all of them come back exactly when their names are different. -/
theorem export_reloaded {source : RecordSource} (lawful : source.IsLawful) {pattern : String}
    {records : List Record} (found : source.findRecords pattern = .ok records) {options : ExportOptions}
    (keyed : options.withKeys = true → ∀ record ∈ records, ∃ leaves, (keyRulesFor record
      options.overrides options.separator options.keyStyle).resolve record.tree = .ok leaves) :
    ∃ value document reloaded,
      Schema.ofRecords records options = .ok value ∧
      SchemaDocument.ofValue value = .ok document ∧
      SchemaDocument.ofText (Schema.render value) = .ok document ∧
      (RecordSource.schema document).findRecords "*" = .ok reloaded ∧
      (∀ other ∈ reloaded, ∃ record ∈ records, other = record.reloaded) ∧
      reloaded.map Record.qualifiedName = (records.map Record.qualifiedName).eraseDups ∧
      (reloaded.map Record.qualifiedName = records.map Record.qualifiedName ↔
        (records.map Record.qualifiedName).Nodup) := by
  apply exists_reloaded
  · intro record listed
    exact source.isWritable_of_mem_findRecords lawful found listed
  · intro record listed
    exact exportedKeys_of_resolved fun withKeys => keyed withKeys record listed

/-- Options that ask for nothing. -/
def ExportOptions.plain : ExportOptions :=
  ⟨false, "/", none, .empty⟩

theorem export_reloaded_window : ∃ records,
    (RecordSource.declarations .window).IsLawful ∧
      (RecordSource.declarations .window).findRecords "*" = .ok records ∧
      records.map Record.qualifiedName = ["ui::Size", "ui::Window"] ∧
      ∃ value document reloaded,
        Schema.ofRecords records .plain = .ok value ∧
        SchemaDocument.ofValue value = .ok document ∧
        SchemaDocument.ofText (Schema.render value) = .ok document ∧
        (RecordSource.schema document).findRecords "*" = .ok reloaded ∧
        (∀ other ∈ reloaded, ∃ record ∈ records, other = record.reloaded) ∧
        reloaded.map Record.qualifiedName = (records.map Record.qualifiedName).eraseDups ∧
        (reloaded.map Record.qualifiedName = records.map Record.qualifiedName ↔
          (records.map Record.qualifiedName).Nodup) := by
  have lawful : (RecordSource.declarations .window).IsLawful := by
    change DeclarationTree.window.root.IsLawfulThroughout
    decide
  have names : ((RecordSource.declarations .window).findRecords "*").map
      (List.map Record.qualifiedName) = .ok ["ui::Size", "ui::Window"] := by
    decide +kernel
  rcases exists_of_map_ok names with ⟨records, found, named⟩
  exact ⟨records, lawful, found, named, export_reloaded lawful found nofun⟩

/-- The schema of a record with one field. -/
def RecordSchema.single (qualifiedName field : String) : RecordSchema where
  qualifiedName := qualifiedName
  entries := [(field, { SchemaEntry.blank with type := some "int" })]

/-- A document in which the name of two records is written in two ways. -/
def Schema.twice : Value :=
  .object [("A", .object [("x", .object [("type", .string "int")])]),
    ("::A", .object [("y", .object [("type", .string "int")])])]

/-- Both records are found, under one name, and only the second comes back. -/
theorem export_twice : ∃ document records value exported reloaded,
    SchemaDocument.ofValue Schema.twice = .ok document ∧
      (RecordSource.schema document).findRecords "*" = .ok records ∧
      records.map Record.qualifiedName = ["A", "A"] ∧
      Schema.ofRecords records .plain = .ok value ∧
      SchemaDocument.ofValue value = .ok exported ∧
      (RecordSource.schema exported).findRecords "*" = .ok reloaded ∧
      reloaded.map Record.qualifiedName = ["A"] := by
  have read : SchemaDocument.ofValue Schema.twice =
      .ok ⟨[.single "A" "x", .single "A" "y"]⟩ := by
    decide +kernel
  have names : ((RecordSource.schema ⟨[.single "A" "x", .single "A" "y"]⟩).findRecords "*").map
      (List.map Record.qualifiedName) = .ok ["A", "A"] := by
    decide +kernel
  rcases exists_of_map_ok names with ⟨records, found, named⟩
  have lawful : (RecordSource.schema ⟨[.single "A" "x", .single "A" "y"]⟩).IsLawful := trivial
  have writable : ∀ record ∈ records, record.IsWritable := fun record listed =>
    RecordSource.isWritable_of_mem_findRecords lawful found listed
  have keyed : ∀ record ∈ records, ∃ keys, Schema.exportedKeys record .plain = .ok keys :=
    fun record _ => ⟨.empty, rfl⟩
  rcases exists_reloaded writable keyed with
    ⟨value, exported, reloaded, written, readAgain, _, foundAgain, _, reloadedNames, _⟩
  rw [named] at reloadedNames
  exact ⟨_, records, value, exported, reloaded, read, found, named, written, readAgain, foundAgain,
    reloadedNames⟩

end KeyedReflection
