import KeyedReflection.Generation.Basic
import KeyedReflection.Proofs.Json.Reading
import KeyedReflection.Proofs.Module.Building
import KeyedReflection.Proofs.Results
import KeyedReflection.Proofs.Schema.Loading
import Mathlib.Data.List.Nodup

/-!
# Schemas of records

A record that is exported as a schema document and loaded again is the same record up to its table and
to the line breaks of its documentation: its outline comes back, with the lines of every piece of
documentation joined by line feeds (`findRecords_document`).

Everything in between is lossless.  An entry is read as it was written; the paths of the entries are
distinct, so that no member of the document replaces another; and the qualified name is cut where it
was joined.
-/

namespace KeyedReflection

open Text (IsPlainName rejoinLines)
open Json (Value Members)

/-! ## Entries -/

namespace SchemaEntry

theorem readComment_write (comment : List String) :
    readComment (.array (comment.map .string)) = .ok comment := by
  rw [readComment]
  induction comment with
  | nil => rfl
  | cons line rest ih =>
      rw [List.map_cons, List.mapM_cons, ih]
      rfl

/-- An entry is read as it was written, whichever of its parts are there. -/
theorem read_write (entry : SchemaEntry) : read entry.write = .ok entry := by
  rcases entry with ⟨key, type, canonicalType, isOptional, hasDefault, comment⟩
  have last := readComment_write comment
  cases key <;> cases type <;> cases canonicalType <;> cases isOptional <;> cases hasDefault <;>
    simp only [write, writePart, read, readParts, Option.map_some, Option.map_none, List.nil_append,
      List.cons_append, List.foldlM_cons, List.foldlM_nil, readPart, readText, readFlag, last,
      blank] <;>
    rfl

theorem names_writePart (name : String) (value : Option Value) :
    ((writePart name value).map Prod.fst).Sublist [name] := by
  cases value with
  | none => exact List.nil_sublist _
  | some part => exact List.Sublist.refl _

theorem isTextual_writePart {depth : Nat} {name : String} {value : Option Value}
    (textual : ∀ part ∈ value, part.IsTextual depth) :
    ∀ member ∈ writePart name value, member.2.IsTextual depth := by
  intro member inside
  cases value with
  | none => cases inside
  | some part =>
      rw [List.mem_singleton.mp inside]
      exact textual part rfl

/-- An entry is written without numbers, and two levels deep. -/
theorem isTextual_write (depth : Nat) (entry : SchemaEntry) :
    entry.write.IsTextual (depth + 2) := by
  have text : ∀ part : Option String, ∀ value ∈ part.map Value.string,
      value.IsTextual (depth + 1) := by
    intro part value written
    rcases Option.map_eq_some_iff.mp written with ⟨content, _, rfl⟩
    exact .string _ content
  have flag : ∀ part : Option Bool, ∀ value ∈ part.map Value.bool, value.IsTextual (depth + 1) := by
    intro part value written
    rcases Option.map_eq_some_iff.mp written with ⟨content, _, rfl⟩
    exact .bool _ content
  have comment : (Value.array (entry.comment.map .string)).IsTextual (depth + 1) := by
    apply Value.IsTextual.array
    intro line listed
    rcases List.mem_map.mp listed with ⟨content, _, rfl⟩
    exact .string _ content
  have all : partNames = ["key"] ++ ["type"] ++ ["canonical_type"] ++ ["is_optional"] ++
      ["has_default"] ++ ["comment"] := rfl
  apply Value.IsTextual.object
  · apply List.Nodup.sublist _ (show partNames.Nodup by decide)
    simp only [List.map_append, all]
    exact (((((names_writePart _ _).append (names_writePart _ _)).append (names_writePart _ _)).append
      (names_writePart _ _)).append (names_writePart _ _)).append (List.Sublist.refl _)
  · simp only [List.forall_mem_append]
    refine ⟨⟨⟨⟨⟨?_, ?_⟩, ?_⟩, ?_⟩, ?_⟩, List.forall_mem_singleton.mpr comment⟩
    · exact isTextual_writePart (text entry.key)
    · exact isTextual_writePart (text entry.type)
    · exact isTextual_writePart (text entry.canonicalType)
    · exact isTextual_writePart (flag entry.isOptional)
    · exact isTextual_writePart (flag entry.hasDefault)

end SchemaEntry

/-! ## Names -/

/-- The qualified name of a record is cut into its namespaces and its name, none of which is empty. -/
structure Record.IsScoped (record : Record) : Prop where
  splits : Text.splitScopes record.qualifiedName = record.namespaces ++ [record.name]
  named : "" ∉ record.namespaces ++ [record.name]

/-- A qualified name without empty names does not start with a double colon. -/
theorem Record.IsScoped.dropMark_qualifiedName {record : Record} (isScoped : record.IsScoped) :
    Text.dropMark "::" record.qualifiedName = none :=
  Text.dropMark_of_splitScopes (isScoped.splits ▸ isScoped.named)

/-- The namespaces and the name of a record can be told apart again in its qualified name. -/
def Record.HasScopes (record : Record) : Prop :=
  ∀ scope ∈ record.namespaces ++ [record.name], scope ≠ "" ∧ ':' ∉ scope.toList

namespace Record.HasScopes

variable {record : Record}

theorem isScoped (wellScoped : record.HasScopes) : record.IsScoped where
  splits := Text.splitScopes_join (by simp) fun scope listed => (wellScoped scope listed).2
  named inside := (wellScoped "" inside).1 rfl

theorem dropMark_qualifiedName (wellScoped : record.HasScopes) :
    Text.dropMark "::" record.qualifiedName = none :=
  wellScoped.isScoped.dropMark_qualifiedName

end Record.HasScopes

/-! ## The entries of a record -/

namespace Schema

theorem fieldEntry_alone (keys : SortedMap String) (dottedId : String) (field : Field) :
    fieldEntry keys dottedId field.alone = fieldEntry keys dottedId field := by
  cases field <;> rfl

theorem recordEntries_eq {record : Record} (closed : record.tree.IsClosed)
    (keys : SortedMap String) :
    recordEntries record keys = ("", nodeEntry record.tree.root.doc) ::
      (record.tree.outline.entries []).map (pathEntry keys) := by
  have fromListing : (record.tree.walk.filterMap fun entry =>
      (record.tree.field? entry.2).map fun field => (entry.1, fieldEntry keys entry.1 field)) =
        record.tree.listing.filterMap fun entry =>
          entry.2.map fun field => (entry.1, fieldEntry keys entry.1 field) := by
    rw [FieldTree.listing, List.filterMap_map]
    apply List.filterMap_congr
    intro entry _
    rw [Function.comp, Option.map_map]
    apply Option.map_congr
    intro field _
    rw [Function.comp, fieldEntry_alone]
  rw [recordEntries]
  congr 1
  refine fromListing.trans ?_
  rw [FieldTree.listing_eq closed, List.filterMap_map]
  exact congrFun (List.filterMap_eq_map (f := pathEntry keys)) _

/-- The entries of a record have different paths, so that all of them are kept. -/
theorem nodup_recordEntries {record : Record} (closed : record.tree.IsClosed)
    (named : record.tree.outline.IsNamed) (keys : SortedMap String) :
    ((recordEntries record keys).map Prod.fst).Nodup := by
  have paths : ((record.tree.outline.entries []).map (pathEntry keys)).map Prod.fst =
      (record.tree.outline.entries []).map fun entry => Text.join "." entry.1 := by
    rw [List.map_map]
    rfl
  rw [recordEntries_eq closed, List.map_cons, paths, List.nodup_cons]
  refine ⟨?_, named.nodup_dottedIds⟩
  intro inside
  rcases List.mem_map.mp inside with ⟨entry, listed, empty⟩
  exact Text.join_ne_empty (Outline.path_ne_nil listed)
    (named.plain_of_mem_entries (by simp) listed) empty

end Schema

namespace RecordSchema

/-- The entries of a named outline build the record of that outline. -/
theorem build_outline {record : Record} (isScoped : record.IsScoped) {outline : Outline}
    (named : outline.IsNamed) (keys : SortedMap String) (doc : String) :
    build ⟨record.qualifiedName, ("", Schema.nodeEntry doc) ::
      (outline.entries []).map (Schema.pathEntry keys)⟩ =
      .ok ⟨record.namespaces, record.name, .schema,
        .ofOutline record.name (rejoinLines doc) (outline.mapDocs rejoinLines)⟩ := by
  have root : addEntry (FieldTree.new record.name "") "" (Schema.nodeEntry doc) =
      .ok (FieldTree.new record.name (rejoinLines doc)) := rfl
  have closed := FieldTree.isClosed_new record.name (rejoinLines doc)
  have found : (FieldTree.new record.name (rejoinLines doc)).field? FieldTree.rootId =
      some (.node ⟨record.name, rejoinLines doc, []⟩) := rfl
  have leads : (FieldTree.new record.name (rejoinLines doc)).LeadsTo FieldTree.rootId []
      FieldTree.rootId := rfl
  have takes : (FieldTree.new record.name (rejoinLines doc)).Takes [] FieldTree.rootId
      outline.identifiers := by
    refine ⟨closed, ⟨_, found⟩, leads, ?_, fun _ _ => rfl⟩
    intro name listed
    cases listed
  have added := addEntries_outline keys outline takes named
  have loaded : addEntries (FieldTree.new record.name "") (("", Schema.nodeEntry doc) ::
      (outline.entries []).map (Schema.pathEntry keys)) =
        .ok (.ofOutline record.name (rejoinLines doc) (outline.mapDocs rejoinLines)) := by
    rw [addEntries_cons root, ← FieldTree.addOutline_new]
    exact added
  rw [build]
  dsimp only
  rw [isScoped.splits, if_neg isScoped.named, List.getLastD_concat, List.dropLast_concat]
  have ran := foldlM_mapError (fun entry cause =>
    SchemaFault.misplacedEntry record.qualifiedName entry.1 cause) loaded
  change Except.map _ (List.foldlM _ _ _) = _
  rw [ran]
  rfl

end RecordSchema

/-! ## Documents -/

/-- A schema under the name that is left without a double colon in front. -/
def RecordSchema.unmarked (schema : RecordSchema) : RecordSchema :=
  ⟨(Text.dropMark "::" schema.qualifiedName).getD schema.qualifiedName, schema.entries⟩

namespace Schema

/-- What a document has for a record. -/
def memberOf (schema : RecordSchema) : String × Value :=
  (schema.qualifiedName, .object (schema.entries.map fun entry => (entry.1, entry.2.write)))

/-- The document of some records. -/
def documentOfAll (schemas : List RecordSchema) : Value :=
  .object (schemas.map memberOf)

/-- The document of one record. -/
def documentOf (qualifiedName : String) (entries : List (String × SchemaEntry)) : Value :=
  documentOfAll [⟨qualifiedName, entries⟩]

/-- The member of a record has all its entries. -/
theorem ofRecord_eq {record : Record} {options : ExportOptions} {keys : SortedMap String}
    (closed : record.tree.IsClosed) (named : record.tree.outline.IsNamed)
    (keyed : exportedKeys record options = .ok keys) :
    (ofRecord record options).map (fun schema => (record.qualifiedName, schema)) =
      .ok (memberOf ⟨record.qualifiedName, recordEntries record keys⟩) := by
  have paths := nodup_recordEntries closed named keys
  have written : ((recordEntries record keys).map fun entry => (entry.1, entry.2.write)).map
      Prod.fst = (recordEntries record keys).map Prod.fst := by
    rw [List.map_map]
    rfl
  have kept := Members.collect_of_distinct (written ▸ paths)
  rw [memberOf, ofRecord, keyed, ← kept]
  rfl

theorem ofRecords_singleton {record : Record} {options : ExportOptions} {keys : SortedMap String}
    (closed : record.tree.IsClosed) (named : record.tree.outline.IsNamed)
    (keyed : exportedKeys record options = .ok keys) :
    ofRecords [record] options =
      .ok (documentOf record.qualifiedName (recordEntries record keys)) := by
  have single : Members.collect [memberOf ⟨record.qualifiedName, recordEntries record keys⟩] =
      [memberOf ⟨record.qualifiedName, recordEntries record keys⟩] :=
    Members.collect_of_distinct (List.nodup_singleton _)
  rw [ofRecords, List.mapM_cons, List.mapM_nil, ofRecord_eq closed named keyed]
  change Except.ok (Value.object (Members.collect _)) = _
  rw [single]
  rfl

theorem ofRecords_of_clash {record : Record} {options : ExportOptions} {clash : KeyClash}
    (failed : exportedKeys record options = .error clash) :
    ofRecords [record] options = .error clash := by
  rw [ofRecords, List.mapM_cons, ofRecord, failed]
  rfl

theorem isTextual_documentOfAll (depth : Nat) {schemas : List RecordSchema}
    (names : (schemas.map RecordSchema.qualifiedName).Nodup)
    (paths : ∀ schema ∈ schemas, (schema.entries.map Prod.fst).Nodup) :
    (documentOfAll schemas).IsTextual (depth + 4) := by
  have written : ∀ schema ∈ schemas, (memberOf schema).2.IsTextual (depth + 3) := by
    intro schema listed
    apply Value.IsTextual.object
    · rw [List.map_map]
      exact paths schema listed
    · intro member inside
      rcases List.mem_map.mp inside with ⟨entry, _, rfl⟩
      exact entry.2.isTextual_write depth
  apply Value.IsTextual.object
  · rw [List.map_map]
    exact names
  · exact List.forall_mem_map.mpr written

end Schema

namespace SchemaDocument

theorem readEntries_write (record : String) (entries : List (String × SchemaEntry)) :
    readEntries record (entries.map fun entry => (entry.1, entry.2.write)) = .ok entries := by
  rw [readEntries]
  induction entries with
  | nil => rfl
  | cons entry rest ih =>
      rw [List.map_cons, List.mapM_cons, ih]
      dsimp only
      rw [SchemaEntry.read_write]
      rfl

/-- A record is read under its name, less a double colon in front. -/
theorem readRecord_memberOf (schema : RecordSchema) :
    readRecord (Schema.memberOf schema).1 (Schema.memberOf schema).2 = .ok schema.unmarked := by
  rw [Schema.memberOf, readRecord, readEntries_write]
  rfl

theorem ofValue_unmarked (schemas : List RecordSchema) :
    ofValue (Schema.documentOfAll schemas) = .ok ⟨schemas.map RecordSchema.unmarked⟩ := by
  have read : (schemas.map Schema.memberOf).mapM (fun member => readRecord member.1 member.2) =
      .ok (schemas.map RecordSchema.unmarked) := by
    induction schemas with
    | nil => rfl
    | cons schema rest ih =>
        rw [List.map_cons, List.mapM_cons, ih, readRecord_memberOf]
        rfl
  rw [Schema.documentOfAll, ofValue]
  exact congrArg (Except.map SchemaDocument.mk) read

/-- The text of a document is read like the document itself. -/
theorem ofText_unmarked {schemas : List RecordSchema}
    (names : (schemas.map RecordSchema.qualifiedName).Nodup)
    (paths : ∀ schema ∈ schemas, (schema.entries.map Prod.fst).Nodup) :
    ofText (Schema.render (Schema.documentOfAll schemas)) =
      .ok ⟨schemas.map RecordSchema.unmarked⟩ := by
  have textual := Schema.isTextual_documentOfAll 123 names paths
  rw [ofText, Schema.render, textual.parse_indented]
  dsimp only
  rw [ofValue_unmarked]
  rfl

theorem map_unmarked {schemas : List RecordSchema}
    (unmarked : ∀ schema ∈ schemas, Text.dropMark "::" schema.qualifiedName = none) :
    schemas.map RecordSchema.unmarked = schemas := by
  refine (List.map_congr_left fun schema listed => ?_).trans (List.map_id schemas)
  rw [RecordSchema.unmarked, unmarked schema listed]
  rfl

/-- The document of some records is read as their schemas. -/
theorem ofValue_documentOfAll {schemas : List RecordSchema}
    (unmarked : ∀ schema ∈ schemas, Text.dropMark "::" schema.qualifiedName = none) :
    ofValue (Schema.documentOfAll schemas) = .ok ⟨schemas⟩ := by
  rw [ofValue_unmarked, map_unmarked unmarked]

theorem ofValue_documentOf {qualifiedName : String}
    (unmarked : Text.dropMark "::" qualifiedName = none)
    (entries : List (String × SchemaEntry)) :
    ofValue (Schema.documentOf qualifiedName entries) = .ok ⟨[⟨qualifiedName, entries⟩]⟩ :=
  ofValue_documentOfAll (List.forall_mem_singleton.mpr unmarked)

/-- The text of the document of some records is read as the document. -/
theorem ofText_render_documentOfAll {schemas : List RecordSchema}
    (unmarked : ∀ schema ∈ schemas, Text.dropMark "::" schema.qualifiedName = none)
    (names : (schemas.map RecordSchema.qualifiedName).Nodup)
    (paths : ∀ schema ∈ schemas, (schema.entries.map Prod.fst).Nodup) :
    ofText (Schema.render (Schema.documentOfAll schemas)) = .ok ⟨schemas⟩ := by
  rw [ofText_unmarked names paths, map_unmarked unmarked]

/-- The text of the document of one record is read as the document. -/
theorem ofText_render_documentOf {qualifiedName : String}
    (unmarked : Text.dropMark "::" qualifiedName = none) {entries : List (String × SchemaEntry)}
    (paths : (entries.map Prod.fst).Nodup) :
    ofText (Schema.render (Schema.documentOf qualifiedName entries)) =
      .ok ⟨[⟨qualifiedName, entries⟩]⟩ :=
  ofText_render_documentOfAll (List.forall_mem_singleton.mpr unmarked) (List.nodup_singleton _)
    (List.forall_mem_singleton.mpr paths)

end SchemaDocument

/-! ## The pattern for all names -/

namespace PatternToken

theorem spread_true (places : Places) : spread true places = places.map fun _ => true := by
  induction places with
  | nil => rfl
  | cons mark marks ih =>
      rw [spread, Bool.true_or, ih]
      rfl

end PatternToken

/-- A star alone matches every name. -/
theorem NamePattern.matches_star (name : String) :
    (NamePattern.mk [.anyBytes]).matches name = true := by
  change (PatternToken.spread false (PatternToken.start (Text.utf8 name))).getLastD false = true
  rw [PatternToken.start, PatternToken.spread, Bool.false_or, PatternToken.spread_true,
    List.map_map]
  have all : ∀ mark ∈ true :: (Text.utf8 name).map ((fun _ => true) ∘ fun _ => false),
      mark = true := by
    intro mark listed
    rcases List.mem_cons.mp listed with same | later
    · exact same
    · rcases List.mem_map.mp later with ⟨_, _, same⟩
      exact same.symm
  rw [List.getLastD_eq_getLast?, List.getLast?_eq_some_getLast (List.cons_ne_nil _ _)]
  exact all _ (List.getLast_mem _)

theorem RecordSource.findRecords_star (document : SchemaDocument) :
    (RecordSource.schema document).findRecords "*" =
      (document.records.mapM RecordSchema.build).mapError .invalidSchema := by
  have parsed : NamePattern.parse "*" = .ok ⟨[.anyBytes]⟩ := rfl
  have all : document.records.filter (fun schema =>
      (NamePattern.mk [.anyBytes]).matches schema.qualifiedName) = document.records :=
    List.filter_eq_self.mpr fun schema _ => NamePattern.matches_star schema.qualifiedName
  rw [findRecords, parsed]
  change ((document.records.filter _).mapM RecordSchema.build).mapError _ = _
  rw [all]

/-! ## There and back -/

/-- The record that comes back: the outline is the same, with the lines of every piece of
documentation joined by line feeds. -/
def Record.reloaded (record : Record) : Record where
  namespaces := record.namespaces
  name := record.name
  origin := .schema
  tree := .ofOutline record.name (rejoinLines record.tree.root.doc)
    (record.tree.outline.mapDocs rejoinLines)

/-- The document of a record on its own. -/
def Record.document (record : Record) (keys : SortedMap String) : SchemaDocument :=
  ⟨[⟨record.qualifiedName, Schema.recordEntries record keys⟩]⟩

/-- The entries of a record build the record that comes back. -/
theorem build_recordEntries {record : Record} (isScoped : record.IsScoped)
    (closed : record.tree.IsClosed) (named : record.tree.outline.IsNamed)
    (keys : SortedMap String) :
    RecordSchema.build ⟨record.qualifiedName, Schema.recordEntries record keys⟩ =
      .ok record.reloaded := by
  rw [Schema.recordEntries_eq closed keys]
  exact RecordSchema.build_outline isScoped named keys record.tree.root.doc

/-- The document of a record gives the record back. -/
theorem findRecords_document {record : Record} (wellScoped : record.HasScopes)
    (closed : record.tree.IsClosed) (named : record.tree.outline.IsNamed)
    (keys : SortedMap String) :
    (RecordSource.schema (record.document keys)).findRecords "*" = .ok [record.reloaded] := by
  rw [RecordSource.findRecords_star, Record.document, List.mapM_cons, List.mapM_nil,
    build_recordEntries wellScoped.isScoped closed named keys]
  rfl

theorem listing_reloaded {record : Record} (closed : record.tree.IsClosed) :
    record.reloaded.tree.listing = record.tree.listing.map fun entry =>
      (entry.1, entry.2.map fun field => field.withDoc (rejoinLines field.doc)) := by
  rw [Record.reloaded, FieldTree.listing_eq (FieldTree.isClosed_ofOutline _ _ _),
    FieldTree.outline_ofOutline, Outline.entries_mapDocs, FieldTree.listing_eq closed, List.map_map,
    List.map_map]
  rfl

theorem docs_reloaded {record : Record} (closed : record.tree.IsClosed) :
    record.reloaded.tree.docs = record.tree.docs.map rejoinLines := by
  have changed : ∀ field : Field, (field.withDoc (rejoinLines field.doc)).doc =
      rejoinLines field.doc := by
    intro field
    cases field <;> rfl
  rw [Record.reloaded, FieldTree.docs_eq (FieldTree.isClosed_ofOutline _ _ _),
    FieldTree.outline_ofOutline, Outline.entries_mapDocs, FieldTree.docs_eq closed, List.map_cons,
    List.map_map, List.map_map]
  congr 1
  apply List.map_congr_left
  intro entry _
  exact changed entry.2

/-- Documentation comes back unchanged when all of it keeps its lines, and only then. -/
theorem docs_reloaded_eq_iff {record : Record} (closed : record.tree.IsClosed) :
    record.reloaded.tree.docs = record.tree.docs ↔
      ∀ doc ∈ record.tree.docs, Text.KeepsLines doc := by
  rw [docs_reloaded closed]
  constructor
  · intro same doc listed
    have unchanged : record.tree.docs.map rejoinLines = record.tree.docs.map id := by
      rw [same, List.map_id]
    exact (Text.rejoinLines_eq_self doc).mp (List.map_inj_left.mp unchanged doc listed)
  · intro kept
    have unchanged : record.tree.docs.map rejoinLines = record.tree.docs.map id :=
      List.map_inj_left.mpr fun doc listed => (Text.rejoinLines_eq_self doc).mpr (kept doc listed)
    rw [unchanged, List.map_id]

/-- Nothing is lost of a tree that is laid out as it is walked and whose documentation keeps its
lines. -/
theorem tree_reloaded {record : Record} (rooted : record.tree.root.identifier = record.name)
    (closed : record.tree.IsClosed) (kept : ∀ doc ∈ record.tree.docs, Text.KeepsLines doc)
    (numbered : record.tree.IsNumberedInPreorder) : record.reloaded.tree = record.tree := by
  rw [FieldTree.docs_eq closed, List.forall_mem_cons] at kept
  have rootKept := (Text.rejoinLines_eq_self _).mpr kept.1
  have outlineKept : record.tree.outline.mapDocs rejoinLines = record.tree.outline := by
    apply Outline.mapDocs_eq_self
    intro entry listed
    exact (Text.rejoinLines_eq_self _).mpr (kept.2 _ (List.mem_map.mpr ⟨entry, listed, rfl⟩))
  rw [Record.reloaded, rootKept, outlineKept, ← rooted]
  exact FieldTree.ofOutline_outline numbered

/-- The keys to write can be given unless they are asked for and clash. -/
theorem exportedKeys_cases (record : Record) (options : ExportOptions) :
    (∃ clash, options.withKeys = true ∧ (keyRulesFor record options.overrides options.separator
        options.keyStyle).resolve record.tree = .error clash ∧
      Schema.exportedKeys record options = .error clash) ∨
    ∃ keys, Schema.exportedKeys record options = .ok keys := by
  rw [Schema.exportedKeys]
  by_cases withKeys : options.withKeys = true
  · rw [if_pos withKeys]
    dsimp only
    cases resolved : (keyRulesFor record options.overrides options.separator
        options.keyStyle).resolve record.tree with
    | error clash => exact .inl ⟨clash, withKeys, rfl, rfl⟩
    | ok leaves => exact .inr ⟨_, rfl⟩
  · rw [if_neg withKeys]
    exact .inr ⟨_, rfl⟩

theorem exportedKeys_of_resolved {record : Record} {options : ExportOptions}
    (keyed : options.withKeys = true → ∃ leaves, (keyRulesFor record options.overrides
      options.separator options.keyStyle).resolve record.tree = .ok leaves) :
    ∃ keys, Schema.exportedKeys record options = .ok keys := by
  rcases exportedKeys_cases record options with ⟨clash, withKeys, failed, _⟩ | exported
  · rcases keyed withKeys with ⟨leaves, resolved⟩
    rw [failed] at resolved
    cases resolved
  · exact exported

/-- A record that is exported and loaded again comes back alone, under its name, and with the same
fields in the same order; only line breaks of the documentation may be lost, and it is said exactly
when.  A tree that loses none comes back whole when its fields are numbered as they are walked. -/
theorem reload_export {record : Record} {options : ExportOptions}
    (rooted : record.tree.root.identifier = record.name) (wellScoped : record.HasScopes)
    (plain : record.tree.HasPlainNames) (distinct : record.tree.HasDistinctSiblings)
    (keyed : options.withKeys = true → ∃ leaves, (keyRulesFor record options.overrides
      options.separator options.keyStyle).resolve record.tree = .ok leaves) :
    ∃ value document reloaded,
      Schema.ofRecords [record] options = .ok value ∧
      SchemaDocument.ofValue value = .ok document ∧
      (RecordSource.schema document).findRecords "*" = .ok [reloaded] ∧
      reloaded.namespaces = record.namespaces ∧
      reloaded.name = record.name ∧
      reloaded.tree.root.identifier = record.tree.root.identifier ∧
      reloaded.tree.root.doc = rejoinLines record.tree.root.doc ∧
      reloaded.tree.listing = record.tree.listing.map (fun entry =>
        (entry.1, entry.2.map fun field => field.withDoc (rejoinLines field.doc))) ∧
      (reloaded.tree.docs = record.tree.docs ↔ ∀ doc ∈ record.tree.docs, Text.KeepsLines doc) ∧
      ((∀ doc ∈ record.tree.docs, Text.KeepsLines doc) → record.tree.IsNumberedInPreorder →
        reloaded.tree = record.tree) := by
  have closed := plain.isClosed
  have named := FieldTree.isNamed_outline plain distinct
  rcases exportedKeys_of_resolved keyed with ⟨keys, exported⟩
  refine ⟨_, record.document keys, record.reloaded, Schema.ofRecords_singleton closed named exported,
    SchemaDocument.ofValue_documentOf wellScoped.dropMark_qualifiedName _,
    findRecords_document wellScoped closed named keys, rfl, rfl, rooted.symm, rfl,
    listing_reloaded closed, docs_reloaded_eq_iff closed, ?_⟩
  exact tree_reloaded rooted closed

/-- The width in the sub-record is documented by a text that ends in a line feed. -/
theorem reload_export_window :
    Record.window.tree.root.identifier = Record.window.name ∧ Record.window.HasScopes ∧
      Record.window.tree.HasPlainNames ∧ Record.window.tree.HasDistinctSiblings ∧
      ∃ value document reloaded,
        Schema.ofRecords [Record.window] ⟨true, "/", none, .empty⟩ = .ok value ∧
        SchemaDocument.ofValue value = .ok document ∧
        (RecordSource.schema document).findRecords "*" = .ok [reloaded] ∧
        reloaded.namespaces = Record.window.namespaces ∧
        reloaded.name = Record.window.name ∧
        reloaded.tree.root.identifier = Record.window.tree.root.identifier ∧
        reloaded.tree.root.doc = rejoinLines Record.window.tree.root.doc ∧
        reloaded.tree.listing = Record.window.tree.listing.map (fun entry =>
          (entry.1, entry.2.map fun field => field.withDoc (rejoinLines field.doc))) ∧
        (reloaded.tree.docs = Record.window.tree.docs ↔
          ∀ doc ∈ Record.window.tree.docs, Text.KeepsLines doc) ∧
        ((∀ doc ∈ Record.window.tree.docs, Text.KeepsLines doc) →
          Record.window.tree.IsNumberedInPreorder → reloaded.tree = Record.window.tree) := by
  have wellScoped : Record.window.HasScopes := by
    intro scope listed
    rcases List.mem_cons.mp listed with rfl | later
    · decide
    · rw [List.mem_singleton.mp later]
      decide
  have plain : Record.window.tree.HasPlainNames := by decide
  have distinct : Record.window.tree.HasDistinctSiblings := by decide
  refine ⟨rfl, wellScoped, plain, distinct, reload_export rfl wellScoped plain distinct ?_⟩
  intro _
  exact resolve_window

end KeyedReflection
