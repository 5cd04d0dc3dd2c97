import KeyedReflection.Proofs.Results
import KeyedReflection.Proofs.Schema.Placing

/-!
# Records from entries in any order

Every tree that shows entries which go together tells what they describe: its walk finds a leaf for each
typed entry, and a sub-record for every other path that entries have or pass (`Shows.isRecordOf`).

Neither the verdict nor the content depends on the order of the entries (`build_cases`), so that entries in
another order are refused as well, or give the same record up to the order of siblings (`IsRearranged`).
-/

namespace KeyedReflection
namespace RecordSchema

open FieldTree (rootId)
open Text (IsPlainName)

section

variable {name : String} {entries : List (String × SchemaEntry)} {text : String}

/-- The paths under which a tree has fields are those of entries and what these pass, so that they can be
written with dots. -/
theorem Shows.plain_of_at? {tree : FieldTree} (shown : Shows name entries tree)
    (consistent : IsConsistent entries) {path : List String} {field : Field}
    (there : tree.at? path = some field) : ∀ segment ∈ path, IsPlainName segment := by
  have ahead : path = [] ∨ ∃ entry ∈ entries, path <+: pathOf entry.1 := by
    rw [shown.content] at there
    rcases described_cases there with ⟨entry, listed, own, _⟩ | ⟨_, onWay, _⟩
    · exact .inr ⟨entry, listed, own ▸ List.prefix_rfl⟩
    · exact onWay.imp id fun ⟨entry, listed, above⟩ => ⟨entry, listed, above.1⟩
  rcases ahead with rfl | ⟨entry, listed, onWay⟩
  · intro segment inside
    cases inside
  · intro segment inside
    exact plain_pathOf (consistent.named entry listed) segment (onWay.subset inside)

/-- The walk of a tree finds what the entries describe. -/
theorem Shows.mem_listing_iff {tree : FieldTree} (shown : Shows name entries tree)
    (consistent : IsConsistent entries) {field : Field} :
    (text, some field) ∈ tree.listing ↔
      text ≠ "" ∧ described name entries (pathOf text) = some field := by
  rw [shown.grown.mem_listing_iff]
  constructor
  · rintro ⟨path, nonempty, rfl, there⟩
    have plain := shown.plain_of_at? consistent there
    rw [pathOf_join plain, ← shown.content]
    exact ⟨Text.join_ne_empty nonempty plain, there⟩
  · rintro ⟨nonempty, there⟩
    refine ⟨pathOf text, mt pathOf_eq_nil_iff.mp nonempty, (join_pathOf text).symm, ?_⟩
    rw [shown.content]
    exact there

end

/-! ## Building -/

/-- A record that says what the entries of a schema say. -/
structure IsRecordOf (schema : RecordSchema) (record : Record) : Prop where
  scopes : Text.splitScopes schema.qualifiedName = record.namespaces ++ [record.name]
  fromSchema : record.origin = .schema
  root : record.tree.root.identifier = record.name ∧
    record.tree.root.doc = docOf schema.entries ""
  distinctSiblings : record.tree.HasDistinctSiblings
  /-- No two fields are found under one dotted id. -/
  distinctIds : (record.tree.listing.map Prod.fst).Nodup
  present : ∀ entry ∈ record.tree.listing, ∃ field, entry.2 = some field
  /-- The leaves are those of typed entries. -/
  leaves : ∀ text l, (text, some (.leaf l)) ∈ record.tree.listing ↔
    ∃ entry type, (text, entry) ∈ schema.entries ∧ entry.type = some type ∧
      l = { identifier := nameOf text
            declaredType := type
            canonicalType := entry.canonicalType.getD type
            isOptional := entry.isOptional.getD false
            hasDefault := entry.hasDefault.getD false
            doc := Text.join "\n" entry.comment }
  /-- The sub-records are those of untyped entries, and those that are passed on the way to entries. -/
  nodes : ∀ text n, (text, some (.node n)) ∈ record.tree.listing ↔
    IsSubRecord schema.entries text ∧ n = ⟨nameOf text, docOf schema.entries text, []⟩

/-- Two records that differ in nothing but the order of siblings. -/
structure IsRearranged (record other : Record) : Prop where
  namespaces_eq : other.namespaces = record.namespaces
  name_eq : other.name = record.name
  origin_eq : other.origin = record.origin
  root : other.tree.root.identifier = record.tree.root.identifier ∧
    other.tree.root.doc = record.tree.root.doc
  fields : other.tree.listing.Perm record.tree.listing
  siblings : ∀ path, (other.tree.namesAt path).Perm (record.tree.namesAt path)

/-- A record is built exactly when its entries go together, and then its tree shows them. -/
theorem build_cases (schema : RecordSchema)
    (wellNamed : "" ∉ Text.splitScopes schema.qualifiedName)
    (distinct : (schema.entries.map Prod.fst).Nodup) :
    (IsConsistent schema.entries ∧ ∃ tree,
      build schema = .ok ⟨(Text.splitScopes schema.qualifiedName).dropLast,
        (Text.splitScopes schema.qualifiedName).getLastD "", .schema, tree⟩ ∧
      Shows ((Text.splitScopes schema.qualifiedName).getLastD "") schema.entries tree) ∨
    ¬ IsConsistent schema.entries ∧ ∃ fault, build schema = .error fault := by
  let change : String × SchemaEntry → EntryCause → SchemaFault := fun entry cause =>
    .misplacedEntry schema.qualifiedName entry.1 cause
  rw [build, if_neg wellNamed]
  rcases addEntries_cases schema.entries (shows_new _) isConsistent_nil distinct with
    ⟨consistent, tree, added, shown⟩ | ⟨inconsistent, cause, failed⟩
  · have ran := foldlM_mapError change added
    refine .inl ⟨consistent, tree, ?_, shown⟩
    change Except.map _ (List.foldlM _ _ _) = _
    rw [ran]
    rfl
  · rcases foldlM_mapError_error change failed with ⟨fault, ran⟩
    refine .inr ⟨inconsistent, fault, ?_⟩
    change Except.map _ (List.foldlM _ _ _) = _
    rw [ran]
    rfl

section

variable {schema : RecordSchema}

theorem Shows.root_eq {name : String} {tree : FieldTree} (shown : Shows name schema.entries tree)
    (consistent : IsConsistent schema.entries) (distinct : (schema.entries.map Prod.fst).Nodup) :
    tree.root.identifier = name ∧ tree.root.doc = docOf schema.entries "" := by
  have there : described name schema.entries (pathOf "") =
      some (.node ⟨tree.root.identifier, tree.root.doc, []⟩) := (shown.content []).symm
  have root := ((described_node_iff consistent distinct).mp there).2
  rw [Node.mk.injEq, pathOf_empty] at root
  exact ⟨root.1, root.2.1⟩

theorem Shows.isRecordOf {name : String} {tree : FieldTree} (shown : Shows name schema.entries tree)
    (consistent : IsConsistent schema.entries) (distinct : (schema.entries.map Prod.fst).Nodup)
    {namespaces : List String}
    (scopes : Text.splitScopes schema.qualifiedName = namespaces ++ [name]) :
    IsRecordOf schema ⟨namespaces, name, .schema, tree⟩ := by
  refine ⟨scopes, rfl, shown.root_eq consistent distinct, shown.grown.distinct,
    shown.grown.nodup_listing, fun _ listed => shown.grown.exists_of_mem_listing listed, ?_, ?_⟩
  · intro text l
    rw [shown.mem_listing_iff consistent, described_leaf_iff distinct]
    constructor
    · rintro ⟨nonempty, entry, type, listed, typed, same⟩
      rw [nameOf_eq nonempty] at same
      exact ⟨entry, type, listed, typed, same⟩
    · rintro ⟨entry, type, listed, typed, same⟩
      have nonempty : text ≠ "" := by
        rintro rfl
        rw [consistent.untypedRecord _ listed rfl] at typed
        cases typed
      refine ⟨nonempty, entry, type, listed, typed, ?_⟩
      rw [nameOf_eq nonempty]
      exact same
  · intro text n
    rw [shown.mem_listing_iff consistent, described_node_iff consistent distinct]
    constructor
    · rintro ⟨nonempty, isNode, same⟩
      rw [nameOf_eq nonempty] at same
      exact ⟨isNode.resolve_left nonempty, same⟩
    · rintro ⟨isNode, same⟩
      rw [nameOf_eq isNode.1]
      exact ⟨isNode.1, .inr isNode, same⟩

end

/-- A record is built exactly when its entries go together, whatever their order.  It then has the leaves
of the typed entries and the sub-records of the others and of those that are passed on the way, each
documented by its own entry.  Entries in another order are refused as well, or give the same record up to
the order of siblings. -/
theorem build_iff_isConsistent {schema : RecordSchema}
    (wellNamed : "" ∉ Text.splitScopes schema.qualifiedName)
    (distinct : (schema.entries.map Prod.fst).Nodup) :
    ((∃ record, build schema = .ok record) ↔ IsConsistent schema.entries) ∧
    (∀ record, build schema = .ok record → IsRecordOf schema record) ∧
    ∀ entries, entries.Perm schema.entries →
      (∃ fault other, build schema = .error fault ∧
        build { schema with entries } = .error other) ∨
      ∃ record other, build schema = .ok record ∧ build { schema with entries } = .ok other ∧
        IsRearranged record other := by
  have scopes : Text.splitScopes schema.qualifiedName =
      (Text.splitScopes schema.qualifiedName).dropLast ++
        [(Text.splitScopes schema.qualifiedName).getLastD ""] := by
    have nonempty := Text.splitScopes_ne_nil schema.qualifiedName
    rw [List.getLastD_eq_getLast?, List.getLast?_eq_some_getLast nonempty]
    exact (List.dropLast_append_getLast nonempty).symm
  refine ⟨?_, ?_, ?_⟩
  · rcases build_cases schema wellNamed distinct with ⟨consistent, tree, built, _⟩ | ⟨inconsistent, fault, failed⟩
    · exact iff_of_true ⟨_, built⟩ consistent
    · apply iff_of_false _ inconsistent
      rintro ⟨record, built⟩
      rw [failed] at built
      cases built
  · intro record built
    rcases build_cases schema wellNamed distinct with ⟨consistent, tree, there, shown⟩ | ⟨_, fault, failed⟩
    · rw [there] at built
      cases built
      exact shown.isRecordOf consistent distinct scopes
    · rw [failed] at built
      cases built
  · intro entries permuted
    have distinctEntries : (entries.map Prod.fst).Nodup :=
      (permuted.map Prod.fst).nodup_iff.mpr distinct
    rcases build_cases schema wellNamed distinct with ⟨consistent, tree, built, shown⟩ | ⟨inconsistent, fault, failed⟩
    · rcases build_cases { schema with entries } wellNamed distinctEntries with
        ⟨_, other, otherBuilt, otherShown⟩ | ⟨otherwise, _⟩
      · have same : ∀ path, other.at? path = tree.at? path := by
          intro path
          rw [otherShown.content, shown.content]
          exact described_perm distinct permuted path
        have root : Field.node ⟨other.root.identifier, other.root.doc, []⟩ =
            .node ⟨tree.root.identifier, tree.root.doc, []⟩ := Option.some.inj (same [])
        rw [Field.node.injEq, Node.mk.injEq] at root
        exact .inr ⟨_, _, built, otherBuilt, rfl, rfl, rfl, ⟨root.1, root.2.1⟩,
          otherShown.grown.listing_perm shown.grown same,
          otherShown.grown.namesAt_perm shown.grown same⟩
      · exact absurd ((isConsistent_perm permuted).mpr consistent) otherwise
    · rcases build_cases { schema with entries } wellNamed distinctEntries with
        ⟨otherwise, _⟩ | ⟨_, other, otherFailed⟩
      · exact absurd ((isConsistent_perm permuted).mp otherwise) inconsistent
      · exact .inl ⟨fault, other, failed, otherFailed⟩

/-- The entries of a window.  The sub-record has its own entry last. -/
def window : RecordSchema where
  qualifiedName := "ui::Window"
  entries := [("size.width", { SchemaEntry.blank with type := some "int" }),
    ("title", { SchemaEntry.blank with type := some "std::string" }),
    ("size", { SchemaEntry.blank with comment := ["A size.", "In cells."] })]

theorem build_iff_isConsistent_window :
    ("" ∉ Text.splitScopes window.qualifiedName ∧ (window.entries.map Prod.fst).Nodup) ∧
    IsConsistent window.entries ∧
    ∃ record other, build window = .ok record ∧ IsRecordOf window record ∧
      build { window with entries := window.entries.reverse } = .ok other ∧
      IsRearranged record other := by
  have wellNamed : "" ∉ Text.splitScopes window.qualifiedName := by decide
  have distinct : (window.entries.map Prod.fst).Nodup := by decide
  have settled := build_iff_isConsistent wellNamed distinct
  have succeeds : (build window).isOk = true := by decide
  refine ⟨⟨wellNamed, distinct⟩, ?_⟩
  rcases settled.2.2 window.entries.reverse (List.reverse_perm _) with
    ⟨fault, _, failed, _⟩ | ⟨record, other, built, otherBuilt, rearranged⟩
  · rw [failed] at succeeds
    cases succeeds
  · exact ⟨settled.1.mp ⟨record, built⟩, record, other, built, settled.2.1 record built, otherBuilt,
      rearranged⟩

end RecordSchema
end KeyedReflection
