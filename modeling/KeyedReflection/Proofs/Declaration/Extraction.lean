import KeyedReflection.Proofs.Declaration.Documentation
import KeyedReflection.Proofs.Schema.RoundTrip

/-!
# Records of lawful declarations

The fields of a definition enter the table of a tree one after the other, each sub-record before what
is inside it.  So whatever the walk over a definition adds to a tree is an outline that the tree grew by
(`addMembers_outline`), and a record is the layout of an outline.  Where the declarations are lawful,
the outline has plain and distinct names and keeps the lines of its documentation.

This is all that a schema asks for: a record that was taken from lawful declarations is the same record
after it was written as a schema and read again.
-/

namespace KeyedReflection

open Text (IsPlainName rejoinLines)

/-! ## Outlines that come back -/

/-- An outline that a schema holds whole: its names are plain and distinct, and its documentation keeps
its lines. -/
structure Outline.IsKept (outline : Outline) : Prop where
  named : outline.IsNamed
  docs : outline.mapDocs rejoinLines = outline

namespace Outline.IsKept

theorem nil : Outline.nil.IsKept :=
  ⟨trivial, rfl⟩

theorem leaf {l : Leaf} {rest : Outline} (kept : rest.IsKept) (plain : IsPlainName l.identifier)
    (alone : l.identifier ∉ rest.identifiers) (doc : Text.KeepsLines l.doc) :
    (Outline.leaf l rest).IsKept := by
  refine ⟨⟨plain, alone, kept.named⟩, ?_⟩
  rw [Outline.mapDocs, kept.docs, (Text.rejoinLines_eq_self l.doc).mpr doc]

theorem node {identifier doc : String} {members rest : Outline} (inside : members.IsKept)
    (kept : rest.IsKept) (plain : IsPlainName identifier) (alone : identifier ∉ rest.identifiers)
    (keeps : Text.KeepsLines doc) : (Outline.node identifier doc members rest).IsKept := by
  refine ⟨⟨plain, alone, inside.named, kept.named⟩, ?_⟩
  rw [Outline.mapDocs, kept.docs, inside.docs, (Text.rejoinLines_eq_self doc).mpr keeps]

end Outline.IsKept

namespace RecordIndex

@[simp] theorem identifier_leafOf (field : Declaration) (name : String) :
    (leafOf field name).identifier = name := by
  rw [leafOf]

@[simp] theorem doc_leafOf (field : Declaration) (name : String) :
    (leafOf field name).doc =
      Documentation.ofDeclaration field (beginColumn field.attributes) := by
  rw [leafOf]

/-! ## Adding the members of a definition -/

theorem fieldName?_of_unnamedDefinition {index : RecordIndex} {child : Declaration}
    {unnamed : Option Nat} (defined : index.unnamedDefinition? child = some unnamed) :
    fieldName? child = none := by
  rw [unnamedDefinition?] at defined
  split at defined
  · rename_i definition
    have different : child.kind ≠ .fieldDeclaration := by
      rw [Declaration.kind, definition.1]
      decide
    rw [fieldName?, if_neg different]
  · cases defined

/-- What one child of a definition adds to a tree. -/
def addChild (index : RecordIndex) (definition : RecordDefinition) (visiting : List Nat)
    (nest : Nat → RecordDefinition → FieldTree → FieldId → Except RecursiveRecord FieldTree)
    (parent : FieldId) (child : Declaration) (unnamed : Option Nat) (tree : FieldTree) :
    Except RecursiveRecord FieldTree :=
  match fieldName? child with
  | none => .ok tree
  | some name =>
    match index.nestedDefinition? definition child unnamed with
    | none => .ok (tree.add parent (.leaf (leafOf child name)))
    | some (position, nested) =>
      if position ∈ visiting then .error ⟨definition.qualifiedName, name⟩
      else nest position nested (tree.add parent (.node ⟨name,
        Documentation.ofDeclaration nested.declaration nested.column, []⟩)) tree.size

/-- A field means a definition of the index when its type is resolved to the position of one. -/
theorem nestedDefinition?_eq_some_iff {index : RecordIndex} {definition nested : RecordDefinition}
    {field : Declaration} {unnamed : Option Nat} {position : Nat} :
    index.nestedDefinition? definition field unnamed = some (position, nested) ↔
      index.resolve? field.attributes.writtenType definition.lookupScope unnamed = some position ∧
      index.definitions[position]? = some nested := by
  rw [nestedDefinition?, Option.bind_eq_some_iff]
  constructor
  · rintro ⟨place, meant, there⟩
    rcases Option.map_eq_some_iff.mp there with ⟨held, listed, same⟩
    cases same
    exact ⟨meant, listed⟩
  · rintro ⟨meant, listed⟩
    exact ⟨position, meant, Option.map_eq_some_iff.mpr ⟨nested, listed, rfl⟩⟩

section

variable {index : RecordIndex} {definition : RecordDefinition} {visiting : List Nat}
  {nest : Nat → RecordDefinition → FieldTree → FieldId → Except RecursiveRecord FieldTree}
  {parent : FieldId} {child : Declaration} {children : List Declaration}
  {lastUnnamed : Option Nat} {tree grown : FieldTree}

/-- The children add to the tree one after the other. -/
theorem addChildren_cons_eq :
    addChildren index definition visiting nest parent (child :: children) lastUnnamed tree =
      (addChild index definition visiting nest parent child lastUnnamed tree).bind fun next =>
        addChildren index definition visiting nest parent children
          ((index.unnamedDefinition? child).getD lastUnnamed) next := by
  rw [addChildren, addChild]
  cases defined : index.unnamedDefinition? child with
  | some behind =>
      rw [fieldName?_of_unnamedDefinition defined]
      rfl
  | none =>
      cases fieldName? child with
      | none => rfl
      | some name =>
          dsimp only
          cases index.nestedDefinition? definition child lastUnnamed with
          | none => rfl
          | some found =>
              rcases found with ⟨position, nested⟩
              dsimp only
              by_cases again : position ∈ visiting
              · rw [if_pos again, if_pos again]
                rfl
              · rw [if_neg again, if_neg again, FieldTree.last_add]
                cases nest position nested _ tree.size <;> rfl

/-- A child that was passed adds nothing, or a leaf, or a sub-record and what is nested in it. -/
theorem addChildren_cons
    (added : addChildren index definition visiting nest parent (child :: children) lastUnnamed tree =
      .ok grown) :
    ∃ next,
      addChildren index definition visiting nest parent children
        ((index.unnamedDefinition? child).getD lastUnnamed) next = .ok grown ∧
      ((fieldName? child = none ∧ next = tree) ∨
        ∃ name, fieldName? child = some name ∧
          ((index.nestedDefinition? definition child lastUnnamed = none ∧
              next = tree.add parent (.leaf (leafOf child name))) ∨
            ∃ position nested, position ∉ visiting ∧
              index.nestedDefinition? definition child lastUnnamed = some (position, nested) ∧
              nest position nested (tree.add parent (.node ⟨name,
                Documentation.ofDeclaration nested.declaration nested.column, []⟩)) tree.size =
              .ok next)) := by
  rw [addChildren_cons_eq] at added
  cases one : addChild index definition visiting nest parent child lastUnnamed tree with
  | error cause =>
      rw [one] at added
      cases added
  | ok next =>
      rw [one] at added
      refine ⟨next, added, ?_⟩
      rw [addChild] at one
      split at one
      · rename_i unnamed
        exact .inl ⟨unnamed, (Except.ok.inj one).symm⟩
      · rename_i name named
        refine .inr ⟨name, named, ?_⟩
        split at one
        · rename_i plain
          exact .inl ⟨plain, (Except.ok.inj one).symm⟩
        · rename_i position nested found
          by_cases again : position ∈ visiting
          · rw [if_pos again] at one
            cases one
          · rw [if_neg again] at one
            exact .inr ⟨position, nested, again, found, one⟩

/-- What some children add to a tree is an outline with their names, if what their definitions add below
them are outlines. -/
theorem addChildren_outline
    (lawful : ∀ definition ∈ index.definitions, definition.IsLawful)
    (nests : ∀ position, ∀ nested ∈ index.definitions, ∀ tree id grown,
      nest position nested tree id = .ok grown →
        ∃ outline : Outline, outline.IsKept ∧ grown = tree.addOutline id outline)
    (throughout : ∀ child ∈ children, child.IsLawfulThroughout)
    (distinct : (children.filterMap fieldName?).Nodup)
    (plain : ∀ name ∈ children.filterMap fieldName?, IsPlainName name)
    (added : addChildren index definition visiting nest parent children lastUnnamed tree =
      .ok grown) :
    ∃ outline : Outline, outline.IsKept ∧ outline.identifiers = children.filterMap fieldName? ∧
      grown = tree.addOutline parent outline := by
  -- Along the children the tree grows and the last unnamed definition changes; the names still to
  -- come are those of the outline still to be added.
  induction children generalizing lastUnnamed tree with
  | nil =>
      cases added
      exact ⟨.nil, .nil, rfl, rfl⟩
  | cons child children ih =>
      rcases List.forall_mem_cons.mp throughout with ⟨childLawful, restLawful⟩
      rcases addChildren_cons added with ⟨next, further, ⟨noField, rfl⟩ | ⟨name, named, step⟩⟩
      · rw [List.filterMap_cons_none noField] at distinct plain ⊢
        exact ih restLawful distinct plain further
      · rw [List.filterMap_cons_some named] at distinct plain ⊢
        rcases List.nodup_cons.mp distinct with ⟨alone, restDistinct⟩
        rcases List.forall_mem_cons.mp plain with ⟨namePlain, restPlain⟩
        rcases ih restLawful restDistinct restPlain further with
          ⟨outline, kept, identifiers, rfl⟩
        rw [← identifiers] at alone ⊢
        rcases step with ⟨_, rfl⟩ | ⟨position, nested, _, found, below⟩
        · have keeps := Documentation.keepsLines_ofDeclaration childLawful
            (beginColumn child.attributes)
          rw [← doc_leafOf child name] at keeps
          refine ⟨.leaf (leafOf child name) outline, kept.leaf ?_ ?_ keeps, ?_, rfl⟩
          · rw [identifier_leafOf]
            exact namePlain
          · rw [identifier_leafOf]
            exact alone
          · rw [Outline.identifiers, identifier_leafOf]
        · have listed : nested ∈ index.definitions :=
            Array.mem_of_getElem? (nestedDefinition?_eq_some_iff.mp found).2
          rcases nests position nested listed _ _ next below with ⟨members, membersKept, rfl⟩
          have keeps := Documentation.keepsLines_ofDeclaration (lawful nested listed).throughout
            nested.column
          exact ⟨.node name _ members outline, membersKept.node kept namePlain alone keeps, rfl, rfl⟩

end

/-- What a definition adds to a tree is an outline with the names of its fields. -/
theorem addMembers_outline {index : RecordIndex}
    (lawful : ∀ definition ∈ index.definitions, definition.IsLawful) {levels : Nat}
    {definition : RecordDefinition} (listed : definition ∈ index.definitions) {visiting : List Nat}
    {tree grown : FieldTree} {parent : FieldId}
    (added : addMembers index levels definition visiting tree parent = .ok grown) :
    ∃ outline : Outline, outline.IsKept ∧ grown = tree.addOutline parent outline := by
  induction levels generalizing definition visiting tree parent grown with
  | zero =>
      rw [addMembers] at added
      cases added
      exact ⟨.nil, .nil, rfl⟩
  | succ levels ih =>
      have own := lawful definition listed
      have children : ∀ child ∈ definition.declaration.children, child.IsLawfulThroughout := by
        intro child inside
        exact own.throughout.of_mem_parts
          (Declaration.mem_parts_of_child inside child.mem_parts_self)
      rw [addMembers] at added
      rcases addChildren_outline lawful
          (fun position nested inside tree id grown below => ih inside below)
          children own.distinctFields own.plainFields added with
        ⟨outline, kept, _, grows⟩
      exact ⟨outline, kept, grows⟩

/-- The record of a lawful definition is the layout of an outline that a schema holds whole. -/
theorem recordOf_ofOutline {index : RecordIndex}
    (lawful : ∀ definition ∈ index.definitions, definition.IsLawful) {position : Nat}
    {definition : RecordDefinition} (listed : definition ∈ index.definitions) {record : Record}
    (taken : index.recordOf position definition = .ok record) :
    ∃ (doc : String) (outline : Outline), Text.KeepsLines doc ∧ outline.IsKept ∧
      record = ⟨definition.namespaces, definition.name, .source,
        .ofOutline definition.name doc outline⟩ := by
  rw [recordOf] at taken
  rcases exists_of_map_ok taken with ⟨tree, added, rfl⟩
  rcases addMembers_outline lawful listed added with ⟨outline, kept, rfl⟩
  refine ⟨Documentation.ofDeclaration definition.declaration definition.column, outline, ?_, kept, ?_⟩
  · exact Documentation.keepsLines_ofDeclaration (lawful definition listed).throughout _
  · rw [FieldTree.addOutline_new]

end RecordIndex

/-! ## Records that come back -/

theorem Scope.ne_empty_of_namespaceName {scope : Scope} {name : String}
    (named : scope.namespaceName? = some name) : name ≠ "" := by
  cases scope with
  | «namespace» own =>
      rw [namespaceName?] at named
      split at named
      · cases named
      · rename_i nonempty
        exact Option.some.inj named ▸ nonempty
  | record own => cases named
  | opaqueScope => cases named

/-- A record that a schema holds whole. -/
structure Record.IsKept (record : Record) : Prop where
  wellScoped : record.HasScopes
  laidOut : ∃ (doc : String) (outline : Outline), Text.KeepsLines doc ∧ outline.IsKept ∧
    record.tree = .ofOutline record.name doc outline

/-- A candidate that is lawful gives a record that a schema holds whole. -/
theorem RecordIndex.isKept_recordOf {index : RecordIndex}
    (lawful : ∀ definition ∈ index.definitions, definition.IsLawful) {position : Nat}
    {definition : RecordDefinition} (listed : definition ∈ index.definitions)
    (candidate : definition.isCandidate = true) {record : Record}
    (taken : index.recordOf position definition = .ok record) : record.IsKept := by
  rcases recordOf_ofOutline lawful listed taken with ⟨doc, outline, keeps, kept, rfl⟩
  refine ⟨?_, doc, outline, keeps, kept, rfl⟩
  intro scope around
  refine ⟨?_, (lawful definition listed).scopeNames scope around⟩
  rcases List.mem_append.mp around with outer | last
  · rcases List.mem_filterMap.mp outer with ⟨opened, _, named⟩
    exact Scope.ne_empty_of_namespaceName named
  · rw [List.mem_singleton.mp last]
    rw [RecordDefinition.isCandidate, Bool.and_eq_true, decide_eq_true_eq] at candidate
    exact candidate.1

/-- Every record that is found was taken from a definition of the index that is asked for. -/
theorem DeclarationTree.exists_of_mem_findRecords {tree : DeclarationTree} {pattern : String}
    {records : List Record}
    (found : (RecordSource.declarations tree).findRecords pattern = .ok records) {record : Record}
    (listed : record ∈ records) :
    ∃ position definition, (RecordIndex.build tree.root).definitions[position]? = some definition ∧
      definition.isCandidate = true ∧
      (RecordIndex.build tree.root).recordOf position definition = .ok record := by
  rw [RecordSource.findRecords] at found
  split at found
  · cases found
  · rename_i matcher _
    rcases exists_of_mem_mapM (exists_of_mapError_ok found) listed with ⟨entry, inside, taken⟩
    rcases List.mem_filter.mp inside with ⟨indexed, selected⟩
    rw [List.mem_zipIdx_iff_getElem?, Array.getElem?_toList] at indexed
    have selects : tree.selects matcher.matches entry.1 = true := selected
    rw [DeclarationTree.selects, Bool.and_eq_true, Bool.and_eq_true] at selects
    exact ⟨entry.2, entry.1, indexed, selects.1.1, taken⟩

theorem DeclarationTree.isKept_of_mem_findRecords {tree : DeclarationTree}
    (lawful : tree.root.IsLawfulThroughout) {pattern : String} {records : List Record}
    (found : (RecordSource.declarations tree).findRecords pattern = .ok records) {record : Record}
    (listed : record ∈ records) : record.IsKept := by
  rcases tree.exists_of_mem_findRecords found listed with
    ⟨position, definition, indexed, candidate, taken⟩
  exact RecordIndex.isKept_recordOf (RecordIndex.isLawful_build lawful) (Array.mem_of_getElem? indexed)
    candidate taken

namespace Record.IsKept

variable {record : Record}

theorem isClosed (kept : record.IsKept) : record.tree.IsClosed := by
  rcases kept.laidOut with ⟨doc, outline, _, _, same⟩
  rw [same]
  exact FieldTree.isClosed_ofOutline _ _ _

theorem isNamed (kept : record.IsKept) : record.tree.outline.IsNamed := by
  rcases kept.laidOut with ⟨doc, outline, _, outlineKept, same⟩
  rw [same, FieldTree.outline_ofOutline]
  exact outlineKept.named

/-- Nothing but the origin changes. -/
theorem reloaded_eq (kept : record.IsKept) : record.reloaded = { record with origin := .schema } := by
  rcases kept.laidOut with ⟨doc, outline, keeps, outlineKept, same⟩
  have rootDoc : record.tree.root.doc = doc := by
    rw [same]
    rfl
  rw [Record.reloaded, rootDoc, same, FieldTree.outline_ofOutline, outlineKept.docs,
    (Text.rejoinLines_eq_self doc).mpr keeps]

end Record.IsKept

/-- With an explicit key style the origin of a record does not matter. -/
theorem generate_origin (record : Record) (origin : Origin) {options : GenerateOptions}
    (styled : options.keyStyle.isSome = true) :
    generate { record with origin } options = generate record options := by
  rcases Option.isSome_iff_exists.mp styled with ⟨style, chosen⟩
  have sameRules : keyRulesFor { record with origin } options.overrides options.separator
      options.keyStyle = keyRulesFor record options.overrides options.separator options.keyStyle := by
    rw [chosen]
    rfl
  rw [generate, generate, buildModule, buildModule, sameRules]
  rfl

/-- A record that was taken from lawful declarations can be exported unless its keys are asked for and
clash.  Read again from the text of the schema it is the same record but for its origin, so that the units
that are generated with an explicit key style are the same, or the reason why there are none is. -/
theorem reload_extracted {tree : DeclarationTree} (lawful : tree.root.IsLawfulThroughout)
    {pattern : String} {records : List Record}
    (found : (RecordSource.declarations tree).findRecords pattern = .ok records) {record : Record}
    (listed : record ∈ records) (options : ExportOptions) :
    (∃ clash, options.withKeys = true ∧ (keyRulesFor record options.overrides options.separator
        options.keyStyle).resolve record.tree = .error clash ∧
      Schema.ofRecords [record] options = .error clash) ∨
    ∃ value document reloaded,
      Schema.ofRecords [record] options = .ok value ∧
      SchemaDocument.ofText (Schema.render value) = .ok document ∧
      (RecordSource.schema document).findRecords "*" = .ok [reloaded] ∧
      reloaded.namespaces = record.namespaces ∧
      reloaded.name = record.name ∧
      reloaded.tree = record.tree ∧
      ∀ generation : GenerateOptions, generation.keyStyle.isSome = true →
        generate reloaded generation = generate record generation := by
  have kept := tree.isKept_of_mem_findRecords lawful found listed
  rcases exportedKeys_cases record options with ⟨clash, withKeys, failed, unkeyed⟩ | ⟨keys, keyed⟩
  · exact .inl ⟨clash, withKeys, failed, Schema.ofRecords_of_clash unkeyed⟩
  · refine .inr ⟨_, record.document keys, record.reloaded,
      Schema.ofRecords_singleton kept.isClosed kept.isNamed keyed, ?_, ?_, rfl, rfl, ?_, ?_⟩
    · exact SchemaDocument.ofText_render_documentOf kept.wellScoped.dropMark_qualifiedName
        (Schema.nodup_recordEntries kept.isClosed kept.isNamed keys)
    · exact findRecords_document kept.wellScoped kept.isClosed kept.isNamed keys
    · rw [kept.reloaded_eq]
    · intro generation styled
      rw [kept.reloaded_eq]
      exact generate_origin record .schema styled

/-- A comment of several lines. -/
def Declaration.comment (lines : List String) : Declaration :=
  .node { NodeAttributes.ofMembers [] with kind := .documentation }
    (lines.map fun line =>
      .node { NodeAttributes.ofMembers [] with kind := .commentText, text := some line } [])

/-- A documented field. -/
def Declaration.field (name type : String) (lines : List String) : Declaration :=
  .node { NodeAttributes.ofMembers [] with
    kind := .fieldDeclaration, name := some name, writtenType := some type }
    [Declaration.comment lines]

/-- The definition of a struct. -/
def Declaration.struct (name : String) (children : List Declaration) : Declaration :=
  .node { NodeAttributes.ofMembers [] with
    kind := .recordDeclaration, name := some name, tag := some "struct", isComplete := true } children

/-- A window with a size, whose width is documented with blank lines and a carriage return. -/
def DeclarationTree.window : DeclarationTree where
  root := .node { NodeAttributes.ofMembers [] with kind := .namespaceDeclaration, name := some "ui" }
    [.struct "Size" [.comment [" A size."], .field "width" "int" ["", " In cells. \r", "", " "]],
      .struct "Window" [.field "title" "std::string" [], .field "size" "Size" []]]
  mainFile := none

/-- The record of the window, with the width in a sub-record. -/
def Record.framed : Record where
  namespaces := ["ui"]
  name := "Window"
  origin := .source
  tree := .ofOutline "Window" "" (.leaf ⟨"title", "std::string", "std::string", false, false, ""⟩
    (.node "size" "A size." (.leaf ⟨"width", "int", "int", false, false, "In cells."⟩ .nil) .nil))

theorem reload_extracted_window :
    DeclarationTree.window.root.IsLawfulThroughout ∧
      (RecordSource.declarations .window).findRecords "ui::Window" = .ok [.framed] ∧
      ∃ value document reloaded,
        Schema.ofRecords [.framed] ⟨true, "/", none, .empty⟩ = .ok value ∧
        SchemaDocument.ofText (Schema.render value) = .ok document ∧
        (RecordSource.schema document).findRecords "*" = .ok [reloaded] ∧
        reloaded.namespaces = Record.framed.namespaces ∧
        reloaded.name = Record.framed.name ∧
        reloaded.tree = Record.framed.tree ∧
        ∀ generation : GenerateOptions, generation.keyStyle.isSome = true →
          generate reloaded generation = generate .framed generation := by
  have lawful : DeclarationTree.window.root.IsLawfulThroughout := by decide
  have found : (RecordSource.declarations .window).findRecords "ui::Window" = .ok [.framed] := by
    decide +kernel
  have resolves : ((keyRulesFor .framed .empty "/" none).resolve Record.framed.tree).isOk = true := by
    decide +kernel
  refine ⟨lawful, found, ?_⟩
  rcases reload_extracted lawful found List.mem_cons_self ⟨true, "/", none, .empty⟩ with
    ⟨clash, _, failed, _⟩ | reloaded
  · rw [failed] at resolves
    cases resolves
  · exact reloaded

end KeyedReflection
