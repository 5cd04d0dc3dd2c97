import KeyedReflection.Proofs.Declaration.Extraction

/-!
# Declarations without files

The file of a place says where a definition stands, and nothing else.  What is taken from a declaration is
the same when the files that are given in it are forgotten (`recordOf_withoutFiles`), so that the records
of a tree can be taken from an index whose declarations have none (`buildRecords_eq`).  The files in which
the definitions stand are kept beside the declarations.
-/

namespace KeyedReflection

/-! ## Forgetting files -/

mutual

/-- A place without the files that are given in it. -/
def Location.withoutFiles : Location → Location
  | .place _ column spelling expansion =>
    .place none column (Location.withoutFiles? spelling) (Location.withoutFiles? expansion)

def Location.withoutFiles? : Option Location → Option Location
  | none => none
  | some location => some location.withoutFiles

end

/-- A node without the files that are given in its places. -/
def NodeAttributes.withoutFiles (attributes : NodeAttributes) : NodeAttributes :=
  { attributes with
    location := Location.withoutFiles? attributes.location
    rangeBegin := Location.withoutFiles? attributes.rangeBegin
    rangeEnd := Location.withoutFiles? attributes.rangeEnd }

mutual

/-- A declaration without the files that are given in it. -/
def Declaration.withoutFiles : Declaration → Declaration
  | .node attributes children => .node attributes.withoutFiles (Declaration.withoutFilesAll children)

def Declaration.withoutFilesAll : List Declaration → List Declaration
  | [] => []
  | declaration :: rest => declaration.withoutFiles :: Declaration.withoutFilesAll rest

end

/-- A definition whose declaration is taken without files.  The file of the definition itself stays. -/
def RecordDefinition.withoutFiles (definition : RecordDefinition) : RecordDefinition :=
  { definition with declaration := definition.declaration.withoutFiles }

/-- An index whose declarations are taken without files. -/
def RecordIndex.withoutFiles (index : RecordIndex) : RecordIndex :=
  { index with definitions := index.definitions.map RecordDefinition.withoutFiles }

namespace Declaration

theorem withoutFilesAll_eq (declarations : List Declaration) :
    withoutFilesAll declarations = declarations.map withoutFiles := by
  induction declarations with
  | nil => rfl
  | cons declaration rest ih => rw [withoutFilesAll, List.map_cons, ih]

@[simp] theorem attributes_withoutFiles (declaration : Declaration) :
    declaration.withoutFiles.attributes = declaration.attributes.withoutFiles := by
  cases declaration
  rw [withoutFiles]
  rfl

@[simp] theorem children_withoutFiles (declaration : Declaration) :
    declaration.withoutFiles.children = declaration.children.map withoutFiles := by
  cases declaration
  rw [withoutFiles]
  exact withoutFilesAll_eq _

end Declaration

/-! ## Records without files -/

namespace Documentation

theorem collectAll_withoutFiles {parts : List Declaration}
    (each : ∀ part ∈ parts, ∀ lines, collect lines part.withoutFiles = collect lines part)
    (lines : List String) : collectAll lines (parts.map Declaration.withoutFiles) = collectAll lines parts := by
  induction parts generalizing lines with
  | nil => rfl
  | cons part parts ih =>
      rcases List.forall_mem_cons.mp each with ⟨first, others⟩
      rw [List.map_cons, collectAll, collectAll, first, ih others]

theorem collect_withoutFiles (comment : Declaration) (lines : List String) :
    collect lines comment.withoutFiles = collect lines comment := by
  induction comment using Declaration.induction generalizing lines with
  | node attributes children ih =>
      have inside := collectAll_withoutFiles ih
      have kind : attributes.withoutFiles.kind = attributes.kind := rfl
      have text : attributes.withoutFiles.text = attributes.text := rfl
      rw [Declaration.withoutFiles, Declaration.withoutFilesAll_eq, collect, collect, kind, text]
      simp only [inside]

theorem ofDeclaration_withoutFiles (declaration : Declaration) (column : Nat) :
    ofDeclaration declaration.withoutFiles column = ofDeclaration declaration column := by
  have test : ((fun child : Declaration => child.kind == .documentation) ∘ Declaration.withoutFiles) =
      fun child => child.kind == .documentation := by
    funext child
    rw [Function.comp_apply, Declaration.kind, Declaration.attributes_withoutFiles]
    rfl
  rw [ofDeclaration, ofDeclaration, Declaration.children_withoutFiles, List.find?_map, test]
  cases declaration.children.find? fun child => child.kind == .documentation with
  | none => rfl
  | some comment =>
      rw [Option.map_some]
      exact congrArg (dedent · _) (collect_withoutFiles comment [])

end Documentation

namespace RecordIndex

theorem column?_withoutFiles (location : Location) :
    location.withoutFiles.column? = location.column? := by
  cases location
  rw [Location.withoutFiles]
  rfl

theorem beginColumn_withoutFiles (attributes : NodeAttributes) :
    beginColumn attributes.withoutFiles = beginColumn attributes := by
  have own : ∀ location : Option Location,
      (Location.withoutFiles? location).bind Location.column? = location.bind Location.column? := by
    rintro (_ | location)
    · rfl
    · exact column?_withoutFiles location
  rw [beginColumn, beginColumn, NodeAttributes.withoutFiles]
  cases attributes.rangeBegin with
  | none =>
      dsimp only [Location.withoutFiles?]
      rw [own]
  | some place =>
      rcases place with ⟨file, column, spelling, expansion⟩
      cases expansion with
      | none => rfl
      | some expansion => exact congrArg (·.getD 1) (own (some expansion))

theorem leafOf_withoutFiles (field : Declaration) (name : String) :
    leafOf field.withoutFiles name = leafOf field name := by
  have column := beginColumn_withoutFiles field.attributes
  have written : field.attributes.withoutFiles.writtenType = field.attributes.writtenType := rfl
  have desugared : field.attributes.withoutFiles.desugaredType = field.attributes.desugaredType := rfl
  have initialized : field.attributes.withoutFiles.hasInitializer = field.attributes.hasInitializer := rfl
  rw [leafOf, leafOf, Declaration.attributes_withoutFiles, Documentation.ofDeclaration_withoutFiles,
    column, written, desugared, initialized]

theorem fieldName?_withoutFiles (child : Declaration) :
    fieldName? child.withoutFiles = fieldName? child := by
  rw [fieldName?, fieldName?, Declaration.kind, Declaration.attributes_withoutFiles]
  rfl

theorem unnamedDefinition?_withoutFiles (index : RecordIndex) (child : Declaration) :
    index.withoutFiles.unnamedDefinition? child.withoutFiles = index.unnamedDefinition? child := by
  rw [unnamedDefinition?, unnamedDefinition?, Declaration.attributes_withoutFiles]
  rfl

theorem resolve?_withoutFiles (index : RecordIndex) (writtenType : Option String)
    (scope : List String) (unnamed : Option Nat) :
    index.withoutFiles.resolve? writtenType scope unnamed = index.resolve? writtenType scope unnamed := by
  have names : index.withoutFiles.byName = index.byName := rfl
  simp only [resolve?, lookUp?, names]

theorem nestedDefinition?_withoutFiles (index : RecordIndex) (definition : RecordDefinition)
    (field : Declaration) (unnamed : Option Nat) :
    index.withoutFiles.nestedDefinition? definition.withoutFiles field.withoutFiles unnamed =
      (index.nestedDefinition? definition field unnamed).map fun (position, nested) =>
        (position, nested.withoutFiles) := by
  have type : field.attributes.withoutFiles.writtenType = field.attributes.writtenType := rfl
  have scope : definition.withoutFiles.lookupScope = definition.lookupScope := rfl
  rw [nestedDefinition?, nestedDefinition?, Declaration.attributes_withoutFiles, type, scope,
    resolve?_withoutFiles, Option.map_bind]
  congr 1
  funext position
  rw [withoutFiles, Array.getElem?_map, Function.comp_apply, Option.map_map, Option.map_map]
  rfl

section

variable {index : RecordIndex} {definition : RecordDefinition} {visiting : List Nat}
  {nest other : Nat → RecordDefinition → FieldTree → FieldId → Except RecursiveRecord FieldTree}
  {parent : FieldId}

theorem addChild_withoutFiles
    (same : ∀ position nested, other position nested.withoutFiles = nest position nested)
    (child : Declaration) (unnamed : Option Nat) (tree : FieldTree) :
    addChild index.withoutFiles definition.withoutFiles visiting other parent child.withoutFiles unnamed
        tree =
      addChild index definition visiting nest parent child unnamed tree := by
  rw [addChild, addChild, fieldName?_withoutFiles, nestedDefinition?_withoutFiles]
  cases fieldName? child with
  | none => rfl
  | some name =>
      dsimp only
      rw [leafOf_withoutFiles]
      cases index.nestedDefinition? definition child unnamed with
      | none => rfl
      | some found =>
          rcases found with ⟨position, nested⟩
          have column : nested.withoutFiles.column = nested.column := rfl
          have declaration : nested.withoutFiles.declaration = nested.declaration.withoutFiles := rfl
          dsimp only [Option.map_some]
          rw [same, declaration, column, Documentation.ofDeclaration_withoutFiles]
          rfl

theorem addChildren_withoutFiles
    (same : ∀ position nested, other position nested.withoutFiles = nest position nested)
    (children : List Declaration) (unnamed : Option Nat) (tree : FieldTree) :
    addChildren index.withoutFiles definition.withoutFiles visiting other parent
        (children.map Declaration.withoutFiles) unnamed tree =
      addChildren index definition visiting nest parent children unnamed tree := by
  induction children generalizing unnamed tree with
  | nil => rw [List.map_nil, addChildren, addChildren]
  | cons child children ih =>
      rw [List.map_cons, addChildren_cons_eq, addChildren_cons_eq, addChild_withoutFiles same,
        unnamedDefinition?_withoutFiles]
      simp only [ih]

theorem addMembers_withoutFiles (index : RecordIndex) (levels : Nat) :
    ∀ (definition : RecordDefinition) (visiting : List Nat),
      addMembers index.withoutFiles levels definition.withoutFiles visiting =
        addMembers index levels definition visiting := by
  induction levels with
  | zero =>
      intro definition visiting
      funext tree parent
      rw [addMembers, addMembers]
  | succ levels ih =>
      intro definition visiting
      funext tree parent
      rw [addMembers, addMembers, RecordDefinition.withoutFiles, Declaration.children_withoutFiles]
      exact addChildren_withoutFiles (fun position nested => ih nested (position :: visiting)) _ _ _

end

/-- A record does not depend on the files that are given inside declarations. -/
theorem recordOf_withoutFiles (index : RecordIndex) (position : Nat) (definition : RecordDefinition) :
    index.withoutFiles.recordOf position definition.withoutFiles = index.recordOf position definition := by
  have size : index.withoutFiles.definitions.size = index.definitions.size := Array.size_map
  rw [recordOf, recordOf, addMembers_withoutFiles, size, RecordDefinition.withoutFiles,
    Documentation.ofDeclaration_withoutFiles]
  rfl

theorem scopeOf?_withoutFiles (attributes : NodeAttributes) :
    scopeOf? attributes.withoutFiles = scopeOf? attributes :=
  rfl

theorem add_withoutFiles (index : RecordIndex) (definition : RecordDefinition) :
    (index.add definition).withoutFiles = index.withoutFiles.add definition.withoutFiles := by
  have size : index.withoutFiles.definitions.size = index.definitions.size := Array.size_map
  have id : definition.withoutFiles.declaration.attributes.id = definition.declaration.attributes.id := by
    rw [RecordDefinition.withoutFiles, Declaration.attributes_withoutFiles]
    rfl
  rw [add, add, size, id, withoutFiles]
  dsimp only
  rw [Array.map_push]
  rfl

end RecordIndex

namespace DeclarationTree

/-- The records of a tree, taken from the declarations of its index without files. -/
theorem buildRecords_eq (tree : DeclarationTree) (accepts : String → Bool) :
    tree.buildRecords accepts =
      ((RecordIndex.build tree.root).withoutFiles.definitions.toList.zipIdx.filter fun entry =>
        tree.selects accepts entry.1).mapM fun entry =>
          (RecordIndex.build tree.root).withoutFiles.recordOf entry.2 entry.1 := by
  rw [buildRecords, RecordIndex.withoutFiles]
  dsimp only
  rw [Array.toList_map, List.zipIdx_map, List.filter_map, List.mapM_map]
  congr 1
  funext entry
  exact (RecordIndex.recordOf_withoutFiles _ entry.2 entry.1).symm

end DeclarationTree

end KeyedReflection
