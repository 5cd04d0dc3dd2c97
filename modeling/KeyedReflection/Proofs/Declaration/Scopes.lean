import KeyedReflection.Proofs.Declaration.Enclosed
import KeyedReflection.Proofs.Declaration.Extraction
import KeyedReflection.Proofs.Json.Equality

/-!
# Definitions inside other declarations

A definition inside a class, a template or a function is no record of its own (`Dump.isCandidate_iff`), and
one inside a template or a function cannot be meant by a name (`Dump.opaqueScope_mem_scopes_iff`).  What
counts as a class, a template or a function is told from the kinds of the nodes around the definition in the
dump.

The kinds of conversion functions and of specialized templates are missing there.  So a definition inside
one of these is taken for one outside.
-/

namespace KeyedReflection

open Json (Value Members findMember)

/-! ## Dumps -/

namespace Dump

mutual

/-- The nodes of a dump in document order, each with the nodes around it, outermost first. -/
def nodes (around : List Value) : Value → List (List Value × Value)
  | .object members => (around, .object members) :: nodesBelow (around ++ [.object members]) members
  | value => [(around, value)]

/-- The nodes below a node with some members. -/
def nodesBelow (around : List Value) : Members → List (List Value × Value)
  | [] => []
  | (name, value) :: rest =>
    if name = "inner" then nodesIn around value else nodesBelow around rest

/-- The nodes in a list. -/
def nodesIn (around : List Value) : Value → List (List Value × Value)
  | .array items => nodesAmong around items
  | _ => []

/-- Some nodes with what is below them. -/
def nodesAmong (around : List Value) : List Value → List (List Value × Value)
  | [] => []
  | item :: rest => nodes around item ++ nodesAmong around rest

end

/-- The kind of a node. -/
def kind? (node : Value) : Option String :=
  (node.member? "kind").bind Value.string?

/-- What is taken up of a node besides its children. -/
def attributes (node : Value) : NodeAttributes :=
  (Declaration.ofValue node).attributes

/-- The declarations that some nodes of a dump describe, with what is known of the nodes around. -/
def declared (found : List (List Value × Value)) : List (List NodeAttributes × Declaration) :=
  found.map fun node => (node.1.map attributes, Declaration.ofValue node.2)

/-- The definitions of a dump in document order, each with the nodes around it. -/
def definitions (root : Value) : List (List Value × Value) :=
  (nodes [] root).filter fun node => (Declaration.ofValue node.2).IsDefinition

theorem declared_append (found others : List (List Value × Value)) :
    declared (found ++ others) = declared found ++ declared others :=
  List.map_append

theorem enclosedAll_ofItems {items : List Value}
    (each : ∀ item ∈ items, ∀ around,
      (Declaration.ofValue item).enclosed (around.map attributes) = declared (nodes around item))
    (around : List Value) :
    Declaration.enclosedAll (around.map attributes) (Declaration.ofItems items) =
      declared (nodesAmong around items) := by
  induction items with
  | nil =>
      rw [Declaration.ofItems, Declaration.enclosedAll, nodesAmong]
      rfl
  | cons item rest ih =>
      rcases List.forall_mem_cons.mp each with ⟨first, others⟩
      rw [Declaration.ofItems, Declaration.enclosedAll, nodesAmong, declared_append, first, ih others]

theorem enclosedAll_childrenOf {members : Members}
    (each : ∀ member ∈ members, ∀ around,
      Declaration.enclosedAll (around.map attributes) (Declaration.listOf member.2) =
        declared (nodesIn around member.2)) (around : List Value) :
    Declaration.enclosedAll (around.map attributes) (Declaration.childrenOf members) =
      declared (nodesBelow around members) := by
  induction members with
  | nil =>
      rw [Declaration.childrenOf, Declaration.enclosedAll, nodesBelow]
      rfl
  | cons member rest ih =>
      rcases member with ⟨name, value⟩
      rcases List.forall_mem_cons.mp each with ⟨first, others⟩
      rw [Declaration.childrenOf, nodesBelow]
      by_cases inner : name = "inner"
      · rw [if_pos inner, if_pos inner]
        exact first around
      · rw [if_neg inner, if_neg inner]
        exact ih others

/-- A declaration encloses what its node does, be it a node or a list of nodes. -/
theorem enclosed_cases (value : Value) :
    (∀ around, (Declaration.ofValue value).enclosed (around.map attributes) =
      declared (nodes around value)) ∧
    ∀ around, Declaration.enclosedAll (around.map attributes) (Declaration.listOf value) =
      declared (nodesIn around value) := by
  induction value using Value.induction with
  | array items ih =>
      refine ⟨fun around => ?_, fun around => ?_⟩
      · simp [Declaration.ofValue, Declaration.enclosed, Declaration.enclosedAll, nodes, declared]
      · rw [Declaration.listOf, nodesIn]
        exact enclosedAll_ofItems (fun item listed => (ih item listed).1) around
  | object members ih =>
      refine ⟨fun around => ?_, fun around => ?_⟩
      · have below := enclosedAll_childrenOf (fun member listed => (ih member listed).2)
          (around ++ [.object members])
        have own : attributes (.object members) = .ofMembers members := by
          rw [attributes, Declaration.ofValue]
          rfl
        rw [List.map_append, List.map_singleton, own] at below
        rw [nodes, declared, List.map_cons, Declaration.ofValue, Declaration.enclosed, below]
        rfl
      · simp [Declaration.listOf, Declaration.enclosedAll, nodesIn, declared]
  | _ =>
      constructor <;> intro around <;> simp [Declaration.ofValue, Declaration.listOf,
        Declaration.enclosed, Declaration.enclosedAll, nodes, nodesIn, declared]

/-- The scopes that some nodes open. -/
def scopes (around : List Value) : List Scope :=
  around.filterMap fun outer => RecordIndex.scopeOf? (attributes outer)

/-- The index of a dump holds its definitions in document order, with the scopes that the nodes around
them open. -/
theorem inScopes_build (root : Value) :
    (RecordIndex.build (Declaration.ofValue root)).inScopes = (definitions root).map fun node =>
      (scopes node.1, Declaration.ofValue node.2) := by
  have enclosed : (Declaration.ofValue root).enclosed [] = declared (nodes [] root) :=
    (enclosed_cases root).1 []
  rw [RecordIndex.inScopes_build, enclosed, RecordIndex.definedAmong, declared, List.filter_map,
    List.map_map]
  apply List.map_congr_left
  intro node _
  exact congrArg (·, _) List.filterMap_map

theorem exists_of_getElem? {root : Value} {position : Nat} {definition : RecordDefinition}
    (there : (RecordIndex.build (Declaration.ofValue root)).definitions[position]? = some definition) :
    ∃ around node, (definitions root)[position]? = some (around, node) ∧
      definition.declaration = Declaration.ofValue node ∧ definition.scopes = scopes around := by
  have held := congrArg (·[position]?) (inScopes_build root)
  rw [RecordIndex.inScopes, List.getElem?_map, List.getElem?_map, Array.getElem?_toList, there,
    Option.map_some] at held
  rcases Option.map_eq_some_iff.mp held.symm with ⟨⟨around, node⟩, listed, same⟩
  rw [Prod.mk.injEq] at same
  exact ⟨around, node, listed, same.2.symm, same.1.symm⟩

/-! ## Kinds that open scopes -/

/-- The kinds of classes. -/
def classKinds : List String :=
  ["CXXRecordDecl", "RecordDecl"]

/-- The kinds of functions, templates and lambdas, inside of which nothing has a name outside. -/
def closedKinds : List String :=
  ["FunctionDecl", "CXXMethodDecl", "CXXConstructorDecl", "CXXDestructorDecl", "FunctionTemplateDecl",
    "ClassTemplateDecl", "LambdaExpr"]

theorem kind_attributes (node : Value) :
    (attributes node).kind = ((kind? node).map NodeKind.ofName).getD .other := by
  cases node with
  | object members =>
      rw [attributes, Declaration.ofValue]
      rfl
  | _ =>
      rw [attributes, Declaration.ofValue]
      · rfl
      · intro members isObject
        cases isObject

theorem ofName_eq_recordDeclaration_iff {kind : String} :
    NodeKind.ofName kind = .recordDeclaration ↔ kind ∈ classKinds := by
  rw [NodeKind.ofName.eq_def]
  split <;> simp_all [classKinds]

theorem ofName_eq_opaqueScope_iff {kind : String} :
    NodeKind.ofName kind = .opaqueScope ↔ kind ∈ closedKinds := by
  rw [NodeKind.ofName.eq_def]
  split <;> simp_all [closedKinds]

theorem kind_attributes_eq_iff {node : Value} {kind : NodeKind} (matters : kind ≠ .other) :
    (attributes node).kind = kind ↔ ∃ name, kind? node = some name ∧ NodeKind.ofName name = kind := by
  rw [kind_attributes]
  cases kind? node with
  | none => exact iff_of_false matters.symm fun ⟨_, given, _⟩ => nomatch given
  | some name =>
      constructor
      · intro same
        exact ⟨name, rfl, same⟩
      · rintro ⟨_, given, same⟩
        cases given
        exact same

theorem kind_eq_recordDeclaration_iff {node : Value} :
    (attributes node).kind = .recordDeclaration ↔
      ∃ name, kind? node = some name ∧ name ∈ classKinds := by
  rw [kind_attributes_eq_iff (by decide)]
  simp only [ofName_eq_recordDeclaration_iff]

theorem kind_eq_opaqueScope_iff {node : Value} :
    (attributes node).kind = .opaqueScope ↔ ∃ name, kind? node = some name ∧ name ∈ closedKinds := by
  rw [kind_attributes_eq_iff (by decide)]
  simp only [ofName_eq_opaqueScope_iff]

/-- One of the nodes around is of one of the given kinds. -/
def IsInside (kinds : List String) (around : List Value) : Prop :=
  ∃ outer ∈ around, ∃ kind, kind? outer = some kind ∧ kind ∈ kinds

/-- Inside a function or a template, and nowhere else, a scope is open whose contents have no name
outside. -/
theorem opaqueScope_mem_scopes_iff {around : List Value} :
    Scope.opaqueScope ∈ scopes around ↔ IsInside closedKinds around := by
  have opens : ∀ outer, RecordIndex.scopeOf? (attributes outer) = some .opaqueScope ↔
      (attributes outer).kind = .opaqueScope := by
    intro outer
    rw [RecordIndex.scopeOf?]
    cases (attributes outer).kind <;> simp
  rw [scopes, List.mem_filterMap, IsInside]
  simp only [opens, kind_eq_opaqueScope_iff]

/-- Outside of classes, functions and templates, and only there, all scopes are namespaces. -/
theorem all_isNamespace_scopes_iff {around : List Value} :
    (scopes around).all Scope.isNamespace = true ↔ ¬ IsInside (classKinds ++ closedKinds) around := by
  have opens : ∀ outer, (∃ scope, RecordIndex.scopeOf? (attributes outer) = some scope ∧
        scope.isNamespace = false) ↔
      (attributes outer).kind = .recordDeclaration ∨ (attributes outer).kind = .opaqueScope := by
    intro outer
    rw [RecordIndex.scopeOf?]
    cases (attributes outer).kind <;> simp [Scope.isNamespace]
  have inside : IsInside (classKinds ++ closedKinds) around ↔
      ∃ scope ∈ scopes around, scope.isNamespace = false := by
    constructor
    · rintro ⟨outer, listed, kind, given, inKinds⟩
      have ofKind : (attributes outer).kind = .recordDeclaration ∨
          (attributes outer).kind = .opaqueScope := by
        rcases List.mem_append.mp inKinds with isClass | closed
        · exact .inl (kind_eq_recordDeclaration_iff.mpr ⟨kind, given, isClass⟩)
        · exact .inr (kind_eq_opaqueScope_iff.mpr ⟨kind, given, closed⟩)
      rcases (opens outer).mpr ofKind with ⟨scope, opened, other⟩
      exact ⟨scope, List.mem_filterMap.mpr ⟨outer, listed, opened⟩, other⟩
    · rintro ⟨scope, listed, other⟩
      rcases List.mem_filterMap.mp listed with ⟨outer, around, opened⟩
      rcases (opens outer).mp ⟨scope, opened, other⟩ with isClass | closed
      · rcases kind_eq_recordDeclaration_iff.mp isClass with ⟨kind, given, inKinds⟩
        exact ⟨outer, around, kind, given, List.mem_append_left _ inKinds⟩
      · rcases kind_eq_opaqueScope_iff.mp closed with ⟨kind, given, inKinds⟩
        exact ⟨outer, around, kind, given, List.mem_append_right _ inKinds⟩
  rw [inside, List.all_eq_true]
  simp

/-- A definition can be a record of its own when it has a name and is not inside a class, a template or a
function. -/
theorem isCandidate_iff {root : Value} {position : Nat} {definition : RecordDefinition}
    (there : (RecordIndex.build (Declaration.ofValue root)).definitions[position]? = some definition) :
    ∃ around node, (definitions root)[position]? = some (around, node) ∧
      definition.declaration = Declaration.ofValue node ∧
      (definition.isCandidate = true ↔
        definition.name ≠ "" ∧ ¬ IsInside (classKinds ++ closedKinds) around) := by
  rcases exists_of_getElem? there with ⟨around, node, held, same, opened⟩
  refine ⟨around, node, held, same, ?_⟩
  rw [RecordDefinition.isCandidate, Bool.and_eq_true, decide_eq_true_eq, opened,
    all_isNamespace_scopes_iff]

end Dump

/-- A definition inside a class, a template or a function is not found, whatever the pattern, and only
such a definition is left out for where it stands.  One inside a template or a function is not meant by the
name of a type. -/
theorem findRecords_enclosed (root : Value) (mainFile : Option String) (pattern : String) :
    (∀ records, (RecordSource.declarations ⟨.ofValue root, mainFile⟩).findRecords pattern = .ok records →
      ∀ record ∈ records, ∃ position definition around node,
        (RecordIndex.build (.ofValue root)).definitions[position]? = some definition ∧
        (RecordIndex.build (.ofValue root)).recordOf position definition = .ok record ∧
        (Dump.definitions root)[position]? = some (around, node) ∧
        definition.declaration = .ofValue node ∧
        ¬ Dump.IsInside (Dump.classKinds ++ Dump.closedKinds) around) ∧
    (∀ (position : Nat) (definition : RecordDefinition),
      (RecordIndex.build (.ofValue root)).definitions[position]? = some definition →
      ∃ around node, (Dump.definitions root)[position]? = some (around, node) ∧
        definition.declaration = .ofValue node ∧
        (definition.isCandidate = true ↔
          definition.name ≠ "" ∧ ¬ Dump.IsInside (Dump.classKinds ++ Dump.closedKinds) around)) ∧
    ∀ writtenType scope position,
      (RecordIndex.build (.ofValue root)).resolve? writtenType scope none = some position →
      ∃ around node, (Dump.definitions root)[position]? = some (around, node) ∧
        ¬ Dump.IsInside Dump.closedKinds around := by
  refine ⟨?_, fun position definition => Dump.isCandidate_iff, ?_⟩
  · intro records found record listed
    rcases DeclarationTree.exists_of_mem_findRecords found listed with
      ⟨position, definition, there, candidate, taken⟩
    rcases Dump.isCandidate_iff there with ⟨around, node, held, same, outside⟩
    exact ⟨position, definition, around, node, there, taken, held, same, (outside.mp candidate).2⟩
  · intro writtenType scope position meant
    rcases (RecordIndex.isNamedOutside_build _).of_resolve? meant with ⟨definition, there, isOutside⟩
    rcases Dump.exists_of_getElem? there with ⟨around, node, held, _, scopes⟩
    rw [scopes, Dump.opaqueScope_mem_scopes_iff] at isOutside
    exact ⟨around, node, held, isOutside⟩

/-- A node of a dump, with what is said of it and its children. -/
def Dump.node (kind : String) (members : Members) (children : List Value) : Value :=
  .object (("kind", .string kind) :: members ++ [("inner", .array children)])

/-- The definition of a struct. -/
def Dump.struct (name : String) (children : List Value) : Value :=
  Dump.node "CXXRecordDecl" [("name", .string name), ("tagUsed", .string "struct"),
    ("completeDefinition", .bool true)] children

def Dump.field (name type : String) : Value :=
  Dump.node "FieldDecl" [("name", .string name), ("type", .object [("qualType", .string type)])] []

/-- A struct inside a specialized template, one inside a conversion function, and one with a field whose
type has the name of the second. -/
def Dump.conversion : Value :=
  Dump.node "TranslationUnitDecl" []
    [Dump.node "ClassTemplateSpecializationDecl" [("name", .string "Box")]
      [Dump.struct "Part" [Dump.field "size" "int"]],
    Dump.node "CXXConversionDecl" [("name", .string "operator int")]
      [Dump.node "CompoundStmt" []
        [Dump.node "DeclStmt" [] [Dump.struct "Scratch" [Dump.field "value" "int"]]]],
    Dump.struct "Holder" [Dump.field "held" "Scratch"]]

/-- The kinds of specialized templates and of conversion functions do not count, so that what is inside of
them is found and meant like what is outside. -/
theorem findRecords_conversion :
    (Dump.definitions Dump.conversion).map (fun node => (node.1.filterMap Dump.kind?,
        (Dump.attributes node.2).name)) =
      [(["TranslationUnitDecl", "ClassTemplateSpecializationDecl"], some "Part"),
        (["TranslationUnitDecl", "CXXConversionDecl", "CompoundStmt", "DeclStmt"], some "Scratch"),
        (["TranslationUnitDecl"], some "Holder")] ∧
    ((RecordSource.declarations ⟨.ofValue Dump.conversion, none⟩).findRecords "*").map
      (List.map Record.name) = .ok ["Part", "Scratch", "Holder"] ∧
    (RecordIndex.build (.ofValue Dump.conversion)).resolve? (some "Scratch") ["Holder"] none = some 1 := by
  refine ⟨?_, ?_, ?_⟩
  · decide +kernel
  · decide +kernel
  · decide +kernel

end KeyedReflection
