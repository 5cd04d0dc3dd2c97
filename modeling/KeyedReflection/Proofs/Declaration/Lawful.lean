import KeyedReflection.Declaration.Extraction
import KeyedReflection.Proofs.Text.Pieces

/-!
# Lawful declarations

A declaration tree can say anything, but one that a compiler wrote says only what the language allows:
the fields of a record have different names, names are identifiers, and a comment comes line by line.
`Declaration.IsLawful` is what of this is needed of a single declaration, and a tree is lawful when all its
parts are.

An index holds parts of its tree and nothing else, each within scopes that parts of the tree open
(`RecordIndex.isFrom_build`).  This is shown for the visit of one declaration and carried from sibling to
sibling, so that whatever is lawful in the tree is lawful in the index.
-/

namespace KeyedReflection

open Text (IsPlainName)

namespace Declaration

/-- Declarations by induction, with what holds of all children at hand. -/
theorem induction {motive : Declaration → Prop}
    (node : ∀ attributes children, (∀ child ∈ children, motive child) →
      motive (.node attributes children)) :
    ∀ declaration, motive declaration
  | .node attributes children => node attributes children fun child listed =>
      have := List.sizeOf_lt_of_mem listed
      Declaration.induction node child
termination_by declaration => sizeOf declaration
decreasing_by
  simp only [Declaration.node.sizeOf_spec]
  omega

/-! ## Parts -/

mutual

/-- A declaration and everything inside it, in document order. -/
def parts : Declaration → List Declaration
  | .node attributes children => .node attributes children :: partsOf children

/-- Several declarations and everything inside them. -/
def partsOf : List Declaration → List Declaration
  | [] => []
  | declaration :: rest => declaration.parts ++ partsOf rest

end

theorem mem_partsOf {part : Declaration} {declarations : List Declaration} :
    part ∈ partsOf declarations ↔ ∃ declaration ∈ declarations, part ∈ declaration.parts := by
  induction declarations with
  | nil => simp [partsOf]
  | cons declaration rest ih =>
      rw [partsOf, List.mem_append, ih]
      simp

/-- A part is the declaration itself or a part of a child. -/
theorem mem_parts {part : Declaration} {attributes : NodeAttributes} {children : List Declaration} :
    part ∈ (node attributes children).parts ↔
      part = node attributes children ∨ ∃ child ∈ children, part ∈ child.parts := by
  rw [parts, List.mem_cons, mem_partsOf]

theorem mem_parts_self (declaration : Declaration) : declaration ∈ declaration.parts := by
  cases declaration
  exact mem_parts.mpr (.inl rfl)

theorem mem_parts_of_child {declaration child part : Declaration}
    (listed : child ∈ declaration.children) (inside : part ∈ child.parts) :
    part ∈ declaration.parts := by
  cases declaration
  exact mem_parts.mpr (.inr ⟨child, listed, inside⟩)

/-- Parts of parts are parts. -/
theorem mem_parts_trans {whole declaration part : Declaration} (inside : part ∈ declaration.parts)
    (outside : declaration ∈ whole.parts) : part ∈ whole.parts := by
  induction whole using Declaration.induction with
  | node attributes children ih =>
      rcases mem_parts.mp outside with rfl | ⟨child, listed, below⟩
      · exact inside
      · exact mem_parts_of_child listed (ih child listed below)

/-! ## Lawfulness -/

/-- Whether a declaration defines a record. -/
def IsDefinition (declaration : Declaration) : Prop :=
  declaration.kind = .recordDeclaration ∧ RecordIndex.isDefinition declaration.attributes = true

instance (declaration : Declaration) : Decidable declaration.IsDefinition :=
  inferInstanceAs (Decidable (_ ∧ _))

/-- The names of the fields among the children, in order. -/
def fieldNames (declaration : Declaration) : List String :=
  declaration.children.filterMap RecordIndex.fieldName?

/-- What the language guarantees of a declaration by itself: a record does not have two fields of one
name, the names of fields, records and namespaces are free of punctuation, and a piece of a comment is
within one line. -/
structure IsLawful (declaration : Declaration) : Prop where
  distinctFields : declaration.IsDefinition → declaration.fieldNames.Nodup
  plainFields : declaration.IsDefinition → ∀ name ∈ declaration.fieldNames, IsPlainName name
  scopeName : declaration.kind = .recordDeclaration ∨ declaration.kind = .namespaceDeclaration →
    ':' ∉ (declaration.attributes.name.getD "").toList
  commentText : declaration.kind = .commentText → ∀ text ∈ declaration.attributes.text,
    '\n' ∉ text.toList

/-- A tree of lawful declarations. -/
def IsLawfulThroughout (root : Declaration) : Prop :=
  ∀ part ∈ root.parts, part.IsLawful

instance (declaration : Declaration) : Decidable declaration.IsLawful :=
  decidable_of_iff
    ((declaration.IsDefinition → declaration.fieldNames.Nodup) ∧
      (declaration.IsDefinition → ∀ name ∈ declaration.fieldNames, IsPlainName name) ∧
      (declaration.kind = .recordDeclaration ∨ declaration.kind = .namespaceDeclaration →
        ':' ∉ (declaration.attributes.name.getD "").toList) ∧
      (declaration.kind = .commentText → ∀ text ∈ declaration.attributes.text,
        '\n' ∉ text.toList)) <| by
    constructor
    · rintro ⟨distinct, plain, scope, comment⟩
      exact ⟨distinct, plain, scope, comment⟩
    · intro lawful
      exact ⟨lawful.distinctFields, lawful.plainFields, lawful.scopeName, lawful.commentText⟩

instance (root : Declaration) : Decidable root.IsLawfulThroughout :=
  inferInstanceAs (Decidable (∀ part ∈ root.parts, part.IsLawful))

end Declaration

/-! ## The index of a tree -/

/-- A definition that was taken from a tree: it is a part of the tree, has the name of that part, and all
scopes around it are opened by parts. -/
structure RecordDefinition.IsFrom (root : Declaration) (definition : RecordDefinition) : Prop where
  isPart : definition.declaration ∈ root.parts
  isDefinition : definition.declaration.IsDefinition
  name_eq : definition.name = definition.declaration.attributes.name.getD ""
  scopes : ∀ scope ∈ definition.scopes,
    ∃ part ∈ root.parts, RecordIndex.scopeOf? part.attributes = some scope

namespace RecordIndex

/-- Everything in the index was taken from a tree. -/
def IsFrom (root : Declaration) (index : RecordIndex) : Prop :=
  ∀ definition ∈ index.definitions, definition.IsFrom root

/-- All scopes in a list are opened by parts of a tree. -/
def ScopesFrom (root : Declaration) (scopes : List Scope) : Prop :=
  ∀ scope ∈ scopes, ∃ part ∈ root.parts, scopeOf? part.attributes = some scope

section

variable {root : Declaration} {progress : Progress} {scopes : List Scope}

/-- A declaration itself adds at most its own definition. -/
theorem isFrom_enter (before : progress.index.IsFrom root) (around : ScopesFrom root scopes)
    {declaration : Declaration} (isPart : declaration ∈ root.parts) :
    (enter progress scopes declaration).index.IsFrom root := by
  rw [enter]
  dsimp only
  split
  · rename_i defined
    intro definition listed
    rw [add] at listed
    rcases Array.mem_push.mp listed with old | new
    · exact before definition old
    · rw [new]
      exact ⟨isPart, defined, rfl, around⟩
  · exact before

theorem isFrom_visitAll {declarations : List Declaration}
    (each : ∀ declaration ∈ declarations, ∀ progress : Progress, progress.index.IsFrom root →
      (visit progress scopes declaration).index.IsFrom root)
    (before : progress.index.IsFrom root) :
    (visitAll progress scopes declarations).index.IsFrom root := by
  induction declarations generalizing progress with
  | nil => exact before
  | cons declaration rest ih =>
      rcases List.forall_mem_cons.mp each with ⟨first, others⟩
      rw [visitAll]
      exact ih others (first progress before)

theorem isFrom_visit {declaration : Declaration} (isPart : declaration ∈ root.parts)
    (before : progress.index.IsFrom root) (around : ScopesFrom root scopes) :
    (visit progress scopes declaration).index.IsFrom root := by
  -- Going down, the index and the scopes grow; that they come from the tree is kept at every step.
  induction declaration using Declaration.induction generalizing progress scopes with
  | node attributes children ih =>
      have inside : ScopesFrom root (scopes ++ (scopeOf? attributes).toList) := by
        intro scope listed
        rcases List.mem_append.mp listed with outer | own
        · exact around scope outer
        · exact ⟨_, isPart, Option.mem_toList.mp own⟩
      rw [visit]
      apply isFrom_visitAll _ (isFrom_enter before around isPart)
      intro child listed progress entered
      have childIsPart := Declaration.mem_parts_trans
        (Declaration.mem_parts_of_child listed child.mem_parts_self) isPart
      exact ih child listed childIsPart entered inside

end

/-- The index of a tree was taken from the tree. -/
theorem isFrom_build (root : Declaration) : (build root).IsFrom root := by
  apply isFrom_visit root.mem_parts_self
  · intro definition listed
    exact absurd listed (Array.not_mem_empty definition)
  · intro scope listed
    cases listed

end RecordIndex

/-! ## Lawful definitions -/

/-- What the laws of a tree say of a definition that was taken from it. -/
structure RecordDefinition.IsLawful (definition : RecordDefinition) : Prop where
  distinctFields : definition.declaration.fieldNames.Nodup
  plainFields : ∀ name ∈ definition.declaration.fieldNames, IsPlainName name
  scopeNames : ∀ name ∈ definition.namespaces ++ [definition.name], ':' ∉ name.toList
  throughout : definition.declaration.IsLawfulThroughout

theorem Declaration.IsLawfulThroughout.of_mem_parts {root part : Declaration}
    (lawful : root.IsLawfulThroughout) (isPart : part ∈ root.parts) : part.IsLawfulThroughout := by
  intro inner inside
  exact lawful inner (mem_parts_trans inside isPart)

/-- Only a namespace opens a scope with the name of a namespace. -/
theorem RecordIndex.namespace_of_scopeOf? {attributes : NodeAttributes} {scope : Scope}
    (opened : scopeOf? attributes = some scope) {name : String}
    (named : scope.namespaceName? = some name) :
    attributes.kind = .namespaceDeclaration ∧ attributes.name.getD "" = name := by
  rw [scopeOf?] at opened
  split at opened
  · rename_i kind
    cases opened
    rw [Scope.namespaceName?] at named
    split at named
    · cases named
    · exact ⟨kind, Option.some.inj named⟩
  · cases opened
    cases named
  · cases opened
    cases named
  · cases opened

/-- Definitions taken from a lawful tree are lawful. -/
theorem RecordDefinition.IsFrom.isLawful {root : Declaration} {definition : RecordDefinition}
    (isFrom : definition.IsFrom root) (lawful : root.IsLawfulThroughout) :
    definition.IsLawful := by
  have own := lawful definition.declaration isFrom.isPart
  refine ⟨own.distinctFields isFrom.isDefinition, own.plainFields isFrom.isDefinition, ?_,
    lawful.of_mem_parts isFrom.isPart⟩
  intro name listed
  rcases List.mem_append.mp listed with outer | last
  · rcases List.mem_filterMap.mp outer with ⟨scope, around, named⟩
    rcases isFrom.scopes scope around with ⟨part, isPart, opened⟩
    rcases RecordIndex.namespace_of_scopeOf? opened named with ⟨kind, rfl⟩
    exact (lawful part isPart).scopeName (.inr kind)
  · rw [List.mem_singleton.mp last, isFrom.name_eq]
    exact own.scopeName (.inl isFrom.isDefinition.1)

/-- All definitions in the index of a lawful tree are lawful. -/
theorem RecordIndex.isLawful_build {root : Declaration} (lawful : root.IsLawfulThroughout) :
    ∀ definition ∈ (build root).definitions, definition.IsLawful := by
  intro definition listed
  exact (isFrom_build root definition listed).isLawful lawful

end KeyedReflection
