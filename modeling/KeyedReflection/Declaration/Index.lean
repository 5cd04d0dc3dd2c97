import KeyedReflection.Declaration.Basic
import KeyedReflection.Record
import KeyedReflection.SortedMap

/-!
# The record definitions of a tree

An index lists the definitions of structs and classes in document order, each with its scope and its
place in the source, and finds them by qualified name and by identity.

The file of a place is given only where it differs from that of the place read before it.  Places are
therefore read in document order, and the last file seen is carried along.
-/

namespace KeyedReflection

/-- A scope around a declaration. -/
inductive Scope where
  | namespace (name : String)
  | record (name : String)
  /-- A scope whose contents have no name outside. -/
  | opaqueScope
  deriving DecidableEq, Repr

/-- The definition of a struct or class. -/
structure RecordDefinition where
  declaration : Declaration
  /-- The name, empty when there is none. -/
  name : String
  /-- The scopes around the definition, outermost first. -/
  scopes : List Scope
  file : Option String
  column : Nat

/-- The name that a scope adds to qualified names. -/
def Scope.name? : Scope → Option String
  | .namespace name => if name = "" then none else some name
  | .record name => if name = "" then none else some name
  | .opaqueScope => none

def Scope.namespaceName? : Scope → Option String
  | .namespace name => if name = "" then none else some name
  | _ => none

def Scope.isNamespace : Scope → Bool
  | .namespace _ => true
  | _ => false

namespace RecordDefinition

/-- The names of the namespaces around the definition. -/
def namespaces (definition : RecordDefinition) : List String :=
  definition.scopes.filterMap Scope.namespaceName?

/-- The name with the namespaces around it. -/
def qualifiedName (definition : RecordDefinition) : String :=
  qualify definition.namespaces definition.name

/-- A definition that can be a record of its own: it has a name, and all scopes around it are
namespaces. -/
def isCandidate (definition : RecordDefinition) : Bool :=
  definition.name ≠ "" && definition.scopes.all Scope.isNamespace

/-- The names in which the type of a member is looked for, outermost first. -/
def lookupScope (definition : RecordDefinition) : List String :=
  definition.scopes.filterMap Scope.name? ++ (if definition.name = "" then [] else [definition.name])

end RecordDefinition

/-- The definitions of a tree, in document order. -/
structure RecordIndex where
  definitions : Array RecordDefinition
  /-- The first definition of each qualified name. -/
  byName : SortedMap Nat
  /-- The last definition of each identity. -/
  byId : SortedMap Nat

namespace RecordIndex

/-- The index of no definitions. -/
def empty : RecordIndex :=
  ⟨#[], .empty, .empty⟩

/-- Whether a declaration defines a struct or a class. -/
def isDefinition (attributes : NodeAttributes) : Bool :=
  attributes.isComplete && !attributes.isImplicit &&
    (attributes.tag == some "struct" || attributes.tag == some "class")

/-- The name under which a definition is found: that of its scopes and its own.  A definition
without a name, or within a scope whose contents have no name outside, is not found by name. -/
def lookupName? (name : String) (scopes : List Scope) : Option String :=
  if name = "" ∨ .opaqueScope ∈ scopes then none
  else some (Text.join "::" (scopes.filterMap Scope.name? ++ [name]))

def add (index : RecordIndex) (definition : RecordDefinition) : RecordIndex :=
  let position := index.definitions.size
  { definitions := index.definitions.push definition
    byName := match lookupName? definition.name definition.scopes with
      | some name => if index.byName.contains name then index.byName
          else index.byName.insert name position
      | none => index.byName
    byId := match definition.declaration.attributes.id with
      | some id => index.byId.insert id position
      | none => index.byId }

/-! ## Places -/

/-- Read a place: the file from then on, and the column.  Of a place inside a macro the spelling is
read first, and the expansion is where the place counts. -/
def observe (file : Option String) : Location → Option String × Nat
  | .place own column _ none => (own.or file, column.getD 0)
  | .place _ _ none (some expansion) => observe file expansion
  | .place _ _ (some spelling) (some expansion) => observe (observe file spelling).1 expansion

/-- Read a place that may be missing, which leaves the file as it is. -/
def observeOptional (file : Option String) : Option Location → Option String × Nat
  | none => (file, 0)
  | some location => observe file location

/-! ## Building -/

/-- The scope that a declaration opens for its children. -/
def scopeOf? (attributes : NodeAttributes) : Option Scope :=
  match attributes.kind with
  | .namespaceDeclaration => some (.namespace (attributes.name.getD ""))
  | .recordDeclaration => some (.record (attributes.name.getD ""))
  | .opaqueScope => some .opaqueScope
  | _ => none

/-- An index under construction, with the last file seen. -/
structure Progress where
  index : RecordIndex
  file : Option String

/-- Take up a node itself: its places in order, and its definition. -/
def enter (progress : Progress) (scopes : List Scope) (declaration : Declaration) : Progress :=
  let attributes := declaration.attributes
  let (file, column) := observeOptional progress.file attributes.location
  let last := (observeOptional (observeOptional file attributes.rangeBegin).1 attributes.rangeEnd).1
  let index :=
    if attributes.kind = .recordDeclaration ∧ isDefinition attributes then
      progress.index.add ⟨declaration, attributes.name.getD "", scopes, file, column⟩
    else progress.index
  ⟨index, last⟩

mutual

/-- Take up a declaration with everything inside it. -/
def visit (progress : Progress) (scopes : List Scope) : Declaration → Progress
  | .node attributes children =>
    let inside := scopes ++ (scopeOf? attributes).toList
    visitAll (enter progress scopes (.node attributes children)) inside children

/-- Take up several declarations one after the other. -/
def visitAll (progress : Progress) (scopes : List Scope) : List Declaration → Progress
  | [] => progress
  | declaration :: rest => visitAll (visit progress scopes declaration) scopes rest

end

/-- The index of a tree. -/
def build (root : Declaration) : RecordIndex :=
  (visit ⟨empty, none⟩ [] root).index

end RecordIndex
end KeyedReflection
