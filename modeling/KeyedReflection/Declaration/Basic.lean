import KeyedReflection.Json.Value

/-!
# Declaration trees

A compiler can dump the declarations of a source file as a tree in JSON.  This module holds the part
of such a tree that records are made from, and takes it out of the JSON value.  Nothing in the value is
required: what is missing or of another type counts as absent, and nodes of other kinds are kept for
the sake of their children and their locations.
-/

namespace KeyedReflection

/-- The kinds of nodes that matter. -/
inductive NodeKind where
  | namespaceDeclaration
  | recordDeclaration
  | fieldDeclaration
  /-- A function, a template or a lambda: what is declared inside has no name outside. -/
  | opaqueScope
  | documentation
  | paragraph
  | commentText
  | other
  deriving DecidableEq, Repr

/-- The kind behind a name. -/
def NodeKind.ofName : String → NodeKind
  | "NamespaceDecl" => .namespaceDeclaration
  | "CXXRecordDecl" => .recordDeclaration
  | "RecordDecl" => .recordDeclaration
  | "FieldDecl" => .fieldDeclaration
  | "FunctionDecl" => .opaqueScope
  | "CXXMethodDecl" => .opaqueScope
  | "CXXConstructorDecl" => .opaqueScope
  | "CXXDestructorDecl" => .opaqueScope
  | "FunctionTemplateDecl" => .opaqueScope
  | "ClassTemplateDecl" => .opaqueScope
  | "LambdaExpr" => .opaqueScope
  | "FullComment" => .documentation
  | "ParagraphComment" => .paragraph
  | "TextComment" => .commentText
  | "VerbatimBlockLineComment" => .commentText
  | "VerbatimLineComment" => .commentText
  | _ => .other

/-- A place in the source.  A place inside a macro has an expansion, and with it the place of its
spelling; the file is given only where it changes. -/
inductive Location where
  | place (file : Option String) (column : Option Nat) (spelling expansion : Option Location)

/-- The column of a place, without regard to macros. -/
def Location.column? : Location → Option Nat
  | .place _ column _ _ => column

/-- The place of a macro's expansion. -/
def Location.expansion? : Location → Option Location
  | .place _ _ _ expansion => expansion

/-- What is known of a node besides its children. -/
structure NodeAttributes where
  kind : NodeKind
  id : Option String
  name : Option String
  /-- The node has a name entry, even if the entry is no text. -/
  hasNameEntry : Bool
  /-- The keyword of a record declaration. -/
  tag : Option String
  isComplete : Bool
  isImplicit : Bool
  /-- The type of a field as written. -/
  writtenType : Option String
  /-- The type of a field with its outer aliases resolved, where that makes a difference. -/
  desugaredType : Option String
  hasInitializer : Bool
  /-- The text of a comment. -/
  text : Option String
  location : Option Location
  rangeBegin : Option Location
  rangeEnd : Option Location

/-- A node of a declaration tree. -/
inductive Declaration where
  | node (attributes : NodeAttributes) (children : List Declaration)

namespace Declaration

/-- What is known of the node itself. -/
def attributes : Declaration → NodeAttributes
  | .node attributes _ => attributes

/-- The children in document order. -/
def children : Declaration → List Declaration
  | .node _ children => children

def kind (declaration : Declaration) : NodeKind :=
  declaration.attributes.kind

end Declaration

/-! ## Taking a tree out of JSON -/

open Json (Value Members findMember)

def textMember (name : String) (members : Members) : Option String :=
  (findMember name members).bind Value.string?

/-- A member that is true. -/
def flagMember (name : String) (members : Members) : Bool :=
  ((findMember name members).bind Value.bool?).getD false

mutual

/-- The place that a value describes. -/
def Location.ofValue : Value → Location
  | .object members =>
    .place (textMember "file" members) ((findMember "col" members).bind Value.natural?)
      (Location.ofMember "spellingLoc" members) (Location.ofMember "expansionLoc" members)
  | _ => .place none none none none

/-- The place that a member describes. -/
def Location.ofMember (name : String) : Members → Option Location
  | [] => none
  | (n, value) :: rest =>
    if n = name then some (Location.ofValue value) else Location.ofMember name rest

end

/-- The place that a member of an optional value describes. -/
def locationMember (value : Option Value) (name : String) : Option Location :=
  (value.bind fun v => v.member? name).map Location.ofValue

/-- What an object says of a node. -/
def NodeAttributes.ofMembers (members : Members) : NodeAttributes :=
  let type := findMember "type" members
  let range := findMember "range" members
  { kind := ((textMember "kind" members).map NodeKind.ofName).getD .other
    id := textMember "id" members
    name := textMember "name" members
    hasNameEntry := (findMember "name" members).isSome
    tag := textMember "tagUsed" members
    isComplete := flagMember "completeDefinition" members
    isImplicit := flagMember "isImplicit" members
    writtenType := (type.bind fun v => v.member? "qualType").bind Value.string?
    desugaredType := (type.bind fun v => v.member? "desugaredQualType").bind Value.string?
    hasInitializer := flagMember "hasInClassInitializer" members
    text := textMember "text" members
    location := (findMember "loc" members).map Location.ofValue
    rangeBegin := locationMember range "begin"
    rangeEnd := locationMember range "end" }

mutual

/-- The tree that a value describes. -/
def Declaration.ofValue : Value → Declaration
  | .object members => .node (.ofMembers members) (Declaration.childrenOf members)
  | _ => .node (.ofMembers []) []

/-- The children among the members of a node. -/
def Declaration.childrenOf : Members → List Declaration
  | [] => []
  | (name, value) :: rest =>
    if name = "inner" then Declaration.listOf value else Declaration.childrenOf rest

/-- The trees in a list. -/
def Declaration.listOf : Value → List Declaration
  | .array items => Declaration.ofItems items
  | _ => []

/-- The trees that some values describe. -/
def Declaration.ofItems : List Value → List Declaration
  | [] => []
  | item :: rest => Declaration.ofValue item :: Declaration.ofItems rest

end

end KeyedReflection
