import KeyedReflection.Declaration.Basic
import KeyedReflection.Declaration.Index
import KeyedReflection.Text.Basic

/-!
# Records from declarations

What a declaration says about a field is its name, the spelling of its type and the comment in front of it.
Records are made of fields by following the types to their definitions.
-/

namespace KeyedReflection

/-!
## Documentation comments

The documentation of a declaration is the text of the comment attached to it.  The comment comes as
a tree of paragraphs and lines; an empty line is put between paragraphs.  Later lines of a comment are
indented like the declaration itself, and this indentation is taken off again.
-/

namespace Documentation

/-- Whether the last line collected so far says something. -/
def endsInText (lines : List String) : Bool :=
  match lines.getLast? with
  | some line => Text.trim line ≠ ""
  | none => false

mutual

/-- Collect the lines of a comment behind those already collected. -/
def collect (lines : List String) : Declaration → List String
  | .node attributes children =>
    match attributes.kind with
    | .commentText => lines ++ attributes.text.toList
    | .paragraph => collectAll (if endsInText lines then lines ++ [""] else lines) children
    | _ => collectAll lines children

/-- Collect the lines of several parts of a comment. -/
def collectAll (lines : List String) : List Declaration → List String
  | [] => lines
  | part :: parts => collectAll (collect lines part) parts

end

/-- Take off the indentation when the whole of it is there, then one more space, and the white space
at the end. -/
def dedentLine (indent : Nat) (line : List Char) : List Char :=
  let line := if (line.take indent).length = indent ∧ (line.take indent).all (· == ' ') then
    line.drop indent else line
  Text.Characters.trimEnd ((Text.Characters.dropMark [' '] line).getD line)

/-- The lines of a comment without their indentation, which the first line does not have, and
without empty lines at either end. -/
def dedent (lines : List String) (indent : Nat) : String :=
  let trimmed := match lines with
    | [] => []
    | first :: rest =>
      dedentLine 0 first.toList :: rest.map fun (line : String) => dedentLine indent line.toList
  let inner := ((trimmed.dropWhile List.isEmpty).reverse.dropWhile List.isEmpty).reverse
  Text.join "\n" (inner.map .ofList)

/-- The documentation of a declaration that starts in a given column. -/
def ofDeclaration (declaration : Declaration) (column : Nat) : String :=
  match declaration.children.find? fun child => child.kind == .documentation with
  | none => ""
  | some comment => dedent (collect [] comment) (column - 1)

end Documentation

/-!
## Type spellings of fields

The compiler gives the types of fields as text.  Qualifiers and keywords in front of a type do not
change which values a field takes, and they are dropped here.  A field whose type is a standard
optional is an optional field of the wrapped type.
-/

namespace FieldType

/-- Drop leading words, each with one space and the white space behind it, as long as one of them
is in front.  The number of words is bounded by the first argument, for which the length of the text is
enough. -/
def dropWords (words : List (List Char)) : Nat → List Char → List Char
  | 0, cs => cs
  | steps + 1, cs =>
    match words.findSome? fun word => Text.Characters.dropMark word cs with
    | some rest => dropWords words steps (Text.Characters.trimStart rest)
    | none => cs

/-- Qualifiers of a type. -/
def qualifiers : List (List Char) :=
  ["const ".toList, "volatile ".toList]

/-- Qualifiers of a type, and keywords that say what kind of type a name stands for. -/
def elaborations : List (List Char) :=
  qualifiers ++ ["struct ".toList, "class ".toList]

/-- A spelling without the qualifiers in front. -/
def dropQualifiers (spelling : String) : String :=
  let cs := Text.Characters.trim spelling.toList
  .ofList (dropWords qualifiers cs.length cs)

/-- A spelling without the qualifiers and keywords in front. -/
def dropElaborations (spelling : String) : String :=
  let cs := Text.Characters.trim spelling.toList
  .ofList (dropWords elaborations cs.length cs)

/-- The ways to begin the type of an optional. -/
def optionalOpenings : List String :=
  ["std::optional<", "optional<", "std::__1::optional<"]

/-- The wrapped type, when a spelling begins like an optional and ends in a closing bracket. -/
def optionalArgument? (spelling : String) : Option String :=
  let bare := dropElaborations spelling
  match optionalOpenings.findSome? fun opening => Text.dropMark opening bare with
  | none => none
  | some rest => (Text.dropEndMark ">" rest).map Text.trim

/-- Whether a spelling is that of a type without a name. -/
def isUnnamed (spelling : String) : Bool :=
  Text.contains "(unnamed " spelling || Text.contains "(anonymous " spelling

/-- The declared type, the canonical type and whether the field is optional, from the type as
written and the type without aliases. -/
def classify (written : Option String) (desugared : Option String) : String × String × Bool :=
  let plain := written.getD ""
  let declared := dropQualifiers plain
  let canonical := dropElaborations (desugared.getD plain)
  match optionalArgument? declared, optionalArgument? canonical with
  | some argument, inner => (argument, inner.getD argument, true)
  | none, some argument => (argument, argument, true)
  | none, none => (declared, canonical, false)

end FieldType

/-!
## Records

A record is taken from the definition of a struct or class that stands in namespaces only.  A member
whose written type names another definition of the tree becomes a sub-record; every other member becomes
a leaf, also one whose type is an alias of a record.  Names are looked up from the innermost scope
outward.  A record that would contain itself is refused.
-/

/-- A record that contains itself, and the field through which it does. -/
structure RecursiveRecord where
  record : String
  field : String
  deriving DecidableEq, Repr

namespace RecordIndex

/-- The definition that a name means within a scope.  The innermost scope that has the name counts. -/
def lookUp? (index : RecordIndex) (scope : List String) (name : String) : Option Nat :=
  (List.range (scope.length + 1)).reverse.findSome? fun depth =>
    index.byName.find? (Text.join "::" (scope.take depth ++ [name]))

/-- The definition that the type of a field means.  The type of an unnamed definition can only be
that of the unnamed definition before the field. -/
def resolve? (index : RecordIndex) (writtenType : Option String) (scope : List String)
    (lastUnnamed : Option Nat) : Option Nat :=
  match writtenType with
  | none => none
  | some spelling =>
    let bare := FieldType.dropElaborations spelling
    if FieldType.isUnnamed bare then lastUnnamed
    else
      match Text.dropMark "::" bare with
      | some absolute => index.byName.find? absolute
      | none => index.lookUp? scope bare

/-- The definition that the type of a field of another definition means, with its position. -/
def nestedDefinition? (index : RecordIndex) (definition : RecordDefinition) (field : Declaration)
    (lastUnnamed : Option Nat) : Option (Nat × RecordDefinition) :=
  (index.resolve? field.attributes.writtenType definition.lookupScope lastUnnamed).bind
    fun position => (index.definitions[position]?).map fun nested => (position, nested)

/-- The column in which a declaration begins, or that of its name. -/
def beginColumn (attributes : NodeAttributes) : Nat :=
  let begins := match attributes.rangeBegin with
    | some place => some (place.expansion?.getD place)
    | none => attributes.location
  (begins.bind Location.column?).getD 1

def leafOf (field : Declaration) (name : String) : Leaf :=
  let attributes := field.attributes
  let (declaredType, canonicalType, isOptional) :=
    FieldType.classify attributes.writtenType attributes.desugaredType
  { identifier := name
    declaredType
    canonicalType
    isOptional
    hasDefault := attributes.hasInitializer
    doc := Documentation.ofDeclaration field (beginColumn attributes) }

/-- The unnamed definition that a child of a record is, if it is one.  The result is nothing for
children of other kinds. -/
def unnamedDefinition? (index : RecordIndex) (child : Declaration) : Option (Option Nat) :=
  let attributes := child.attributes
  if attributes.kind = .recordDeclaration ∧ isDefinition attributes ∧ !attributes.hasNameEntry then
    some (attributes.id.bind index.byId.find?)
  else none

/-- The name of a field, if a child of a record is one with a name. -/
def fieldName? (child : Declaration) : Option String :=
  if child.kind = .fieldDeclaration then child.attributes.name else none

/-- Add the members among some children of a definition.  `nest` adds the members of another
definition, given with its position, below a field of the tree; `visiting` are the definitions being
added, which must not be added again. -/
def addChildren (index : RecordIndex) (definition : RecordDefinition) (visiting : List Nat)
    (nest : Nat → RecordDefinition → FieldTree → FieldId → Except RecursiveRecord FieldTree)
    (parent : FieldId) : List Declaration → Option Nat → FieldTree → Except RecursiveRecord FieldTree
  | [], _, tree => .ok tree
  | child :: rest, lastUnnamed, tree =>
    match index.unnamedDefinition? child, fieldName? child with
    | some unnamed, _ => addChildren index definition visiting nest parent rest unnamed tree
    | none, none => addChildren index definition visiting nest parent rest lastUnnamed tree
    | none, some name =>
      match index.nestedDefinition? definition child lastUnnamed with
      | none =>
        addChildren index definition visiting nest parent rest lastUnnamed
          (tree.add parent (.leaf (leafOf child name)))
      | some (position, nested) =>
        if position ∈ visiting then .error ⟨definition.qualifiedName, name⟩
        else
          let doc := Documentation.ofDeclaration nested.declaration nested.column
          let tree := tree.add parent (.node ⟨name, doc, []⟩)
          match nest position nested tree tree.last with
          | .error recursion => .error recursion
          | .ok tree => addChildren index definition visiting nest parent rest lastUnnamed tree

/-- Add the members of a definition below a field of a tree.  `visiting` are the definitions being
added, this one first.  No definition is added below itself, so that the number of definitions bounds
the number of levels, which the first argument counts. -/
def addMembers (index : RecordIndex) :
    Nat → RecordDefinition → List Nat → FieldTree → FieldId → Except RecursiveRecord FieldTree
  | 0, _, _, tree, _ => .ok tree
  | levels + 1, definition, visiting, tree, parent =>
    addChildren index definition visiting
      (fun position nested tree id => addMembers index levels nested (position :: visiting) tree id)
      parent definition.declaration.children none tree

def recordOf (index : RecordIndex) (position : Nat) (definition : RecordDefinition) :
    Except RecursiveRecord Record :=
  let root := FieldTree.new definition.name
    (Documentation.ofDeclaration definition.declaration definition.column)
  (addMembers index index.definitions.size definition [position] root FieldTree.rootId).map
    fun tree => ⟨definition.namespaces, definition.name, .source, tree⟩

end RecordIndex

/-- A tree of declarations, of which the records of one file are wanted, or those of all files. -/
structure DeclarationTree where
  root : Declaration
  mainFile : Option String

namespace DeclarationTree

/-- Whether records are taken from a definition: it is a candidate, stands in the file that is asked
for, and has a qualified name that a test accepts. -/
def selects (tree : DeclarationTree) (accepts : String → Bool) (definition : RecordDefinition) :
    Bool :=
  definition.isCandidate && (tree.mainFile.isNone || definition.file == tree.mainFile) &&
    accepts definition.qualifiedName

/-- Build the records whose qualified names a test accepts, in document order. -/
def buildRecords (tree : DeclarationTree) (accepts : String → Bool) :
    Except RecursiveRecord (List Record) :=
  let index := RecordIndex.build tree.root
  (index.definitions.toList.zipIdx.filter fun (definition, _) =>
    tree.selects accepts definition).mapM fun (definition, position) =>
      index.recordOf position definition

end DeclarationTree

end KeyedReflection
