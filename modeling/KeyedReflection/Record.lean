import KeyedReflection.Text.Basic

/-!
# Records

A record for which reflection is generated is a named tree of fields.  The tree is a table of fields that
name their members by position; it is walked in declaration order, and its leaves are the fields that have
keys.
-/

namespace KeyedReflection

/-!
## Field trees

The fields of a record form a tree: a leaf is a field with a value, a node is a sub-record whose
members come in declaration order.  The tree is stored as a growing table, so that a field is named
by its position, its `FieldId`; the root is at position zero and is a node by construction.

A field is added with `attach`.  The new field enters the table before its parent is looked at: when
the parent cannot take members, the field stays in the table without being a member of anything, and
a node that is to be added below its own position becomes a member of itself.
-/

/-- The position of a field in the table of its tree. -/
abbrev FieldId := Nat

/-- A field with a value. -/
structure Leaf where
  identifier : String
  /-- The type as written, possibly an alias; of an optional field the wrapped type. -/
  declaredType : String
  /-- The type without aliases, by which values are told apart. -/
  canonicalType : String
  isOptional : Bool
  hasDefault : Bool
  doc : String
  deriving DecidableEq, Repr, Inhabited

/-- A sub-record. -/
structure Node where
  identifier : String
  doc : String
  /-- The members in declaration order. -/
  members : List FieldId
  deriving DecidableEq, Repr, Inhabited

/-- A field of a record. -/
inductive Field where
  | leaf (leaf : Leaf)
  | node (node : Node)
  deriving DecidableEq, Repr

/-- The name of a field within its parent. -/
def Field.identifier : Field → String
  | .leaf l => l.identifier
  | .node n => n.identifier

/-- The documentation of a field. -/
def Field.doc : Field → String
  | .leaf l => l.doc
  | .node n => n.doc

/-- The members of a field; a leaf has none. -/
def Field.members : Field → List FieldId
  | .leaf _ => []
  | .node n => n.members

/-- The same field with other documentation. -/
def Field.withDoc (field : Field) (doc : String) : Field :=
  match field with
  | .leaf l => .leaf { l with doc }
  | .node n => .node { n with doc }

/-- The table of a tree: the root, and the other fields by their positions from one on. -/
structure FieldTree where
  root : Node
  below : Array Field
  deriving DecidableEq, Repr

/-- Why a field of a tree cannot be reached or added to. -/
inductive TreeFault where
  /-- No field has this position. -/
  | outOfRange (size : Nat) (id : FieldId)
  /-- A leaf takes no members. -/
  | memberOfLeaf (identifier : String)
  deriving DecidableEq, Repr

def TreeFault.message : TreeFault → String
  | .outOfRange size id =>
    "index out of bounds: the len is " ++ toString size ++ " but the index is " ++ toString id
  | .memberOfLeaf identifier => "cannot add a member to leaf " ++ identifier

namespace FieldTree

/-- The position of the root. -/
def rootId : FieldId := 0

/-- A tree that consists of its root. -/
def new (identifier doc : String) : FieldTree :=
  ⟨⟨identifier, doc, []⟩, #[]⟩

/-- The number of fields in the table, the root included. -/
def size (tree : FieldTree) : Nat :=
  tree.below.size + 1

/-- The position of the field that came last into the table. -/
def last (tree : FieldTree) : FieldId :=
  tree.below.size

/-- Whether the root has no members. -/
def isEmpty (tree : FieldTree) : Bool :=
  tree.root.members.isEmpty

/-- The field at a position. -/
def field? (tree : FieldTree) (id : FieldId) : Option Field :=
  match id with
  | 0 => some (.node tree.root)
  | below + 1 => tree.below[below]?

/-- The field at a position, or the fault that there is none. -/
def field (tree : FieldTree) (id : FieldId) : Except TreeFault Field :=
  match tree.field? id with
  | some field => .ok field
  | none => .error (.outOfRange tree.size id)

/-- The leaf at a position. -/
def leaf? (tree : FieldTree) (id : FieldId) : Option Leaf :=
  match tree.field? id with
  | some (.leaf l) => some l
  | _ => none

/-- The members of the field at a position. -/
def members (tree : FieldTree) (id : FieldId) : List FieldId :=
  match tree.field? id with
  | some field => field.members
  | none => []

/-- The name of the field at a position. -/
def identifier (tree : FieldTree) (id : FieldId) : String :=
  match tree.field? id with
  | some field => field.identifier
  | none => ""

/-- The first member of a field with the given name. -/
def findMember (tree : FieldTree) (parent : FieldId) (identifier : String) : Option FieldId :=
  (tree.members parent).find? fun id => tree.identifier id == identifier

/-- Replace the documentation of a field. -/
def setDoc (tree : FieldTree) (id : FieldId) (doc : String) : FieldTree :=
  match id with
  | 0 => { tree with root := { tree.root with doc } }
  | below + 1 => { tree with below := tree.below.modify below (·.withDoc doc) }

/-- Append a member to a node; leaves stay as they are. -/
def addMember (tree : FieldTree) (parent member : FieldId) : FieldTree :=
  let extend (node : Node) : Node := { node with members := node.members ++ [member] }
  match parent with
  | 0 => { tree with root := extend tree.root }
  | below + 1 =>
    { tree with
      below := tree.below.modify below fun
        | .leaf l => .leaf l
        | .node n => .node (extend n) }

/-- Add a field as the last member of a parent.  The field takes the next free position, and keeps
it also when the parent is refused. -/
def attach (tree : FieldTree) (parent : FieldId) (field : Field) :
    FieldTree × Except TreeFault FieldId :=
  let grown : FieldTree := { tree with below := tree.below.push field }
  match grown.field? parent with
  | none => (grown, .error (.outOfRange grown.size parent))
  | some (.leaf l) => (grown, .error (.memberOfLeaf l.identifier))
  | some (.node _) => (grown.addMember parent grown.last, .ok grown.last)

/-- The tree with a field added as the last member of a parent. -/
def add (tree : FieldTree) (parent : FieldId) (field : Field) : FieldTree :=
  (tree.attach parent field).1

@[simp] theorem last_addMember (tree : FieldTree) (parent member : FieldId) :
    (tree.addMember parent member).last = tree.last := by
  cases parent <;> simp [addMember, last]

/-- A field that is added takes the next free position. -/
@[simp] theorem last_add (tree : FieldTree) (parent : FieldId) (field : Field) :
    (tree.add parent field).last = tree.size := by
  have grown : last ⟨tree.root, tree.below.push field⟩ = tree.size := by simp [last, size]
  unfold add attach
  dsimp only
  split
  · exact grown
  · exact grown
  · rw [last_addMember, grown]

end FieldTree

/-!
## Going through a field tree

There are two views of a tree.  `FieldTree.walk` lists every field below the root in pre-order with
its dotted id, the names from the first level down joined by dots.  `FieldTree.leaves` lists the
leaves alone, each with the chain of sub-records around it.

Both recurse at most as often as the table has fields.  What is reached from the root is a member of
a field that was there before it, so no chain of members is longer than the table, and nothing is cut
off.
-/

/-- A leaf with the sub-records around it, outermost first and without the root. -/
structure LeafPath where
  ancestors : List FieldId
  leaf : FieldId
  deriving DecidableEq, Repr

/-- The fields from the first level down to the leaf. -/
def LeafPath.chain (path : LeafPath) : List FieldId :=
  path.ancestors ++ [path.leaf]

/-- The names from the first level down to the leaf. -/
def LeafPath.segments (path : LeafPath) (tree : FieldTree) : List String :=
  path.chain.map tree.identifier

/-- The names from the first level down to the leaf, joined by dots. -/
def LeafPath.dottedId (path : LeafPath) (tree : FieldTree) : String :=
  Text.join "." (path.segments tree)

namespace FieldTree

/-- The leaves below a field, down to a number of levels. -/
def leavesBelow (tree : FieldTree) : Nat → List FieldId → FieldId → List LeafPath
  | 0, _, _ => []
  | levels + 1, ancestors, id =>
    (tree.members id).flatMap fun member =>
      match tree.field? member with
      | some (.leaf _) => [⟨ancestors, member⟩]
      | some (.node _) => leavesBelow tree levels (ancestors ++ [member]) member
      | none => []

/-- Every leaf, depth first in declaration order. -/
def leaves (tree : FieldTree) : List LeafPath :=
  tree.leavesBelow tree.size [] rootId

/-- The fields below a field with their dotted ids, down to a number of levels. -/
def walkBelow (tree : FieldTree) : Nat → List String → FieldId → List (String × FieldId)
  | 0, _, _ => []
  | levels + 1, names, id =>
    (tree.members id).flatMap fun member =>
      let path := names ++ [tree.identifier member]
      (Text.join "." path, member) :: walkBelow tree levels path member

/-- Every field below the root in pre-order, with its dotted id. -/
def walk (tree : FieldTree) : List (String × FieldId) :=
  tree.walkBelow tree.size [] rootId

end FieldTree

/-!
## Records and where they come from

A record is a named field tree together with the namespaces around it and the kind of input it was
taken from.  The kind of input decides nothing but the default spelling of keys.
-/

/-- The kind of input a record was taken from. -/
inductive Origin where
  /-- The declarations of a source file. -/
  | source
  /-- A schema document. -/
  | schema
  deriving DecidableEq, Repr

/-- A record for which reflection can be generated. -/
structure Record where
  /-- The enclosing namespaces, outermost first. -/
  namespaces : List String
  name : String
  origin : Origin
  tree : FieldTree
  deriving DecidableEq, Repr

/-- A name behind the namespaces around it, with double colons in between. -/
def qualify (namespaces : List String) (name : String) : String :=
  Text.join "::" (namespaces ++ [name])

def Record.qualifiedName (record : Record) : String :=
  qualify record.namespaces record.name

end KeyedReflection
