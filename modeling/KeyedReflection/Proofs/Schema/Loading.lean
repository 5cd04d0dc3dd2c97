import KeyedReflection.Proofs.Field.Growing
import KeyedReflection.Schema.Export

/-!
# Loading what was exported

The entries of a schema come in the order of a walk, so that every sub-record has its own entry in
front of those of its members.  Adding such entries one by one therefore adds the fields of an outline
in pre-order, each below a sub-record that is already there (`addEntries_outline`).  Of the
documentation nothing is left but its lines.
-/

namespace KeyedReflection

open Text (IsPlainName rejoinLines)
open Outline (plain_snoc)

namespace FieldTree

/-- Going down by names from one sub-record leads to another. -/
def LeadsTo (tree : FieldTree) : FieldId → List String → FieldId → Prop
  | id, [], goal => id = goal
  | id, name :: rest, goal =>
    ∃ next, tree.findMember id name = some next ∧ tree.leaf? next = none ∧
      tree.LeadsTo next rest goal

theorem LeadsTo.snoc {tree : FieldTree} {id goal next : FieldId} {path : List String}
    (leads : tree.LeadsTo id path goal) {name : String}
    (found : tree.findMember goal name = some next) (below : tree.leaf? next = none) :
    tree.LeadsTo id (path ++ [name]) next := by
  induction path generalizing id with
  | nil =>
      cases leads
      exact ⟨next, found, below, rfl⟩
  | cons first rest ih =>
      rcases leads with ⟨step, there, inner, further⟩
      exact ⟨step, there, inner, ih further⟩

/-- A tree that grows keeps its ways. -/
theorem LeadsTo.addOutline {tree : FieldTree} (closed : tree.IsClosed) {parent : Nat} {n : Node}
    (found : tree.field? parent = some (.node n)) (outline : Outline) {id goal : FieldId}
    {path : List String} (leads : tree.LeadsTo id path goal) :
    (tree.addOutline parent outline).LeadsTo id path goal := by
  induction path generalizing id with
  | nil => exact leads
  | cons name rest ih =>
      rcases leads with ⟨next, there, inner, further⟩
      have inTable : next < tree.size := closed id next (List.mem_of_find?_eq_some there)
      refine ⟨next, findMember_addOutline_of_some closed found outline there, ?_, ih further⟩
      rw [leaf?_addOutline found outline inTable, inner]

/-- Fields of some names can be added to a sub-record: names lead to it, and it has no members of the
names to come. -/
structure Takes (tree : FieldTree) (above : List String) (parent : Nat) (names : List String) :
    Prop where
  closed : tree.IsClosed
  isNode : ∃ n, tree.field? parent = some (.node n)
  leads : tree.LeadsTo rootId above parent
  plain : ∀ name ∈ above, IsPlainName name
  free : ∀ name ∈ names, tree.findMember parent name = none

namespace Takes

variable {tree : FieldTree} {above names : List String} {parent : Nat} {identifier : String}

theorem inTable (takes : tree.Takes above parent names) : parent < tree.size := by
  rcases takes.isNode with ⟨n, found⟩
  exact exists_field?_iff.mp ⟨_, found⟩

/-- A field was added, and the other names are still to come. -/
theorem after (takes : tree.Takes above parent (identifier :: names)) (alone : identifier ∉ names)
    {one : Outline} (named : one.identifiers = [identifier]) :
    (tree.addOutline parent one).Takes above parent names := by
  rcases takes.isNode with ⟨n, found⟩
  have grown := (field?_addOutline one found).2.1
  refine ⟨takes.closed.addOutline found one, ⟨_, grown⟩,
    takes.leads.addOutline takes.closed found one, takes.plain, ?_⟩
  intro name listed
  apply findMember_addOutline_eq_none takes.closed found
    (takes.free name (List.mem_cons_of_mem identifier listed))
  rw [named]
  intro same
  exact alone (List.mem_singleton.mp same ▸ listed)

/-- A sub-record that was added takes fields of any names. -/
theorem inside (takes : tree.Takes above parent (identifier :: names))
    (plain : IsPlainName identifier) (doc : String) (inner : List String) :
    (tree.addOutline parent (.node identifier doc .nil .nil)).Takes (above ++ [identifier]) tree.size
      inner := by
  rcases takes.isNode with ⟨n, found⟩
  let one : Outline := .node identifier doc .nil .nil
  rcases field?_addOutline one found with ⟨_, _, _, fresh, _⟩
  have there : (tree.addOutline parent one).findMember parent identifier = some tree.size := by
    rw [findMember_addOutline takes.closed found, takes.free identifier List.mem_cons_self,
      Option.none_or]
    exact List.find?_cons_of_pos (beq_iff_eq.mpr (identifier_of_field? fresh))
  have notLeaf : (tree.addOutline parent one).leaf? tree.size = none := by
    rw [leaf?, fresh]
  refine ⟨takes.closed.addOutline found one, ⟨_, fresh⟩,
    (takes.leads.addOutline takes.closed found one).snoc there notLeaf,
    plain_snoc takes.plain plain, ?_⟩
  intro name _
  rw [findMember, members_of_field? fresh]
  rfl

/-- What is added to another sub-record changes nothing here. -/
theorem besides (takes : tree.Takes above parent names) {other : Nat}
    (isNode : ∃ n, tree.field? other = some (.node n)) (different : parent ≠ other)
    (outline : Outline) : (tree.addOutline other outline).Takes above parent names := by
  rcases isNode with ⟨n, there⟩
  rcases takes.isNode with ⟨own, found⟩
  rcases field?_addOutline outline there with ⟨_, _, stays, _⟩
  refine ⟨takes.closed.addOutline there outline,
    ⟨own, (stays parent takes.inTable different).trans found⟩,
    takes.leads.addOutline takes.closed there outline, takes.plain, ?_⟩
  intro name listed
  have untouched :=
    findMember_addOutline_of_ne takes.closed there outline takes.inTable different name
  exact untouched.trans (takes.free name listed)

end Takes

end FieldTree

namespace RecordSchema

/-- The field that an entry adds under a name. -/
def fieldOf (identifier : String) (entry : SchemaEntry) : Field :=
  let doc := Text.join "\n" entry.comment
  match entry.type with
  | some type => .leaf (leafOf identifier type entry doc)
  | none => .node ⟨identifier, doc, []⟩

theorem descend_of_leadsTo {tree : FieldTree} {id goal : FieldId} {path : List String}
    (leads : tree.LeadsTo id path goal) : descend tree id path = .ok (tree, goal) := by
  induction path generalizing id with
  | nil =>
      cases leads
      rfl
  | cons name rest ih =>
      rcases leads with ⟨next, there, inner, further⟩
      rw [descend, there]
      dsimp only
      rw [inner]
      exact ih further

/-- An entry whose parent is there and which is not there itself adds a field. -/
theorem addEntry_of_missing {tree : FieldTree} {above : List String} {identifier : String}
    (plain : ∀ name ∈ above ++ [identifier], IsPlainName name) {parent : FieldId}
    (leads : tree.LeadsTo FieldTree.rootId above parent)
    (missing : tree.findMember parent identifier = none) (entry : SchemaEntry) :
    addEntry tree (Text.join "." (above ++ [identifier])) entry =
      .ok (tree.add parent (fieldOf identifier entry)) := by
  have nonempty : above ++ [identifier] ≠ [] := List.append_ne_nil_of_right_ne_nil _ (by simp)
  have noEmptyName : "" ∉ above ++ [identifier] := fun inside => (plain "" inside).1 rfl
  rw [addEntry, if_neg (Text.join_ne_empty nonempty plain)]
  dsimp only
  rw [Text.splitOn_join_dot nonempty plain, if_neg noEmptyName, List.dropLast_concat,
    descend_of_leadsTo leads]
  dsimp only
  rw [List.getLastD_concat, placeEntry, missing, fieldOf]
  cases entry.type <;> rfl

/-- The entry of a field, read back under its name. -/
theorem fieldOf_fieldEntry (keys : SortedMap String) (dottedId : String) (field : Field) :
    fieldOf field.identifier (Schema.fieldEntry keys dottedId field) =
      field.alone.withDoc (rejoinLines field.doc) := by
  cases field <;> rfl

end RecordSchema

namespace Schema

/-- The entry of a field that is reached by names. -/
def pathEntry (keys : SortedMap String) (entry : List String × Field) : String × SchemaEntry :=
  (Text.join "." entry.1, fieldEntry keys (Text.join "." entry.1) entry.2)

end Schema

namespace RecordSchema

open FieldTree (rootId)

theorem addEntry_pathEntry {tree : FieldTree} {above : List String} {identifier : String}
    {field : Field} (named : field.identifier = identifier)
    (plain : ∀ name ∈ above ++ [identifier], IsPlainName name) {parent : FieldId}
    (leads : tree.LeadsTo rootId above parent)
    (missing : tree.findMember parent identifier = none) (keys : SortedMap String) :
    let entry := Schema.pathEntry keys (above ++ [identifier], field)
    addEntry tree entry.1 entry.2 =
      .ok (tree.add parent (field.alone.withDoc (rejoinLines field.doc))) := by
  subst named
  rw [← fieldOf_fieldEntry keys (Text.join "." (above ++ [field.identifier]))]
  exact addEntry_of_missing plain leads missing _

/-- Add entries from first to last. -/
def addEntries (tree : FieldTree) (entries : List (String × SchemaEntry)) :
    Except EntryCause FieldTree :=
  entries.foldlM (fun tree entry => addEntry tree entry.1 entry.2) tree

theorem addEntries_cons {tree next : FieldTree} {entry : String × SchemaEntry}
    (added : addEntry tree entry.1 entry.2 = .ok next) (rest : List (String × SchemaEntry)) :
    addEntries tree (entry :: rest) = addEntries next rest := by
  rw [addEntries, List.foldlM_cons, added]
  rfl

theorem addEntries_append {tree next : FieldTree} {first : List (String × SchemaEntry)}
    (added : addEntries tree first = .ok next) (rest : List (String × SchemaEntry)) :
    addEntries tree (first ++ rest) = addEntries next rest := by
  rw [addEntries] at added
  rw [addEntries, List.foldlM_append, added]
  rfl

/-- The entries of an outline add its fields below the sub-record to which their paths lead.  Each of
them finds that the sub-record takes it, and leaves it so for the rest. -/
theorem addEntries_outline (keys : SortedMap String) (outline : Outline) :
    ∀ {tree : FieldTree} {parent : Nat} {above : List String},
      tree.Takes above parent outline.identifiers → outline.IsNamed →
      addEntries tree ((outline.entries above).map (Schema.pathEntry keys)) =
        .ok (tree.addOutline parent (outline.mapDocs rejoinLines)) := by
  induction outline with
  | nil => intros; rfl
  | leaf l rest ih =>
      intro tree parent above takes named
      rcases named with ⟨plain, alone, restNamed⟩
      let one : Outline := .leaf { l with doc := rejoinLines l.doc } .nil
      let entry := Schema.pathEntry keys (above ++ [l.identifier], .leaf l)
      have sameName : (Field.leaf l).identifier = l.identifier := rfl
      have added : addEntry tree entry.1 entry.2 = .ok (tree.addOutline parent one) :=
        addEntry_pathEntry sameName (plain_snoc takes.plain plain) takes.leads
          (takes.free l.identifier List.mem_cons_self) keys
      rw [Outline.entries, List.map_cons, addEntries_cons added]
      change _ = Except.ok ((tree.addOutline parent one).addOutline parent (rest.mapDocs rejoinLines))
      exact ih (takes.after alone rfl) restNamed
  | node identifier doc members rest ihMembers ihRest =>
      intro tree parent above takes named
      rcases named with ⟨plain, alone, membersNamed, restNamed⟩
      let one : Outline := .node identifier (rejoinLines doc) .nil .nil
      let inside := members.mapDocs rejoinLines
      let entry := Schema.pathEntry keys (above ++ [identifier], .node ⟨identifier, doc, []⟩)
      have sameName : (Field.node ⟨identifier, doc, []⟩).identifier = identifier := rfl
      have added : addEntry tree entry.1 entry.2 = .ok (tree.addOutline parent one) :=
        addEntry_pathEntry sameName (plain_snoc takes.plain plain) takes.leads
          (takes.free identifier List.mem_cons_self) keys
      have takesMembers := takes.inside plain (rejoinLines doc) members.identifiers
      rw [Outline.entries, List.map_cons, addEntries_cons added, List.map_append,
        addEntries_append (ihMembers takesMembers membersNamed)]
      change _ = Except.ok (((tree.addOutline parent one).addOutline tree.size inside).addOutline
        parent (rest.mapDocs rejoinLines))
      have takesRest : (tree.addOutline parent one).Takes above parent rest.identifiers :=
        takes.after alone rfl
      exact ihRest (takesRest.besides takesMembers.isNode (Nat.ne_of_lt takes.inTable) inside)
        restNamed

end RecordSchema
end KeyedReflection
