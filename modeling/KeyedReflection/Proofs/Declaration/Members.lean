import KeyedReflection.Proofs.Declaration.Nesting

/-!
# Which members become sub-records

The tree of a record is an outline laid out in a table.  The outline follows the children of the definition
(`RecordIndex.IsOutline`): a named field whose type means a definition is a sub-record, with the outline of
that definition inside it, and every other named field is a leaf (`IsOutline.getElem?_kinds`).  Nothing is
left out below, since the levels last until every definition being added has been passed
(`addMembers_isOutline`).
-/

namespace KeyedReflection

/-- The names of the members in order, each with whether it is a sub-record. -/
def Outline.kinds : Outline → List (String × Bool)
  | .nil => []
  | .leaf l rest => (l.identifier, false) :: rest.kinds
  | .node identifier _ _ rest => (identifier, true) :: rest.kinds

namespace RecordIndex

/-- The outline of some children of a definition, when the last unnamed definition in front of them is
given. -/
inductive IsOutline (index : RecordIndex) :
    RecordDefinition → Option Nat → List Declaration → Outline → Prop where
  | nil {definition : RecordDefinition} {unnamed : Option Nat} :
      index.IsOutline definition unnamed [] .nil
  /-- A child that is no named field has no part in the outline. -/
  | other {definition : RecordDefinition} {unnamed : Option Nat} {child : Declaration}
      {children : List Declaration} {rest : Outline} (unnamedField : fieldName? child = none)
      (further : index.IsOutline definition ((index.unnamedDefinition? child).getD unnamed) children
        rest) :
      index.IsOutline definition unnamed (child :: children) rest
  /-- A field whose type means no definition is a leaf. -/
  | leaf {definition : RecordDefinition} {unnamed : Option Nat} {child : Declaration}
      {children : List Declaration} {rest : Outline} {name : String}
      (named : fieldName? child = some name)
      (plain : index.nestedDefinition? definition child unnamed = none)
      (further : index.IsOutline definition ((index.unnamedDefinition? child).getD unnamed) children
        rest) :
      index.IsOutline definition unnamed (child :: children) (.leaf (leafOf child name) rest)
  /-- A field whose type means a definition is a sub-record with what that definition has. -/
  | node {definition : RecordDefinition} {unnamed : Option Nat} {child : Declaration}
      {children : List Declaration} {members rest : Outline} {name : String} {position : Nat}
      {nested : RecordDefinition} (named : fieldName? child = some name)
      (meant : index.nestedDefinition? definition child unnamed = some (position, nested))
      (inside : index.IsOutline nested none nested.declaration.children members)
      (further : index.IsOutline definition ((index.unnamedDefinition? child).getD unnamed) children
        rest) :
      index.IsOutline definition unnamed (child :: children)
        (.node name (Documentation.ofDeclaration nested.declaration nested.column) members rest)

section

variable {index : RecordIndex} {definition : RecordDefinition} {visiting : List Nat}
  {nest : Nat → RecordDefinition → FieldTree → FieldId → Except RecursiveRecord FieldTree}
  {parent : FieldId} {children : List Declaration} {unnamed : Option Nat} {tree grown : FieldTree}

/-- Behind some children the outline goes on with those that follow. -/
theorem IsOutline.drop_kinds {before : List Declaration} {outline : Outline}
    (isOutline : index.IsOutline definition unnamed (before ++ children) outline) :
    ∃ rest, index.IsOutline definition (index.unnamedBehind unnamed before) children rest ∧
      outline.kinds.drop (before.filterMap fieldName?).length = rest.kinds := by
  induction before generalizing unnamed outline with
  | nil => exact ⟨outline, isOutline, rfl⟩
  | cons child before ih =>
      cases isOutline with
      | other unnamedField further =>
          rcases ih further with ⟨rest, isRest, same⟩
          refine ⟨rest, isRest, ?_⟩
          rw [List.filterMap_cons_none unnamedField, same]
      | leaf named plain further =>
          rcases ih further with ⟨rest, isRest, same⟩
          refine ⟨rest, isRest, ?_⟩
          rw [List.filterMap_cons_some named, List.length_cons, Outline.kinds, List.drop_succ_cons, same]
      | node named meant inside further =>
          rcases ih further with ⟨rest, isRest, same⟩
          refine ⟨rest, isRest, ?_⟩
          rw [List.filterMap_cons_some named, List.length_cons, Outline.kinds, List.drop_succ_cons, same]

/-- A named field is a sub-record exactly when its type means a definition. -/
theorem IsOutline.getElem?_kinds {before after : List Declaration} {field : Declaration}
    {name : String} {outline : Outline}
    (isOutline : index.IsOutline definition unnamed (before ++ field :: after) outline)
    (named : fieldName? field = some name) :
    outline.kinds[(before.filterMap fieldName?).length]? = some (name,
      (index.nestedDefinition? definition field (index.unnamedBehind unnamed before)).isSome) := by
  rcases isOutline.drop_kinds with ⟨rest, isRest, same⟩
  rw [← Nat.add_zero (before.filterMap fieldName?).length, ← List.getElem?_drop, same]
  cases isRest with
  | other unnamedField _ =>
      rw [named] at unnamedField
      cases unnamedField
  | leaf ownName plain _ =>
      cases named.symm.trans ownName
      rw [Outline.kinds, plain, identifier_leafOf]
      rfl
  | node ownName meant _ _ =>
      cases named.symm.trans ownName
      rw [Outline.kinds, meant]
      rfl

/-- What the children add is their outline, if what the definitions add below them are outlines. -/
theorem addChildren_isOutline
    (nests : ∀ position ∉ visiting, ∀ nested, index.definitions[position]? = some nested →
      ∀ before id after, nest position nested before id = .ok after →
        ∃ members, index.IsOutline nested none nested.declaration.children members ∧
          after = before.addOutline id members)
    (added : addChildren index definition visiting nest parent children unnamed tree = .ok grown) :
    ∃ outline, index.IsOutline definition unnamed children outline ∧
      grown = tree.addOutline parent outline := by
  induction children generalizing unnamed tree with
  | nil =>
      cases added
      exact ⟨.nil, .nil, rfl⟩
  | cons child children ih =>
      rcases addChildren_cons added with ⟨next, remaining, step⟩
      rcases ih remaining with ⟨rest, further, rfl⟩
      rcases step with ⟨noField, rfl⟩ |
        ⟨name, named, ⟨plain, rfl⟩ | ⟨position, nested, new, meant, below⟩⟩
      · exact ⟨rest, .other noField further, rfl⟩
      · exact ⟨.leaf (leafOf child name) rest, .leaf named plain further, rfl⟩
      · have there := (nestedDefinition?_eq_some_iff.mp meant).2
        rcases nests position new nested there _ _ next below with ⟨members, inside, rfl⟩
        exact ⟨.node name _ members rest, .node named meant inside further, rfl⟩

/-- What a definition adds to a tree is its outline. -/
theorem addMembers_isOutline {levels : Nat} (stack : index.IsStack visiting)
    (enough : index.definitions.size < levels + visiting.length)
    (added : addMembers index levels definition visiting tree parent = .ok grown) :
    ∃ outline, index.IsOutline definition none definition.declaration.children outline ∧
      grown = tree.addOutline parent outline := by
  have room := stack.length_le
  induction levels generalizing definition visiting tree parent grown with
  | zero => omega
  | succ levels ih =>
      rw [addMembers] at added
      apply addChildren_isOutline _ added
      intro position new nested there before id after below
      have deeper := stack.cons new there
      apply ih deeper _ below deeper.length_le
      rw [List.length_cons]
      omega

/-- The record of a definition is the layout of its outline. -/
theorem recordOf_isOutline {position : Nat} (there : index.definitions[position]? = some definition)
    {record : Record} (taken : index.recordOf position definition = .ok record) :
    ∃ outline, index.IsOutline definition none definition.declaration.children outline ∧
      record = ⟨definition.namespaces, definition.name, .source, .ofOutline definition.name
        (Documentation.ofDeclaration definition.declaration definition.column) outline⟩ := by
  rw [recordOf] at taken
  rcases exists_of_map_ok taken with ⟨tree, added, rfl⟩
  rcases addMembers_isOutline (isStack_singleton there) (Nat.lt_succ_self _) added with
    ⟨outline, isOutline, rfl⟩
  rw [FieldTree.addOutline_new]
  exact ⟨outline, isOutline, rfl⟩

end

end RecordIndex
end KeyedReflection
