import KeyedReflection.Proofs.Field.Layout
import Mathlib.Data.List.Find

/-!
# Trees that grow in pre-order

`FieldTree.addOutline` adds the fields of an outline to a sub-record one by one, each sub-record before
its members.  What was in the tree stays where it is, and the new fields are laid out behind it
(`field?_addOutline`); so a tree that grew from nothing is the layout of what was added
(`addOutline_new`).
-/

namespace KeyedReflection
namespace FieldTree

@[simp] theorem size_add (tree : FieldTree) (parent : FieldId) (field : Field) :
    (tree.add parent field).size = tree.size + 1 := by
  have last := tree.last_add parent field
  rw [FieldTree.last] at last
  rw [size, last]

theorem field?_addMember {tree : FieldTree} {parent : FieldId} {n : Node}
    (found : tree.field? parent = some (.node n)) (member id : FieldId) :
    (tree.addMember parent member).field? id =
      if id = parent then some (.node { n with members := n.members ++ [member] })
      else tree.field? id := by
  cases parent with
  | zero =>
      cases found
      cases id <;> rfl
  | succ parent =>
      cases id with
      | zero => rfl
      | succ id =>
          rw [field?] at found
          rw [addMember, field?, field?, Array.getElem?_modify]
          by_cases same : parent = id
          · subst same
            rw [if_pos rfl, if_pos rfl, found]
            rfl
          · rw [if_neg same, if_neg (fun equal => same (Nat.succ.inj equal).symm)]

/-- A field that enters the table takes the place behind the others. -/
theorem field?_push (tree : FieldTree) (field : Field) (id : FieldId) :
    field? ⟨tree.root, tree.below.push field⟩ id =
      if id = tree.size then some field else tree.field? id := by
  cases id with
  | zero => rfl
  | succ id =>
      rw [field?, field?, Array.getElem?_push, size]
      by_cases same : id = tree.below.size
      · rw [if_pos same, if_pos (congrArg Nat.succ same)]
      · rw [if_neg same, if_neg (fun equal => same (Nat.succ.inj equal))]

/-- A field that is added to a sub-record comes last in the table and last among its members. -/
theorem field?_add {tree : FieldTree} {parent : FieldId} {n : Node}
    (found : tree.field? parent = some (.node n)) (field : Field) (id : FieldId) :
    (tree.add parent field).field? id =
      if id = parent then some (.node { n with members := n.members ++ [tree.size] })
      else if id = tree.size then some field
      else tree.field? id := by
  have inTable := exists_field?_iff.mp ⟨_, found⟩
  have stays : field? ⟨tree.root, tree.below.push field⟩ parent = some (.node n) := by
    rw [field?_push, if_neg (Nat.ne_of_lt inTable), found]
  have place : last ⟨tree.root, tree.below.push field⟩ = tree.size := by
    rw [last, Array.size_push, size]
  rw [add, attach]
  rw [stays]
  dsimp only
  rw [field?_addMember stays, place, field?_push]

/-- Add the fields of an outline as the last members of a sub-record. -/
def addOutline (tree : FieldTree) (parent : FieldId) : Outline → FieldTree
  | .nil => tree
  | .leaf l rest => (tree.add parent (.leaf l)).addOutline parent rest
  | .node identifier doc members rest =>
    (((tree.add parent (.node ⟨identifier, doc, []⟩)).addOutline tree.size members).addOutline
      parent rest)

/-- What was there stays, the sub-record gets the new members, and the new fields come behind. -/
theorem field?_addOutline (outline : Outline) :
    ∀ {tree : FieldTree} {parent : Nat} {n : Node}, tree.field? parent = some (.node n) →
      (tree.addOutline parent outline).size = tree.size + outline.count ∧
      (tree.addOutline parent outline).field? parent =
        some (.node { n with members := n.members ++ outline.positions tree.size }) ∧
      (∀ id < tree.size, id ≠ parent →
        (tree.addOutline parent outline).field? id = tree.field? id) ∧
      (tree.addOutline parent outline).Holds tree.size outline := by
  induction outline with
  | nil =>
      intro tree parent n found
      rw [addOutline, Outline.positions, List.append_nil]
      exact ⟨rfl, found, fun _ _ _ => rfl, trivial⟩
  | leaf l rest ih =>
      intro tree parent n found
      have inTable : parent < tree.size := exists_field?_iff.mp ⟨_, found⟩
      have grown := field?_add found (.leaf l)
      have parentGrown := (grown parent).trans (if_pos rfl)
      rcases ih parentGrown with ⟨size, members, stays, held⟩
      rw [size_add] at size members stays held
      rw [addOutline]
      refine ⟨?_, ?_, ?_, ?_, held⟩
      · rw [size, Outline.count]
        omega
      · rw [members, Outline.positions, List.append_assoc]
        rfl
      · intro id within different
        rw [stays id (Nat.lt_succ_of_lt within) different, grown, if_neg different,
          if_neg (Nat.ne_of_lt within)]
      · rw [stays tree.size (Nat.lt_succ_self _) (Nat.ne_of_gt inTable), grown,
          if_neg (Nat.ne_of_gt inTable), if_pos rfl]
  | node identifier doc members rest ihMembers ihRest =>
      intro tree parent n found
      have inTable : parent < tree.size := exists_field?_iff.mp ⟨_, found⟩
      have grown := field?_add found (.node ⟨identifier, doc, []⟩)
      have fresh := (grown tree.size).trans ((if_neg (Nat.ne_of_gt inTable)).trans (if_pos rfl))
      rcases ihMembers fresh with ⟨innerSize, innerMembers, innerStays, innerHeld⟩
      rw [size_add] at innerSize innerMembers innerStays innerHeld
      have parentStays : ((tree.add parent (.node ⟨identifier, doc, []⟩)).addOutline tree.size
          members).field? parent =
            some (.node { n with members := n.members ++ [tree.size] }) := by
        rw [innerStays parent (Nat.lt_succ_of_lt inTable) (Nat.ne_of_lt inTable), grown, if_pos rfl]
      rcases ihRest parentStays with ⟨size, places, stays, held⟩
      rw [innerSize] at size places stays held
      rw [addOutline]
      refine ⟨?_, ?_, ?_, ?_, ?_, held⟩
      · rw [size, Outline.count]
        omega
      · rw [places, Outline.positions, List.append_assoc]
        rfl
      · intro id within different
        rw [stays id (by omega) different, innerStays id (by omega) (Nat.ne_of_lt within), grown,
          if_neg different, if_neg (Nat.ne_of_lt within)]
      · rw [stays tree.size (by omega) (Nat.ne_of_gt inTable), innerMembers, List.nil_append]
      · rw [holds_iff] at innerHeld ⊢
        intro index within
        rw [stays (tree.size + 1 + index) (by omega) (by omega), innerHeld index within]

/-- A tree that grew from its root is the layout of what was added. -/
theorem addOutline_new (identifier doc : String) (outline : Outline) :
    (new identifier doc).addOutline rootId outline = ofOutline identifier doc outline := by
  have root : (new identifier doc).field? rootId = some (.node ⟨identifier, doc, []⟩) := rfl
  rcases field?_addOutline outline root with ⟨size, members, _, held⟩
  have laidOut := holds_ofOutline identifier doc outline
  have laidOutSize := size_ofOutline identifier doc outline
  have one : (new identifier doc).size = 1 := rfl
  rw [one] at size members held
  apply ext_field?
  intro id
  cases id with
  | zero => exact members
  | succ below =>
      by_cases within : below < outline.count
      · have there := holds_iff.mp laidOut below within
        have here := holds_iff.mp held below within
        rw [Nat.add_comm 1] at there here
        exact here.trans there.symm
      · rw [field?_eq_none_iff.mpr (by omega), field?_eq_none_iff.mpr (by omega)]

/-! ## Looking members up while a tree grows -/

theorem mem_fields_of_holds {tree : FieldTree} {outline : Outline} {start : Nat}
    (held : tree.Holds start outline) {id : Nat} (least : start ≤ id)
    (most : id < start + outline.count) :
    ∃ field ∈ outline.fields start, tree.field? id = some field := by
  have within : id - start < outline.count := by omega
  have there := holds_iff.mp held (id - start) within
  have place : start + (id - start) = id := by omega
  rw [place] at there
  have bound : id - start < (outline.fields start).length := by rwa [Outline.length_fields]
  refine ⟨(outline.fields start)[id - start], List.getElem_mem _, ?_⟩
  rw [there, List.getElem?_eq_getElem bound]

theorem map_identifier_positions {tree : FieldTree} {outline : Outline} {start : Nat}
    (held : tree.Holds start outline) :
    (outline.positions start).map tree.identifier = outline.identifiers := by
  induction outline generalizing start with
  | nil => rfl
  | leaf l rest ih =>
      rcases held with ⟨first, others⟩
      rw [Outline.positions, List.map_cons, ih others, identifier_of_field? first]
      rfl
  | node identifier doc members rest _ ihRest =>
      rcases held with ⟨first, _, others⟩
      rw [Outline.positions, List.map_cons, ihRest others, identifier_of_field? first]
      rfl

section

variable {tree : FieldTree} {parent : Nat} {n : Node}

theorem identifier_addOutline (found : tree.field? parent = some (.node n)) (outline : Outline)
    {id : Nat} (within : id < tree.size) :
    (tree.addOutline parent outline).identifier id = tree.identifier id := by
  rcases field?_addOutline outline found with ⟨_, grown, stays, _⟩
  by_cases same : id = parent
  · subst same
    rw [identifier_of_field? grown, identifier_of_field? found]
    rfl
  · rw [identifier, identifier, stays id within same]

theorem leaf?_addOutline (found : tree.field? parent = some (.node n)) (outline : Outline)
    {id : Nat} (within : id < tree.size) :
    (tree.addOutline parent outline).leaf? id = tree.leaf? id := by
  rcases field?_addOutline outline found with ⟨_, grown, stays, _⟩
  by_cases same : id = parent
  · subst same
    rw [leaf?, leaf?, grown, found]
  · rw [leaf?, leaf?, stays id within same]

theorem IsClosed.addOutline (closed : tree.IsClosed)
    (found : tree.field? parent = some (.node n)) (outline : Outline) :
    (tree.addOutline parent outline).IsClosed := by
  rcases field?_addOutline outline found with ⟨total, grown, stays, held⟩
  intro id member inside
  rw [total]
  by_cases same : id = parent
  · subst same
    rw [members_of_field? grown, Field.members] at inside
    rcases List.mem_append.mp inside with old | new
    · have bound : member < tree.size := closed id member (members_of_field? found ▸ old)
      exact Nat.lt_of_lt_of_le bound (Nat.le_add_right _ _)
    · exact (outline.positions_bounds tree.size member new).2
  · by_cases within : id < tree.size
    · rw [members, stays id within same] at inside
      exact Nat.lt_of_lt_of_le (closed id member inside) (Nat.le_add_right _ _)
    · by_cases beyond : id < tree.size + outline.count
      · rcases mem_fields_of_holds held (Nat.le_of_not_lt within) beyond with ⟨field, listed, there⟩
        rw [members_of_field? there] at inside
        exact outline.members_bounds tree.size field listed member inside
      · have missing := field?_eq_none_iff.mpr (total ▸ Nat.le_of_not_lt beyond)
        rw [members, missing] at inside
        cases inside

theorem isClosed_new (identifier doc : String) : (new identifier doc).IsClosed := by
  intro id member inside
  cases id <;> cases inside

theorem isClosed_ofOutline (identifier doc : String) (outline : Outline) :
    (ofOutline identifier doc outline).IsClosed := by
  have root : (new identifier doc).field? rootId = some (.node ⟨identifier, doc, []⟩) := rfl
  rw [← addOutline_new]
  exact (isClosed_new identifier doc).addOutline root outline

/-- Under other sub-records nothing new is found. -/
theorem findMember_addOutline_of_ne (closed : tree.IsClosed)
    (found : tree.field? parent = some (.node n)) (outline : Outline) {id : Nat}
    (within : id < tree.size) (different : id ≠ parent) (name : String) :
    (tree.addOutline parent outline).findMember id name = tree.findMember id name := by
  rcases field?_addOutline outline found with ⟨_, _, stays, _⟩
  have sameMembers : (tree.addOutline parent outline).members id = tree.members id := by
    rw [members, members, stays id within different]
  rw [findMember, findMember, sameMembers]
  apply List.find?_congr
  intro member inside
  rw [identifier_addOutline found outline (closed id member inside)]

/-- Under the sub-record that grew, what was found before is found still, and then the new members
are looked at. -/
theorem findMember_addOutline (closed : tree.IsClosed)
    (found : tree.field? parent = some (.node n)) (outline : Outline) (name : String) :
    (tree.addOutline parent outline).findMember parent name =
      (tree.findMember parent name).or ((outline.positions tree.size).find? fun id =>
        (tree.addOutline parent outline).identifier id == name) := by
  rcases field?_addOutline outline found with ⟨_, grown, _, _⟩
  rw [findMember, findMember, members_of_field? grown, members_of_field? found, Field.members,
    Field.members, List.find?_append]
  congr 1
  apply List.find?_congr
  intro member inside
  rw [identifier_addOutline found outline
    (closed parent member (members_of_field? found ▸ inside))]

theorem findMember_addOutline_eq_none (closed : tree.IsClosed)
    (found : tree.field? parent = some (.node n)) {outline : Outline} {name : String}
    (missing : tree.findMember parent name = none) (unnamed : name ∉ outline.identifiers) :
    (tree.addOutline parent outline).findMember parent name = none := by
  rw [findMember_addOutline closed found, missing, Option.none_or, List.find?_eq_none]
  intro id listed same
  apply unnamed
  rcases field?_addOutline outline found with ⟨_, _, _, held⟩
  rw [← map_identifier_positions held, ← beq_iff_eq.mp same]
  exact List.mem_map_of_mem listed

/-- What was found under a name is found under it still. -/
theorem findMember_addOutline_of_some (closed : tree.IsClosed)
    (found : tree.field? parent = some (.node n)) (outline : Outline) {id next : Nat}
    {name : String} (there : tree.findMember id name = some next) :
    (tree.addOutline parent outline).findMember id name = some next := by
  by_cases same : id = parent
  · subst same
    rw [findMember_addOutline closed found, there, Option.some_or]
  · have within : id < tree.size := by
      by_contra beyond
      have missing := field?_eq_none_iff.mpr (Nat.le_of_not_lt beyond)
      rw [findMember, members, missing] at there
      cases there
    rw [findMember_addOutline_of_ne closed found outline within same, there]

end

end FieldTree
end KeyedReflection
