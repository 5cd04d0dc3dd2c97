import KeyedReflection.Proofs.Field.Growing
import KeyedReflection.Proofs.Field.Routes

/-!
# Trees grown by additions to any parent

The parent of an addition is a number that anyone may choose.  The new field is in the table before the
parent is looked at, so an addition succeeds in two cases (`FieldTree.Accepts`): the parent is a
sub-record of the tree, or the new field is a sub-record and the parent is its own place.

Every addition that succeeds leaves each field with one parent that is not behind it
(`IsParented.add`, `isParented_addAll`).  In the second case the field is its own parent: it is in the
table, but the walk does not list it.  Without such an addition the tree is in order
(`isInOrder_addAll_iff`).
-/

namespace KeyedReflection

/-- A call that adds a field. -/
inductive Addition where
  | leaf (parent : FieldId) (leaf : Leaf)
  | node (parent : FieldId) (identifier doc : String)
  deriving DecidableEq, Repr

/-- The position that is given for the parent. -/
def Addition.parent : Addition → FieldId
  | .leaf parent _ => parent
  | .node parent _ _ => parent

/-- The field that enters the table. -/
def Addition.field : Addition → Field
  | .leaf _ l => .leaf l
  | .node _ identifier doc => .node ⟨identifier, doc, []⟩

/-- A field is added without members. -/
theorem Addition.members_field (addition : Addition) : addition.field.members = [] := by
  cases addition <;> rfl

namespace FieldTree

/-- Make one addition; it fails where the parent is refused. -/
def addOne (tree : FieldTree) (addition : Addition) : Except TreeFault FieldTree :=
  match tree.attach addition.parent addition.field with
  | (grown, .ok _) => .ok grown
  | (_, .error fault) => .error fault

/-- Make additions one after the other; all of them must succeed. -/
def addAll (tree : FieldTree) (additions : List Addition) : Except TreeFault FieldTree :=
  additions.foldlM addOne tree

/-- The parent is a sub-record of the tree, or the new field is a sub-record that is to be its own
parent. -/
def Accepts (tree : FieldTree) (addition : Addition) : Prop :=
  (∃ n, tree.field? addition.parent = some (.node n)) ∨
    (addition.parent = tree.size ∧ ∃ n, addition.field = .node n)

/-- Every field below the root is a member of exactly one field, which comes before it, and the walk
lists it exactly once. -/
structure IsInOrder (tree : FieldTree) : Prop where
  parent : ∀ id, rootId < id → id < tree.size →
    ∃ above < id, ∀ other, (tree.members other).count id = if other = above then 1 else 0
  listed : ∀ id, rootId < id → id < tree.size → (tree.walk.map Prod.snd).count id = 1
  length_walk : tree.walk.length + 1 = tree.size

section

variable {tree grown : FieldTree} {addition : Addition}

/-! ## One addition -/

/-- The parent is looked up in the table that has the new field. -/
theorem accepts_iff : tree.Accepts addition ↔
    ∃ n, field? ⟨tree.root, tree.below.push addition.field⟩ addition.parent = some (.node n) := by
  rw [Accepts, field?_push]
  by_cases own : addition.parent = tree.size
  · have missing : tree.field? addition.parent = none := field?_eq_none_iff.mpr (Nat.le_of_eq own.symm)
    rw [if_pos own, missing]
    simp only [own, Option.some.injEq, reduceCtorEq, exists_false, true_and, false_or]
  · rw [if_neg own]
    exact or_iff_left fun both => own both.1

/-- An addition succeeds exactly when it is accepted. -/
theorem addOne_eq_ok_iff : tree.addOne addition = .ok grown ↔
    tree.Accepts addition ∧ grown = tree.add addition.parent addition.field := by
  rw [accepts_iff, addOne, add, attach]
  rcases field? ⟨tree.root, tree.below.push addition.field⟩ addition.parent with _ | (l | n)
  · simp
  · simp
  · simp [eq_comm]

theorem size_addOne (added : tree.addOne addition = .ok grown) : grown.size = tree.size + 1 := by
  rw [(addOne_eq_ok_iff.mp added).2, size_add]

/-- The new field comes last among the members of its parent, and no other field has it. -/
theorem members_addOne (added : tree.addOne addition = .ok grown) (id : FieldId) :
    grown.members id =
      tree.members id ++ if id = addition.parent then [tree.size] else [] := by
  rcases addOne_eq_ok_iff.mp added with ⟨accepted, rfl⟩
  rcases accepts_iff.mp accepted with ⟨n, found⟩
  have place : last ⟨tree.root, tree.below.push addition.field⟩ = tree.size := by
    rw [last, Array.size_push, size]
  have before : members ⟨tree.root, tree.below.push addition.field⟩ id = tree.members id := by
    rw [members, members, field?_push]
    by_cases new : id = tree.size
    · have missing : tree.field? id = none := field?_eq_none_iff.mpr (Nat.le_of_eq new.symm)
      rw [if_pos new, missing]
      exact addition.members_field
    · rw [if_neg new]
  rw [add, attach]
  rw [found]
  dsimp only
  rw [members, field?_addMember found, place, ← before]
  by_cases isParent : id = addition.parent
  · rw [if_pos isParent, if_pos isParent, isParent, members_of_field? found]
    rfl
  · rw [if_neg isParent, if_neg isParent, List.append_nil, members]

theorem mem_members_addOne (added : tree.addOne addition = .ok grown) {id member : FieldId} :
    member ∈ grown.members id ↔
      member ∈ tree.members id ∨ (id = addition.parent ∧ member = tree.size) := by
  rw [members_addOne added, List.mem_append]
  by_cases isParent : id = addition.parent
  · simp only [isParent, if_true, List.mem_singleton, true_and]
  · simp only [isParent, if_false, List.not_mem_nil, false_and]

/-- The parent of an addition that succeeds is not behind the new field. -/
theorem parent_le_of_addOne (added : tree.addOne addition = .ok grown) :
    addition.parent ≤ tree.size := by
  rcases (addOne_eq_ok_iff.mp added).1 with ⟨n, found⟩ | ⟨own, _⟩
  · exact Nat.le_of_lt (exists_field?_iff.mp ⟨_, found⟩)
  · exact Nat.le_of_eq own

namespace IsParented

theorem new (identifier doc : String) : (FieldTree.new identifier doc).IsParented := by
  have empty : ∀ id, ∀ member, member ∉ (FieldTree.new identifier doc).members id := by
    intro id member inside
    rw [members_new] at inside
    exact List.not_mem_nil inside
  refine ⟨?_, ?_, ?_, ?_, ?_, ?_⟩
  · intro id
    rw [members_new]
    exact List.nodup_nil
  · exact fun one _ member inside _ => absurd inside (empty one member)
  · exact fun id => empty id rootId
  · exact fun id member inside => absurd inside (empty id member)
  · exact fun id positive inTable => absurd positive (Nat.not_lt_of_le (Nat.le_of_lt_succ inTable))
  · exact fun id member inside => absurd inside (empty id member)

/-- Every field of the table keeps its one parent, and the new field has the one it was added to. -/
theorem addOne (parented : tree.IsParented) (added : tree.addOne addition = .ok grown) :
    grown.IsParented := by
  have fresh : ∀ id, tree.size ∉ tree.members id :=
    fun id inside => Nat.lt_irrefl _ (parented.closed id _ inside)
  have listed := @mem_members_addOne tree grown addition added
  refine ⟨?_, ?_, ?_, ?_, ?_, ?_⟩
  · intro id
    rw [members_addOne added]
    by_cases isParent : id = addition.parent
    · rw [if_pos isParent]
      exact List.nodup_append_comm.mp (List.nodup_cons.mpr ⟨fresh id, parented.distinct id⟩)
    · rw [if_neg isParent, List.append_nil]
      exact parented.distinct id
  · intro one other member inside otherwise
    rcases listed.mp inside with before | ⟨rfl, rfl⟩
    · rcases listed.mp otherwise with otherBefore | ⟨_, rfl⟩
      · exact parented.oneParent one other member before otherBefore
      · exact absurd before (fresh one)
    · rcases listed.mp otherwise with otherBefore | ⟨rfl, _⟩
      · exact absurd otherBefore (fresh other)
      · rfl
  · intro id inside
    rcases listed.mp inside with before | ⟨_, isRoot⟩
    · exact parented.aboveRoot id before
    · exact Nat.succ_ne_zero _ isRoot.symm
  · intro id member inside
    rcases listed.mp inside with before | ⟨rfl, rfl⟩
    · exact parented.notBehind id member before
    · exact parent_le_of_addOne added
  · intro id positive inTable
    rw [size_addOne added] at inTable
    rcases Nat.lt_succ_iff_lt_or_eq.mp inTable with before | rfl
    · rcases parented.hasParent id positive before with ⟨above, inside⟩
      exact ⟨above, listed.mpr (.inl inside)⟩
    · exact ⟨addition.parent, listed.mpr (.inr ⟨rfl, rfl⟩)⟩
  · intro id member inside
    rw [size_addOne added]
    rcases listed.mp inside with before | ⟨_, rfl⟩
    · exact Nat.lt_succ_of_lt (parented.closed id member before)
    · exact Nat.lt_succ_self _

/-- Without a field that is a member of itself, a table in which every field has one parent is in
order. -/
theorem isInOrder (parented : tree.IsParented) (noLoop : ∀ id, id ∉ tree.members id) :
    tree.IsInOrder := by
  have listed : ∀ id, id ∈ tree.walk.map Prod.snd ↔ rootId < id ∧ id < tree.size := by
    intro id
    have inside : ¬tree.IsCutOff id := fun ⟨loop, self, _⟩ => noLoop loop self
    rw [parented.mem_walk_iff, and_iff_left inside]
  refine ⟨?_, ?_, ?_⟩
  · intro id positive inTable
    rcases parented.hasParent id positive inTable with ⟨above, inside⟩
    refine ⟨above, ?_, parented.count_members inside⟩
    apply Nat.lt_of_le_of_ne (parented.notBehind above id inside)
    rintro rfl
    exact noLoop above inside
  · intro id positive inTable
    exact List.count_eq_one_of_mem parented.nodup_walk ((listed id).mpr ⟨positive, inTable⟩)
  · -- The walk lists the places from one on, each once.
    have places : (tree.walk.map Prod.snd).Perm (List.range' 1 tree.below.size) := by
      refine (List.perm_ext_iff_of_nodup parented.nodup_walk List.nodup_range').mpr ?_
      intro id
      rw [listed, List.mem_range'_1, size, Nat.add_comm 1]
      rfl
    rw [← List.length_map Prod.snd, places.length_eq, List.length_range', size]

end IsParented

/-- In a tree that is in order, no field is a member of itself. -/
theorem IsInOrder.not_mem_members_self (ordered : tree.IsInOrder) {id : FieldId}
    (positive : rootId < id) (inTable : id < tree.size) : id ∉ tree.members id := by
  intro inside
  rcases ordered.parent id positive inTable with ⟨above, before, counts⟩
  have none := counts id
  rw [if_neg (Nat.ne_of_gt before)] at none
  exact List.count_eq_zero.mp none inside

end

/-! ## A run of additions -/

section

variable {tree grown : FieldTree}

theorem addAll_cons_eq_ok_iff {addition : Addition} {additions : List Addition} :
    tree.addAll (addition :: additions) = .ok grown ↔
      ∃ next, tree.addOne addition = .ok next ∧ next.addAll additions = .ok grown := by
  rw [addAll, List.foldlM_cons]
  cases tree.addOne addition with
  | error fault =>
      apply iff_of_false
      · intro impossible
        cases impossible
      · rintro ⟨next, impossible, _⟩
        cases impossible
  | ok next =>
      constructor
      · exact fun further => ⟨next, rfl, further⟩
      · rintro ⟨_, same, further⟩
        cases same
        exact further

/-- What holds of a tree and is kept by every addition holds after all of them. -/
theorem addAll_induction {P : FieldTree → Prop}
    (step : ∀ {tree next : FieldTree} {addition : Addition}, P tree →
      tree.addOne addition = .ok next → P next)
    {additions : List Addition} (start : P tree) (added : tree.addAll additions = .ok grown) :
    P grown := by
  induction additions generalizing tree with
  | nil =>
      cases added
      exact start
  | cons addition additions ih =>
      rcases addAll_cons_eq_ok_iff.mp added with ⟨next, first, further⟩
      exact ih (step start first) further

/-- After the additions, every field has the members it had and those that were added to it. -/
theorem mem_members_addAll {additions : List Addition} (added : tree.addAll additions = .ok grown)
    {id member : FieldId} :
    member ∈ grown.members id ↔ member ∈ tree.members id ∨
      ∃ addition, (addition, member) ∈ additions.zipIdx tree.size ∧ addition.parent = id := by
  induction additions generalizing tree with
  | nil =>
      cases added
      simp
  | cons addition additions ih =>
      rcases addAll_cons_eq_ok_iff.mp added with ⟨next, first, further⟩
      rw [ih further, mem_members_addOne first, size_addOne first, List.zipIdx_cons, or_assoc]
      apply or_congr_right
      constructor
      · rintro (⟨rfl, rfl⟩ | ⟨later, listed, isParent⟩)
        · exact ⟨addition, List.mem_cons_self, rfl⟩
        · exact ⟨later, List.mem_cons_of_mem _ listed, isParent⟩
      · rintro ⟨later, listed, isParent⟩
        rcases List.mem_cons.mp listed with same | listed
        · cases same
          exact .inl ⟨isParent.symm, rfl⟩
        · exact .inr ⟨later, listed, isParent⟩

section

variable {identifier doc : String} {additions : List Addition}

theorem isParented_addAll (added : (new identifier doc).addAll additions = .ok tree) :
    tree.IsParented :=
  addAll_induction (fun parented first => parented.addOne first) (IsParented.new identifier doc) added

/-- A field is a member of itself exactly when its own place was given for its parent. -/
theorem mem_members_self_iff (added : (new identifier doc).addAll additions = .ok tree)
    {id : FieldId} :
    id ∈ tree.members id ↔ ∃ addition, (addition, id) ∈ additions.zipIdx 1 ∧ addition.parent = id := by
  rw [mem_members_addAll added, members_new, or_iff_right List.not_mem_nil]
  rfl

/-- In a tree grown from its root by any additions that succeed, the next addition succeeds exactly
when it is accepted; every field but the root is a member of exactly one field, which is not behind
it; and the walk, which more levels do not lengthen, lists exactly the fields that are not cut off,
each once.  Nothing is cut off and every parent comes before its members exactly when no addition
named the place of the new field as its parent. -/
theorem isInOrder_addAll_iff (added : (new identifier doc).addAll additions = .ok tree) :
    (∀ addition, (∃ grown, tree.addOne addition = .ok grown) ↔ tree.Accepts addition) ∧
    (∀ id, rootId < id → id < tree.size →
      ∃ above ≤ id, ∀ other, (tree.members other).count id = if other = above then 1 else 0) ∧
    (∀ levels, tree.size ≤ levels → tree.walkBelow levels [] rootId = tree.walk) ∧
    (tree.walk.map Prod.snd).Nodup ∧
    (∀ id, id ∈ tree.walk.map Prod.snd ↔ rootId < id ∧ id < tree.size ∧ ¬tree.IsCutOff id) ∧
    (tree.IsInOrder ↔ ∀ entry ∈ additions.zipIdx 1, entry.1.parent ≠ entry.2) := by
  have parented := isParented_addAll added
  refine ⟨?_, ?_, ?_, parented.nodup_walk, fun _ => parented.mem_walk_iff, ?_⟩
  · intro addition
    constructor
    · exact fun ⟨grown, next⟩ => (addOne_eq_ok_iff.mp next).1
    · exact fun accepted => ⟨_, addOne_eq_ok_iff.mpr ⟨accepted, rfl⟩⟩
  · intro id positive inTable
    rcases parented.hasParent id positive inTable with ⟨above, inside⟩
    exact ⟨above, parented.notBehind above id inside, parented.count_members inside⟩
  · intro levels enough
    exact parented.walkBelow_levels [] (isReached_root tree) (Nat.le_add_left _ _) enough
  · constructor
    · rintro ordered ⟨addition, id⟩ listed own
      have inside := (mem_members_self_iff added).mpr ⟨addition, listed, own⟩
      have positive : rootId < id := List.le_snd_of_mem_zipIdx listed
      exact ordered.not_mem_members_self positive (parented.closed id id inside) inside
    · intro noneOwn
      apply parented.isInOrder
      intro id inside
      rcases (mem_members_self_iff added).mp inside with ⟨addition, listed, own⟩
      exact noneOwn (addition, id) listed own

/-- The width and the sub-record `size` below the root, a sub-record that is its own parent, and a leaf
below that: only the first two are listed. -/
theorem isInOrder_addAll_window :
    let width : Leaf := ⟨"width", "int", "int", false, false, ""⟩
    let additions : List Addition := [.node 0 "size" "", .leaf 1 width, .node 3 "lost" "", .leaf 3 width]
    ∃ tree, (new "window" "").addAll additions = .ok tree ∧
      tree.walk = [("size", 1), ("size.width", 2)] ∧ tree.IsCutOff 4 ∧ ¬tree.IsInOrder := by
  intro width additions
  refine ⟨_, rfl, by decide, ⟨3, by decide, [4], by decide, rfl⟩, ?_⟩
  have spec := isInOrder_addAll_iff (show (new "window" "").addAll additions = .ok _ from rfl)
  intro ordered
  exact spec.2.2.2.2.2.mp ordered (.node 3 "lost" "", 3) (by decide) rfl

/-- A sub-record that is added to its own place is in the table but not in the walk. -/
theorem addAll_own_parent :
    ∃ tree, (new "window" "").addAll [.node 1 "size" ""] = .ok tree ∧
      tree.size = 2 ∧ tree.walk = [] ∧ tree.members 1 = [1] ∧ ¬tree.IsInOrder := by
  refine ⟨_, rfl, rfl, rfl, rfl, ?_⟩
  intro ordered
  exact absurd ordered.length_walk (by decide)

end
end
end FieldTree
end KeyedReflection
