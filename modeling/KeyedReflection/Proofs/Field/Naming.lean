import KeyedReflection.Record
import KeyedReflection.Proofs.Text.Pieces

/-!
# Names in a field tree

A dotted id can only be taken apart again when the names in it are plain.  The root has no part in
dotted ids, so its name is free; every other field counts as a member of its parent.
-/

namespace KeyedReflection

/-- There is at least the name of the leaf itself. -/
theorem LeafPath.segments_ne_nil (path : LeafPath) (tree : FieldTree) : path.segments tree ≠ [] := by
  simp [segments, chain]

namespace FieldTree

open Text (IsPlainName)

/-- Every member of a field has a plain name. -/
def HasPlainNames (tree : FieldTree) : Prop :=
  ∀ parent, ∀ member ∈ tree.members parent, IsPlainName (tree.identifier member)

/-- The members of a field have different names. -/
def HasDistinctSiblings (tree : FieldTree) : Prop :=
  ∀ parent, ((tree.members parent).map tree.identifier).Nodup

/-- Positions behind the table have no members. -/
theorem members_of_beyond {tree : FieldTree} {id : FieldId} (beyond : ¬id < tree.size) :
    tree.members id = [] := by
  cases id with
  | zero => exact absurd (Nat.succ_pos _) beyond
  | succ below =>
      have outside : tree.below.size ≤ below := Nat.le_of_succ_le_succ (Nat.le_of_not_lt beyond)
      rw [members, field?, Array.getElem?_eq_none outside]

/-- In a new tree nothing has members. -/
@[simp] theorem members_new (identifier doc : String) (id : FieldId) :
    (new identifier doc).members id = [] := by
  cases id <;> rfl

/-- What holds of the name of every member is decided within the table. -/
instance (tree : FieldTree) (P : String → Prop) [DecidablePred P] :
    Decidable (∀ parent, ∀ member ∈ tree.members parent, P (tree.identifier member)) :=
  decidable_of_iff
    (∀ parent < tree.size, ∀ member ∈ tree.members parent, P (tree.identifier member)) <| by
    constructor
    · intro inTable parent member inside
      by_cases within : parent < tree.size
      · exact inTable parent within member inside
      · rw [members_of_beyond within] at inside
        cases inside
    · exact fun everywhere parent _ => everywhere parent

instance (tree : FieldTree) : Decidable tree.HasPlainNames :=
  inferInstanceAs (Decidable (∀ parent, ∀ member ∈ tree.members parent,
    IsPlainName (tree.identifier member)))

instance (tree : FieldTree) : Decidable tree.HasDistinctSiblings :=
  decidable_of_iff (∀ parent < tree.size, ((tree.members parent).map tree.identifier).Nodup) <| by
    constructor
    · intro inTable parent
      by_cases within : parent < tree.size
      · exact inTable parent within
      · rw [members_of_beyond within]
        exact List.nodup_nil
    · exact fun everywhere parent _ => everywhere parent

theorem segments_all_of_mem_leavesBelow {tree : FieldTree} {P : String → Prop}
    (named : ∀ parent, ∀ member ∈ tree.members parent, P (tree.identifier member))
    {levels : Nat} {ancestors : List FieldId} {id : FieldId} {path : LeafPath}
    (above : ∀ ancestor ∈ ancestors, P (tree.identifier ancestor))
    (listed : path ∈ tree.leavesBelow levels ancestors id) :
    ∀ segment ∈ path.segments tree, P segment := by
  induction levels generalizing ancestors id with
  | zero => simp [leavesBelow] at listed
  | succ levels ih =>
      rw [leavesBelow] at listed
      rcases List.mem_flatMap.mp listed with ⟨member, inside, listed⟩
      -- The names on the way to a member are those above it and its own.
      have extended : ∀ ancestor ∈ ancestors ++ [member], P (tree.identifier ancestor) :=
        List.forall_mem_append.mpr ⟨above, List.forall_mem_singleton.mpr (named id member inside)⟩
      cases found : tree.field? member with
      | none => simp [found] at listed
      | some field =>
          cases field with
          | leaf leaf =>
              simp only [found, List.mem_singleton] at listed
              subst listed
              intro segment inside
              rcases List.mem_map.mp inside with ⟨ancestor, onPath, rfl⟩
              exact extended ancestor onPath
          | node node =>
              simp only [found] at listed
              exact ih extended listed

/-- What holds of the names of all members holds of the names on the way to a leaf. -/
theorem segments_all {tree : FieldTree} {P : String → Prop}
    (named : ∀ parent, ∀ member ∈ tree.members parent, P (tree.identifier member))
    {path : LeafPath} (listed : path ∈ tree.leaves) : ∀ segment ∈ path.segments tree, P segment :=
  segments_all_of_mem_leavesBelow named (by simp) listed

/-- The names on the way to a leaf are plain. -/
theorem segments_plain {tree : FieldTree} (plain : tree.HasPlainNames) {path : LeafPath}
    (listed : path ∈ tree.leaves) : ∀ segment ∈ path.segments tree, IsPlainName segment :=
  segments_all plain listed

/-- The dotted id of a leaf is cut into the names on the way to it. -/
theorem splitOn_dottedId {tree : FieldTree} (plain : tree.HasPlainNames) {path : LeafPath}
    (listed : path ∈ tree.leaves) : Text.splitOn '.' (path.dottedId tree) = path.segments tree :=
  Text.splitOn_join_dot (path.segments_ne_nil tree) (segments_plain plain listed)

end FieldTree
end KeyedReflection
