import KeyedReflection.Proofs.Field.Layout
import Mathlib.Data.List.Nodup

/-!
# The leaves of a tree

Every path that `FieldTree.leaves` lists ends in a leaf (`leaf?_of_mem_leaves`).  Its names are those on the
way down, so that where siblings have different names, no two paths have the same names
(`nodup_segments_leaves`), whatever else there is in the table.  The leaves are also met on the walk, in the
same order (`map_leaves_eq_filter_walk`).
-/

namespace KeyedReflection
namespace FieldTree

variable {tree : FieldTree} {levels : Nat} {ancestors : List FieldId} {path : LeafPath}

/-- The leaves that come from one member of a field: the member itself, or what is below it. -/
def leavesFrom (tree : FieldTree) (levels : Nat) (ancestors : List FieldId) (member : FieldId) :
    List LeafPath :=
  match tree.field? member with
  | some (.leaf _) => [⟨ancestors, member⟩]
  | some (.node _) => tree.leavesBelow levels (ancestors ++ [member]) member
  | none => []

theorem leavesBelow_succ (tree : FieldTree) (levels : Nat) (ancestors : List FieldId) (id : FieldId) :
    tree.leavesBelow (levels + 1) ancestors id =
      (tree.members id).flatMap (tree.leavesFrom levels ancestors) :=
  rfl

theorem mem_leavesFrom {member : FieldId} (listed : path ∈ tree.leavesFrom levels ancestors member) :
    (∃ leaf, tree.field? member = some (.leaf leaf) ∧ path = ⟨ancestors, member⟩) ∨
      path ∈ tree.leavesBelow levels (ancestors ++ [member]) member := by
  rw [leavesFrom] at listed
  cases found : tree.field? member with
  | none =>
      rw [found] at listed
      cases listed
  | some field =>
      rw [found] at listed
      cases field with
      | leaf leaf => exact .inl ⟨leaf, rfl, List.mem_singleton.mp listed⟩
      | node node => exact .inr listed

theorem leaf?_of_mem_leavesBelow {id : FieldId} (listed : path ∈ tree.leavesBelow levels ancestors id) :
    ∃ leaf, tree.leaf? path.leaf = some leaf := by
  induction levels generalizing ancestors id with
  | zero => cases listed
  | succ levels ih =>
      rw [leavesBelow_succ] at listed
      rcases List.mem_flatMap.mp listed with ⟨member, _, fromMember⟩
      rcases mem_leavesFrom fromMember with ⟨leaf, found, rfl⟩ | further
      · refine ⟨leaf, ?_⟩
        rw [leaf?, found]
      · exact ih further

/-- A path that is listed ends in a leaf. -/
theorem leaf?_of_mem_leaves (listed : path ∈ tree.leaves) :
    ∃ leaf, tree.leaf? path.leaf = some leaf :=
  leaf?_of_mem_leavesBelow listed

/-- The names on the way to a leaf begin with those above the member that it comes from, and that of the
member. -/
theorem segments_of_mem_leavesFrom {member : FieldId}
    (listed : path ∈ tree.leavesFrom levels ancestors member) :
    ∃ rest, path.segments tree = ancestors.map tree.identifier ++ tree.identifier member :: rest := by
  induction levels generalizing ancestors member with
  | zero =>
      rcases mem_leavesFrom listed with ⟨leaf, _, rfl⟩ | further
      · exact ⟨[], List.map_append⟩
      · cases further
  | succ levels ih =>
      rcases mem_leavesFrom listed with ⟨leaf, _, rfl⟩ | further
      · exact ⟨[], List.map_append⟩
      · rw [leavesBelow_succ] at further
        rcases List.mem_flatMap.mp further with ⟨below, _, fromBelow⟩
        rcases ih fromBelow with ⟨rest, segments⟩
        refine ⟨tree.identifier below :: rest, ?_⟩
        rw [segments, List.map_append, List.append_assoc]
        rfl

theorem nodup_segments_leavesBelow (distinct : tree.HasDistinctSiblings) (levels : Nat)
    (ancestors : List FieldId) (id : FieldId) :
    ((tree.leavesBelow levels ancestors id).map fun path => path.segments tree).Nodup := by
  induction levels generalizing ancestors id with
  | zero => exact List.nodup_nil
  | succ levels ih =>
      rw [leavesBelow_succ, List.map_flatMap, List.nodup_flatMap]
      constructor
      · intro member _
        rw [leavesFrom]
        cases tree.field? member with
        | none => exact List.nodup_nil
        | some field =>
            cases field with
            | leaf leaf => exact List.nodup_singleton _
            | node node => exact ih (ancestors ++ [member]) member
      · -- Paths that come from two members differ where the names of these stand.
        refine (List.pairwise_map.mp (distinct id)).imp ?_
        intro member other different
        refine List.disjoint_left.mpr ?_
        intro segments listed otherListed
        rcases List.mem_map.mp listed with ⟨path, fromMember, rfl⟩
        rcases List.mem_map.mp otherListed with ⟨otherPath, fromOther, same⟩
        rcases segments_of_mem_leavesFrom fromMember with ⟨rest, begins⟩
        rcases segments_of_mem_leavesFrom fromOther with ⟨otherRest, otherBegins⟩
        rw [begins, otherBegins] at same
        exact different (List.cons.inj (List.append_cancel_left same)).1.symm

/-- Where siblings have different names, so have the paths of the leaves. -/
theorem nodup_segments_leaves (distinct : tree.HasDistinctSiblings) :
    (tree.leaves.map fun path => path.segments tree).Nodup :=
  nodup_segments_leavesBelow distinct tree.size [] rootId

/-- What determines the names of a path tells the leaves apart. -/
theorem nodup_leaves_of_injective {α : Type} {P : String → Prop}
    (named : ∀ parent, ∀ member ∈ tree.members parent, P (tree.identifier member))
    (distinct : tree.HasDistinctSiblings) {f : List String → α}
    (injective : ∀ names others, names ≠ [] → others ≠ [] → (∀ name ∈ names, P name) →
      (∀ name ∈ others, P name) → f names = f others → names = others) :
    (tree.leaves.map fun path => f (path.segments tree)).Nodup := by
  have segmentsDiffer := nodup_segments_leaves distinct
  rw [← Function.comp_def f, ← List.map_map]
  refine List.Nodup.map_on ?_ segmentsDiffer
  intro names listed others otherListed same
  rcases List.mem_map.mp listed with ⟨path, inside, rfl⟩
  rcases List.mem_map.mp otherListed with ⟨other, otherInside, rfl⟩
  exact injective _ _ (path.segments_ne_nil tree) (other.segments_ne_nil tree)
    (segments_all named inside) (segments_all named otherInside) same

/-- Where siblings have different names, so have the leaves different dotted ids. -/
theorem nodup_dottedId_leaves (plain : tree.HasPlainNames) (distinct : tree.HasDistinctSiblings) :
    (tree.leaves.map fun path => path.dottedId tree).Nodup :=
  nodup_leaves_of_injective plain distinct fun _ _ _ _ namesPlain othersPlain =>
    Text.join_dot_injective namesPlain othersPlain

/-! ## Leaves on the walk -/

theorem map_leavesBelow_eq (tree : FieldTree) (levels : Nat) (ancestors : List FieldId) (id : FieldId) :
    (tree.leavesBelow levels ancestors id).map (fun path => (path.dottedId tree, path.leaf)) =
      (tree.walkBelow levels (ancestors.map tree.identifier) id).filter fun place =>
        (tree.leaf? place.2).isSome := by
  induction levels generalizing ancestors id with
  | zero => rfl
  | succ levels ih =>
      rw [leavesBelow_succ, walkBelow, List.map_flatMap, List.filter_flatMap]
      apply List.flatMap_congr
      intro member _
      dsimp only
      rw [leavesFrom]
      cases found : tree.field? member with
      | none =>
          have nothing : tree.walkBelow levels (ancestors.map tree.identifier ++ [tree.identifier member])
              member = [] := by
            cases levels with
            | zero => rfl
            | succ levels =>
                rw [walkBelow, members, found]
                rfl
          rw [nothing, List.filter_cons_of_neg]
          · rfl
          · rw [leaf?, found]
            exact Bool.false_ne_true
      | some field =>
          cases field with
          | leaf leaf =>
              rw [walkBelow_leaf found, List.filter_cons_of_pos]
              · simp [LeafPath.dottedId, LeafPath.segments, LeafPath.chain]
              · rw [leaf?, found]
                rfl
          | node node =>
              have below := ih (ancestors ++ [member]) member
              rw [List.map_append, List.map_singleton] at below
              rw [List.filter_cons_of_neg, ← below]
              rw [leaf?, found]
              exact Bool.false_ne_true

/-- The leaves are those that the walk meets, in the same order and under the same dotted ids. -/
theorem map_leaves_eq_filter_walk (tree : FieldTree) :
    tree.leaves.map (fun path => (path.dottedId tree, path.leaf)) =
      tree.walk.filter fun place => (tree.leaf? place.2).isSome :=
  map_leavesBelow_eq tree tree.size [] rootId

end FieldTree
end KeyedReflection
