import KeyedReflection.Key
import Std.Data.ExtTreeMap

/-!
# Dispatching on keys

A dispatch table holds the keyed leaves of a record by ascending key, so that a key is looked up by
binary search and named by its position from then on.  A switch over the table says what to do at
each position; positions at which the same is to be done share a branch.

What is done at a position is called its body.  The branches are made in one pass over the entries, which
keeps with them where the branch of each body stands (`Merging`).  Bodies are ordered, so that equal ones
are found by a search.
-/

namespace KeyedReflection

/-- The leaves of a record by ascending key. -/
structure DispatchTable where
  entries : Array KeyedLeaf
  deriving DecidableEq, Repr

namespace DispatchTable

/-- The first two neighbours with the same key. -/
def firstClash : List KeyedLeaf → Option KeyClash
  | first :: second :: rest =>
    if first.key = second.key then some ⟨first.key, first.dottedId, second.dottedId⟩
    else firstClash (second :: rest)
  | _ => none

/-- Sort the leaves by key.  Two leaves must not have the same key. -/
def build (leaves : List KeyedLeaf) : Except KeyClash DispatchTable :=
  let sorted := leaves.mergeSort fun left right => left.key ≤ right.key
  match firstClash sorted with
  | some clash => .error clash
  | none => .ok ⟨sorted.toArray⟩

/-- The number of entries. -/
def size (table : DispatchTable) : Nat :=
  table.entries.size

/-- Whether the table has no entries. -/
def isEmpty (table : DispatchTable) : Bool :=
  table.entries.isEmpty

/-- The keys in order. -/
def keys (table : DispatchTable) : List String :=
  table.entries.toList.map KeyedLeaf.key

/-- Look for a key among the positions from `low` up to but not including `high`. -/
def search (table : DispatchTable) (key : String) (low high : Nat) : Option Nat :=
  if low < high then
    let middle := (low + high) / 2
    match table.entries[middle]? with
    | none => none
    | some entry =>
      if entry.key = key then some middle
      else if entry.key < key then table.search key (middle + 1) high
      else table.search key low middle
  else none
termination_by high - low

/-- The position of a key. -/
def indexOf? (table : DispatchTable) (key : String) : Option Nat :=
  table.search key 0 table.size

end DispatchTable

/-! ## Switches -/

/-- The entries for which a switch has branches. -/
inductive Subset where
  | all
  | optionalOnly
  deriving DecidableEq, Repr

/-- What happens at a position without a branch. -/
inductive DefaultBranch where
  /-- There is no such position. -/
  | unreachable
  /-- The field exists but is not optional. -/
  | notOptional
  deriving DecidableEq, Repr

/-- Positions at which the same is to be done, in ascending order. -/
structure Branch (Body : Type) where
  labels : List Nat
  body : Body
  deriving DecidableEq, Repr

/-- Branches in the order of their first positions. -/
structure Switch (Body : Type) where
  branches : List (Branch Body)
  default : DefaultBranch
  deriving DecidableEq, Repr

/-- The branch of a position. -/
def Switch.branchFor? {Body : Type} (switch : Switch Body) (index : Nat) : Option (Branch Body) :=
  switch.branches.find? fun branch => branch.labels.contains index

/-- Whether an entry belongs to a subset. -/
def Subset.includes (subset : Subset) (entry : KeyedLeaf) : Bool :=
  match subset with
  | .all => true
  | .optionalOnly => entry.leaf.isOptional

/-- A branch that may still get labels. -/
structure OpenBranch (Body : Type) where
  labels : Array Nat
  body : Body

/-- Put one more label behind the others. -/
def OpenBranch.addLabel {Body : Type} (branch : OpenBranch Body) (index : Nat) : OpenBranch Body :=
  { branch with labels := branch.labels.push index }

/-- The branch as it stands at last. -/
def OpenBranch.close {Body : Type} (branch : OpenBranch Body) : Branch Body :=
  ⟨branch.labels.toList, branch.body⟩

section

variable {Body : Type} [Ord Body] [Std.TransOrd Body]

/-- The branches of the entries so far, and at which place among them the branch of a body stands. -/
structure Merging (Body : Type) [Ord Body] where
  branches : Array (OpenBranch Body)
  placeOf : Std.ExtTreeMap Body Nat

namespace Merging

/-- Nothing has been met. -/
def empty : Merging Body :=
  ⟨#[], ∅⟩

/-- Put a position under the branch of its body.  A body that was not met before gets a branch of its
own behind the others. -/
def add (merging : Merging Body) (index : Nat) (body : Body) : Merging Body :=
  match merging.placeOf[body]? with
  | some place =>
    { merging with branches := merging.branches.modify place fun branch => branch.addLabel index }
  | none =>
    ⟨merging.branches.push ⟨#[index], body⟩, merging.placeOf.insert body merging.branches.size⟩

/-- The branches as they stand at last. -/
def close (merging : Merging Body) : List (Branch Body) :=
  merging.branches.toList.map OpenBranch.close

end Merging

/-- Go on over entries with their positions; those outside of the subset are passed over. -/
def mergeEntries (subset : Subset) (body : KeyedLeaf → Body) (merging : Merging Body) :
    List (KeyedLeaf × Nat) → Merging Body
  | [] => merging
  | (entry, index) :: rest =>
    mergeEntries subset body
      (if subset.includes entry then merging.add index (body entry) else merging) rest

/-- The switch that does at each position of a subset what `body` says for its entry. -/
def DispatchTable.switch (table : DispatchTable) (subset : Subset) (default : DefaultBranch)
    (body : KeyedLeaf → Body) : Switch Body :=
  ⟨(mergeEntries subset body .empty table.entries.toList.zipIdx).close, default⟩

end

end KeyedReflection
