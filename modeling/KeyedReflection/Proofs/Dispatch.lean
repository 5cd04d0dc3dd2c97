import KeyedReflection.Dispatch
import KeyedReflection.Proofs.SortedMap

/-!
# Looking up keys and branches

A table is built in ascending order of its keys, and then the binary search finds exactly the keys that
are there.  A switch over the table has, at each position, a branch with the body for the entry at that
position, and no position is a label twice.

The branches come from a loop over the entries.  What it keeps is `Merging.Gathers`: where each body has its
branch, and that the branches hold the positions so far, by their bodies and in order.  One more position
keeps it (`Gathers.add`), and so does a pass over all entries (`Gathers.mergeEntries`).

`entryOf?` is the plain meaning of a look-up: the entry with the key, searched for from the front.
-/

namespace KeyedReflection
namespace DispatchTable

/-- The keys ascend, so that none occurs twice. -/
def IsAscending (table : DispatchTable) : Prop :=
  table.entries.toList.Pairwise fun left right => left.key < right.key

/-- The entry of a key, looked for from the front. -/
def entryOf? (table : DispatchTable) (key : String) : Option KeyedLeaf :=
  table.entries.toList.find? fun entry => entry.key == key

/-! ## Building -/

/-- Without equal neighbours an ordered list ascends. -/
private theorem ascending_of_firstClash {leaves : List KeyedLeaf}
    (ordered : leaves.Pairwise fun left right => left.key ≤ right.key)
    (clashless : firstClash leaves = none) :
    leaves.Pairwise fun left right => left.key < right.key := by
  induction leaves with
  | nil => exact .nil
  | cons first rest ih =>
      rcases List.pairwise_cons.mp ordered with ⟨least, restOrdered⟩
      cases rest with
      | nil => exact List.pairwise_singleton _ _
      | cons second others =>
          rw [firstClash] at clashless
          by_cases same : first.key = second.key
          · rw [if_pos same] at clashless
            cases clashless
          · rw [if_neg same] at clashless
            have tail := ih restOrdered clashless
            have step : first.key < second.key :=
              String.not_le.mp fun back =>
                same (String.le_antisymm (least second List.mem_cons_self) back)
            refine List.pairwise_cons.mpr ⟨fun leaf listed => ?_, tail⟩
            rcases List.mem_cons.mp listed with rfl | later
            · exact step
            · exact String.lt_trans step ((List.pairwise_cons.mp tail).1 leaf later)

/-- A table that was built holds the leaves, and its keys ascend. -/
theorem build_ok {leaves : List KeyedLeaf} {table : DispatchTable}
    (built : build leaves = .ok table) :
    table.IsAscending ∧ table.entries.toList.Perm leaves := by
  have ordered : (leaves.mergeSort fun left right => left.key ≤ right.key).Pairwise
      fun left right => left.key ≤ right.key := by
    refine (List.pairwise_mergeSort ?_ ?_ leaves).imp fun before => of_decide_eq_true before
    · intro first second third before after
      exact decide_eq_true
        (String.le_trans (of_decide_eq_true before) (of_decide_eq_true after))
    · intro left right
      rcases String.le_total left.key right.key with before | after
      · simp [before]
      · simp [after]
  rw [build] at built
  split at built
  · cases built
  · rename_i clashless
    cases built
    exact ⟨ascending_of_firstClash ordered clashless, List.mergeSort_perm leaves _⟩

/-- Where the keys are distinct there is no clash, in whatever order the leaves come. -/
theorem firstClash_of_distinct {leaves : List KeyedLeaf}
    (distinct : (leaves.map KeyedLeaf.key).Nodup) : firstClash leaves = none := by
  induction leaves with
  | nil => rfl
  | cons first rest ih =>
      rcases List.nodup_cons.mp distinct with ⟨alone, others⟩
      cases rest with
      | nil => rfl
      | cons second rest =>
          have different : first.key ≠ second.key :=
            fun same => alone (List.mem_map.mpr ⟨second, List.mem_cons_self, same.symm⟩)
          rw [firstClash, if_neg different]
          exact ih others

/-- Leaves with distinct keys have a table. -/
theorem build_of_distinct {leaves : List KeyedLeaf}
    (distinct : (leaves.map KeyedLeaf.key).Nodup) : ∃ table, build leaves = .ok table := by
  have sortedDistinct := ((List.mergeSort_perm leaves fun left right =>
    left.key ≤ right.key).map KeyedLeaf.key).nodup_iff.mpr distinct
  rw [build, firstClash_of_distinct sortedDistinct]
  exact ⟨_, rfl⟩

/-! ## Searching -/

theorem IsAscending.distinctKeys {table : DispatchTable} (ascending : table.IsAscending) :
    (table.entries.toList.map KeyedLeaf.key).Nodup := by
  rw [List.nodup_iff_pairwise_ne, List.pairwise_map]
  refine ascending.imp ?_
  intro left right before same
  rw [same] at before
  exact String.lt_irrefl _ before

theorem IsAscending.key_lt {table : DispatchTable} (ascending : table.IsAscending)
    {low high : Nat} {first second : KeyedLeaf} (before : low < high)
    (atLow : table.entries[low]? = some first) (atHigh : table.entries[high]? = some second) :
    first.key < second.key := by
  rw [← Array.getElem?_toList] at atLow atHigh
  rcases List.getElem?_eq_some_iff.mp atLow with ⟨lowBound, rfl⟩
  rcases List.getElem?_eq_some_iff.mp atHigh with ⟨highBound, rfl⟩
  exact List.pairwise_iff_getElem.mp ascending low high lowBound highBound before

theorem IsAscending.eq_of_key_eq {table : DispatchTable} (ascending : table.IsAscending)
    {left right : Nat} {first second : KeyedLeaf} (atLeft : table.entries[left]? = some first)
    (atRight : table.entries[right]? = some second) (same : first.key = second.key) :
    left = right := by
  rcases Nat.lt_trichotomy left right with before | equal | after
  · exact absurd (ascending.key_lt before atLeft atRight) (same ▸ String.lt_irrefl _)
  · exact equal
  · exact absurd (ascending.key_lt after atRight atLeft) (same ▸ String.lt_irrefl _)

theorem IsAscending.lt_of_key_lt {table : DispatchTable} (ascending : table.IsAscending)
    {left right : Nat} {first second : KeyedLeaf} (atLeft : table.entries[left]? = some first)
    (atRight : table.entries[right]? = some second) (before : first.key < second.key) :
    left < right := by
  rcases Nat.lt_trichotomy left right with least | equal | after
  · exact least
  · rw [equal, atRight] at atLeft
    cases atLeft
    exact absurd before (String.lt_irrefl _)
  · exact absurd (ascending.key_lt after atRight atLeft) (String.lt_asymm before)

/-- The search finds a position between its bounds exactly when the key stands there. -/
theorem search_eq_some_iff {table : DispatchTable} (ascending : table.IsAscending) {key : String}
    {low high : Nat} (bounded : high ≤ table.size) (index : Nat) :
    table.search key low high = some index ↔
      low ≤ index ∧ index < high ∧
        ∃ entry, table.entries[index]? = some entry ∧ entry.key = key := by
  fun_induction search table key low high with
  | case1 low high range middle missing =>
      have inside : middle < table.entries.size := by
        have := bounded
        unfold size at this
        omega
      rw [Array.getElem?_eq_getElem inside] at missing
      cases missing
  | case2 low high range middle entry found same =>
      constructor
      · intro equal
        have place := Option.some.inj equal
        exact ⟨by omega, by omega, entry, place ▸ found, same⟩
      · rintro ⟨-, -, other, there, key⟩
        rw [ascending.eq_of_key_eq found there (same.trans key.symm)]
  | case3 low high range middle entry found different below ih =>
      rw [ih bounded]
      constructor
      · rintro ⟨least, most, rest⟩
        exact ⟨by omega, most, rest⟩
      · rintro ⟨least, most, other, there, keyIs⟩
        -- A position up to the middle has a key that is too small.
        have behind := ascending.lt_of_key_lt found there (keyIs.symm ▸ below)
        exact ⟨behind, most, other, there, keyIs⟩
  | case4 low high range middle entry found different notBelow ih =>
      rw [ih (by omega)]
      constructor
      · rintro ⟨least, most, rest⟩
        exact ⟨least, by omega, rest⟩
      · rintro ⟨least, most, other, there, keyIs⟩
        -- A position from the middle on has a key that is not below.
        have above : key < entry.key :=
          String.not_le.mp fun back =>
            different (String.le_antisymm back (String.not_lt.mp notBelow))
        have before := ascending.lt_of_key_lt there found (keyIs.symm ▸ above)
        exact ⟨least, before, other, there, keyIs⟩
  | case5 low high closed =>
      constructor
      · intro impossible
        cases impossible
      · rintro ⟨least, most, -⟩
        omega

/-- The position of a key is the one at which an entry has it. -/
theorem indexOf?_eq_some_iff {table : DispatchTable} (ascending : table.IsAscending)
    {key : String} {index : Nat} :
    table.indexOf? key = some index ↔
      ∃ entry, table.entries[index]? = some entry ∧ entry.key = key := by
  rw [indexOf?, search_eq_some_iff ascending (Nat.le_refl _)]
  constructor
  · rintro ⟨-, -, there⟩
    exact there
  · rintro ⟨entry, there, key⟩
    rcases Array.getElem?_eq_some_iff.mp there with ⟨inside, -⟩
    exact ⟨Nat.zero_le _, inside, entry, there, key⟩

theorem entryOf?_eq_some_iff {table : DispatchTable} (ascending : table.IsAscending)
    {key : String} {entry : KeyedLeaf} :
    table.entryOf? key = some entry ↔ entry ∈ table.entries.toList ∧ entry.key = key :=
  SortedMap.find?_eq_some_iff_of_distinct ascending.distinctKeys

theorem entryOf?_eq_none_iff {table : DispatchTable} {key : String} :
    table.entryOf? key = none ↔ key ∉ table.keys := by
  rw [entryOf?, List.find?_eq_none, keys, List.mem_map, not_exists]
  simp only [beq_iff_eq, not_and]

/-- The search by halves and the search from the front find the same entry. -/
theorem getElem?_indexOf? {table : DispatchTable} (ascending : table.IsAscending) (key : String) :
    ((table.indexOf? key).bind fun index => table.entries[index]?) = table.entryOf? key := by
  cases found : table.entryOf? key with
  | none =>
      cases place : table.indexOf? key with
      | none => rfl
      | some index =>
          rcases (indexOf?_eq_some_iff ascending).mp place with ⟨entry, there, same⟩
          rw [← Array.getElem?_toList] at there
          have listed := (entryOf?_eq_some_iff ascending).mpr ⟨List.mem_of_getElem? there, same⟩
          rw [found] at listed
          cases listed
  | some entry =>
      rcases (entryOf?_eq_some_iff ascending).mp found with ⟨listed, same⟩
      rcases List.mem_iff_getElem?.mp listed with ⟨index, there⟩
      rw [Array.getElem?_toList] at there
      rw [(indexOf?_eq_some_iff ascending).mpr ⟨entry, there, same⟩]
      exact there

/-- A look-up fails in both ways or finds one entry in both ways. -/
theorem lookup_cases {table : DispatchTable} (ascending : table.IsAscending) (key : String) :
    (table.indexOf? key = none ∧ table.entryOf? key = none) ∨
    ∃ index entry, table.indexOf? key = some index ∧ table.entries[index]? = some entry ∧
      table.entryOf? key = some entry := by
  have agree := getElem?_indexOf? ascending key
  cases place : table.indexOf? key with
  | none => exact .inl ⟨rfl, by rw [← agree, place]; rfl⟩
  | some index =>
      rcases (indexOf?_eq_some_iff ascending).mp place with ⟨entry, there, -⟩
      exact .inr ⟨index, entry, rfl, there, by rw [← agree, place]; exact there⟩

end DispatchTable

/-! ## Positions with bodies -/

section

variable {Body : Type}

/-- The positions of those entries that are in a subset, with their bodies. -/
def Subset.places (subset : Subset) (body : KeyedLeaf → Body) (entries : List (KeyedLeaf × Nat)) :
    List (Nat × Body) :=
  entries.filterMap fun place =>
    if subset.includes place.1 then some (place.2, body place.1) else none

theorem Subset.places_cons_of_includes {subset : Subset} {entry : KeyedLeaf × Nat}
    (included : subset.includes entry.1 = true) (body : KeyedLeaf → Body)
    (rest : List (KeyedLeaf × Nat)) :
    subset.places body (entry :: rest) = (entry.2, body entry.1) :: subset.places body rest :=
  List.filterMap_cons_some (if_pos included)

theorem Subset.places_cons_of_excludes {subset : Subset} {entry : KeyedLeaf × Nat}
    (excluded : ¬ subset.includes entry.1 = true) (body : KeyedLeaf → Body)
    (rest : List (KeyedLeaf × Nat)) :
    subset.places body (entry :: rest) = subset.places body rest :=
  List.filterMap_cons_none (if_neg excluded)

/-- The positions of a subset of a table with their bodies. -/
def DispatchTable.places (table : DispatchTable) (subset : Subset) (body : KeyedLeaf → Body) :
    List (Nat × Body) :=
  subset.places body table.entries.toList.zipIdx

theorem DispatchTable.mem_places_iff {table : DispatchTable} {subset : Subset}
    {body : KeyedLeaf → Body} {index : Nat} {found : Body} :
    (index, found) ∈ table.places subset body ↔
      ∃ entry, table.entries[index]? = some entry ∧ subset.includes entry = true ∧
        body entry = found := by
  rw [places, Subset.places, List.mem_filterMap]
  constructor
  · rintro ⟨⟨entry, place⟩, listed, made⟩
    have there := List.mk_mem_zipIdx_iff_getElem?.mp listed
    rw [Array.getElem?_toList] at there
    rw [Option.ite_none_right_eq_some] at made
    rcases made with ⟨included, made⟩
    cases made
    exact ⟨entry, there, included, rfl⟩
  · rintro ⟨entry, there, included, rfl⟩
    rw [← Array.getElem?_toList] at there
    exact ⟨(entry, index), List.mk_mem_zipIdx_iff_getElem?.mpr there, if_pos included⟩

/-- One body stands at a position. -/
theorem DispatchTable.single_places (table : DispatchTable) (subset : Subset)
    (body : KeyedLeaf → Body) (index : Nat) (first second : Body)
    (atFirst : (index, first) ∈ table.places subset body)
    (atSecond : (index, second) ∈ table.places subset body) : first = second := by
  rcases mem_places_iff.mp atFirst with ⟨entry, there, _, rfl⟩
  rcases mem_places_iff.mp atSecond with ⟨other, otherThere, _, rfl⟩
  rw [there] at otherThere
  cases otherThere
  rfl

/-- The positions come in ascending order. -/
theorem DispatchTable.ascending_zipIdx (table : DispatchTable) :
    table.entries.toList.zipIdx.Pairwise fun left right => left.2 < right.2 := by
  rw [← List.pairwise_map (f := Prod.snd) (R := (· < ·)), List.zipIdx_map_snd]
  exact List.pairwise_lt_range'

end

/-! ## Merging branches -/

section

variable {Body : Type}

/-- Put one more label behind the others. -/
def Branch.addLabel (branch : Branch Body) (index : Nat) : Branch Body :=
  { branch with labels := branch.labels ++ [index] }

/-- One branch stands in front of another when its smallest label is smaller. -/
def Branch.IsBefore (branch other : Branch Body) : Prop :=
  ∃ least ∈ branch.labels, (∀ label ∈ branch.labels, least ≤ label) ∧
    ∀ label ∈ other.labels, least < label

/-- A later label does not change where a branch stands. -/
theorem Branch.IsBefore.addLabel {branch other : Branch Body} (isBefore : branch.IsBefore other)
    {index : Nat} (later : ∀ label ∈ branch.labels, label < index) :
    (branch.addLabel index).IsBefore other := by
  rcases isBefore with ⟨least, inside, smallest, before⟩
  refine ⟨least, List.mem_append_left _ inside, ?_, before⟩
  exact List.forall_mem_append.mpr
    ⟨smallest, List.forall_mem_singleton.mpr (Nat.le_of_lt (later least inside))⟩

/-- A later label of the branch behind does not change where a branch stands. -/
theorem Branch.IsBefore.addLabel_behind {branch other : Branch Body} (isBefore : branch.IsBefore other)
    {index : Nat} (later : ∀ label ∈ branch.labels, label < index) :
    branch.IsBefore (other.addLabel index) := by
  rcases isBefore with ⟨least, inside, smallest, before⟩
  refine ⟨least, inside, smallest, ?_⟩
  exact List.forall_mem_append.mpr ⟨before, List.forall_mem_singleton.mpr (later least inside)⟩

/-- A branch for a later position stands behind. -/
theorem Branch.isBefore_single {branch : Branch Body} (nonempty : branch.labels ≠ [])
    (ascending : branch.labels.Pairwise (· < ·)) {index : Nat}
    (later : ∀ label ∈ branch.labels, label < index) (body : Body) :
    branch.IsBefore ⟨[index], body⟩ := by
  rcases List.exists_cons_of_ne_nil nonempty with ⟨least, rest, split⟩
  rw [split] at ascending
  have inside : least ∈ branch.labels := split ▸ List.mem_cons_self
  refine ⟨least, inside, ?_, List.forall_mem_singleton.mpr (later least inside)⟩
  rw [split]
  exact List.forall_mem_cons.mpr
    ⟨Nat.le_refl _, fun label listed => Nat.le_of_lt ((List.pairwise_cons.mp ascending).1 label listed)⟩

variable [Ord Body] [Std.TransOrd Body]

private theorem exists_mem_append_cons {α : Type} {front back : List α} {item : α} {holds : α → Prop} :
    (∃ other ∈ front ++ item :: back, holds other) ↔
      (∃ other ∈ front ++ back, holds other) ∨ holds item := by
  simp only [List.perm_middle.mem_iff, List.exists_mem_cons_iff]
  exact or_comm

namespace Merging

/-- What the loop keeps.  The map says where the branch of each body stands; the labels of the branch are
the positions of the body, and there is no branch without labels; labels ascend in a branch, and branches
stand in the order of their smallest labels. -/
structure Gathers (merging : Merging Body) (places : List (Nat × Body)) : Prop where
  located : ∀ (body : Body) (place : Nat), merging.placeOf[body]? = some place ↔
    (merging.close.map Branch.body)[place]? = some body
  gathered : ∀ index body,
    (∃ branch ∈ merging.close, branch.body = body ∧ index ∈ branch.labels) ↔ (index, body) ∈ places
  nonempty : ∀ branch ∈ merging.close, branch.labels ≠ []
  ascending : ∀ branch ∈ merging.close, branch.labels.Pairwise (· < ·)
  ordered : merging.close.Pairwise Branch.IsBefore

/-- A position comes to the branch of its body, or it comes with a body that was not met before and makes a
branch behind all others. -/
theorem add_cases {merging : Merging Body} {places : List (Nat × Body)}
    (gathers : merging.Gathers places) (index : Nat) (body : Body) :
    (∃ front branch back, merging.close = front ++ branch :: back ∧ branch.body = body ∧
      (merging.add index body).close = front ++ branch.addLabel index :: back ∧
      (merging.add index body).placeOf = merging.placeOf) ∨
    body ∉ merging.close.map Branch.body ∧
      (merging.add index body).close = merging.close ++ [⟨[index], body⟩] ∧
      (merging.add index body).placeOf = merging.placeOf.insert body merging.close.length := by
  cases found : merging.placeOf[body]? with
  | some place =>
      have there := (gathers.located body place).mp found
      have inside : place < merging.branches.toList.length := by
        rcases List.getElem?_eq_some_iff.mp there with ⟨bound, _⟩
        simpa [close] using bound
      rcases List.exists_of_modify (fun branch : OpenBranch Body => branch.addLabel index) inside with
        ⟨front, branch, back, split, rfl, modified⟩
      have closed : merging.close =
          front.map OpenBranch.close ++ branch.close :: back.map OpenBranch.close := by
        rw [close, split, List.map_append, List.map_cons]
      refine .inl ⟨_, branch.close, _, closed, ?_, ?_, by rw [add, found]⟩
      · rw [closed, List.map_append, List.getElem?_append_right (by simp)] at there
        simpa using there
      · rw [add, found]
        dsimp only
        rw [close, Array.toList_modify, modified, List.map_append, List.map_cons]
        simp [OpenBranch.close, OpenBranch.addLabel, Branch.addLabel]
  | none =>
      refine .inr ⟨?_, ?_, ?_⟩
      · intro listed
        rcases List.mem_iff_getElem?.mp listed with ⟨place, there⟩
        rw [(gathers.located body place).mpr there] at found
        cases found
      · rw [add, found]
        simp [close, OpenBranch.close]
      · rw [add, found]
        simp [close]

namespace Gathers

variable {merging : Merging Body} {places : List (Nat × Body)}

/-- At first there is nothing to keep. -/
theorem empty : (Merging.empty : Merging Body).Gathers [] := by
  refine ⟨?_, ?_, nofun, nofun, List.Pairwise.nil⟩
  · intro body place
    simp [Merging.empty, close]
  · intro index body
    simp [Merging.empty, close]

/-- No two branches have one body, as the map has one place for it. -/
theorem distinctBodies (gathers : merging.Gathers places) :
    (merging.close.map Branch.body).Nodup := by
  rw [List.nodup_iff_getElem?_ne_getElem?]
  intro first second before inside same
  rw [List.getElem?_eq_getElem inside] at same
  have atFirst := (gathers.located _ first).mpr same
  rw [(gathers.located _ second).mpr (List.getElem?_eq_getElem inside)] at atFirst
  exact Nat.ne_of_lt before (Option.some.inj atFirst).symm

theorem mem_places (gathers : merging.Gathers places) {branch : Branch Body}
    (listed : branch ∈ merging.close) {index : Nat} (labelled : index ∈ branch.labels) :
    (index, branch.body) ∈ places :=
  (gathers.gathered index branch.body).mp ⟨branch, listed, rfl, labelled⟩

/-- The labels so far are below a later position. -/
theorem labels_lt (gathers : merging.Gathers places) {index : Nat}
    (later : ∀ place ∈ places, place.1 < index) {branch : Branch Body}
    (listed : branch ∈ merging.close) : ∀ label ∈ branch.labels, label < index :=
  fun _ labelled => later _ (gathers.mem_places listed labelled)

/-- What is kept when a branch gets a later label. -/
theorem of_addLabel (gathers : merging.Gathers places) {index : Nat}
    (later : ∀ place ∈ places, place.1 < index) {next : Merging Body} {branch : Branch Body}
    {front back : List (Branch Body)} (before : merging.close = front ++ branch :: back)
    (after : next.close = front ++ branch.addLabel index :: back)
    (same : next.placeOf = merging.placeOf) : next.Gathers (places ++ [(index, branch.body)]) := by
  have listed : branch ∈ merging.close := by simp [before]
  have changed : ∀ other ∈ next.close, other ∈ merging.close ∨ other = branch.addLabel index := by
    intro other inside
    rw [after, List.mem_append, List.mem_cons] at inside
    rw [before, List.mem_append, List.mem_cons]
    tauto
  refine ⟨?_, ?_, ?_, ?_, ?_⟩
  · intro body place
    rw [same, gathers.located, before, after, List.map_append, List.map_append]
    rfl
  · intro label body
    have labelled : (branch.addLabel index).body = body ∧ label ∈ (branch.addLabel index).labels ↔
        (branch.body = body ∧ label ∈ branch.labels) ∨ (label, body) = (index, branch.body) := by
      rw [Branch.addLabel, List.mem_append, List.mem_singleton, Prod.mk.injEq]
      tauto
    rw [List.mem_append, List.mem_singleton, ← gathers.gathered, before, after,
      exists_mem_append_cons, exists_mem_append_cons, labelled, or_assoc]
  · intro other inside
    rcases changed other inside with old | rfl
    · exact gathers.nonempty other old
    · exact List.append_ne_nil_of_right_ne_nil _ (List.cons_ne_nil _ _)
  · intro other inside
    rcases changed other inside with old | rfl
    · exact gathers.ascending other old
    · refine List.pairwise_append.mpr ⟨gathers.ascending branch listed, List.pairwise_singleton _ _, ?_⟩
      exact fun label labelled => List.forall_mem_singleton.mpr (gathers.labels_lt later listed label labelled)
  · have ordered := gathers.ordered
    rw [before, List.pairwise_append, List.pairwise_cons] at ordered
    rcases ordered with ⟨inFront, ⟨own, inBack⟩, across⟩
    rw [after, List.pairwise_append, List.pairwise_cons]
    refine ⟨inFront, ⟨?_, inBack⟩, ?_⟩
    · exact fun other inside => (own other inside).addLabel (gathers.labels_lt later listed)
    · intro other inside
      have earlier : other ∈ merging.close := before ▸ List.mem_append_left _ inside
      refine List.forall_mem_cons.mpr ⟨?_, ?_⟩
      · exact (across other inside branch List.mem_cons_self).addLabel_behind
          (gathers.labels_lt later earlier)
      · exact fun behind isBehind => across other inside behind (List.mem_cons_of_mem _ isBehind)

variable [Std.LawfulEqOrd Body]

/-- What is kept when a later position makes a branch of its own. -/
theorem of_new_branch (gathers : merging.Gathers places) {index : Nat}
    (later : ∀ place ∈ places, place.1 < index) {body : Body}
    (new : body ∉ merging.close.map Branch.body) {next : Merging Body}
    (after : next.close = merging.close ++ [⟨[index], body⟩])
    (located : next.placeOf = merging.placeOf.insert body merging.close.length) :
    next.Gathers (places ++ [(index, body)]) := by
  refine ⟨?_, ?_, ?_, ?_, ?_⟩
  · intro other place
    have bodies : next.close.map Branch.body = merging.close.map Branch.body ++ [body] := by
      rw [after, List.map_append]
      rfl
    have size : merging.close.length = (merging.close.map Branch.body).length := by
      rw [List.length_map]
    rw [located, Std.ExtTreeMap.getElem?_insert, bodies, size]
    by_cases own : body = other
    · subst own
      rw [if_pos Std.ReflCmp.compare_self]
      generalize merging.close.map Branch.body = bodies at new
      grind
    · rw [if_neg (mt Std.LawfulEqOrd.eq_of_compare own), gathers.located]
      generalize merging.close.map Branch.body = bodies
      grind
  · intro label other
    have labelled : body = other ∧ label ∈ [index] ↔ (label, other) = (index, body) := by
      rw [List.mem_singleton, Prod.mk.injEq]
      tauto
    rw [List.mem_append, List.mem_singleton, ← gathers.gathered, after, exists_mem_append_cons,
      List.append_nil, labelled]
  · rw [after]
    exact List.forall_mem_append.mpr
      ⟨gathers.nonempty, List.forall_mem_singleton.mpr (List.cons_ne_nil _ _)⟩
  · rw [after]
    exact List.forall_mem_append.mpr
      ⟨gathers.ascending, List.forall_mem_singleton.mpr (List.pairwise_singleton _ _)⟩
  · rw [after]
    refine List.pairwise_append.mpr ⟨gathers.ordered, List.pairwise_singleton _ _, ?_⟩
    intro branch listed
    exact List.forall_mem_singleton.mpr (Branch.isBefore_single (gathers.nonempty branch listed)
      (gathers.ascending branch listed) (gathers.labels_lt later listed) body)

/-- One more position is taken up. -/
theorem add (gathers : merging.Gathers places) {index : Nat}
    (later : ∀ place ∈ places, place.1 < index) (body : Body) :
    (merging.add index body).Gathers (places ++ [(index, body)]) := by
  rcases add_cases gathers index body with
    ⟨front, branch, back, before, rfl, after, same⟩ | ⟨new, after, located⟩
  · exact gathers.of_addLabel later before after same
  · exact gathers.of_new_branch later new after located

/-- A pass over entries at later positions takes up those of the subset. -/
theorem mergeEntries (subset : Subset) (body : KeyedLeaf → Body) {entries : List (KeyedLeaf × Nat)} :
    ∀ {merging : Merging Body} {places : List (Nat × Body)}, merging.Gathers places →
      (∀ place ∈ places, ∀ entry ∈ entries, place.1 < entry.2) →
      entries.Pairwise (fun entry other => entry.2 < other.2) →
      (KeyedReflection.mergeEntries subset body merging entries).Gathers
        (places ++ subset.places body entries) := by
  induction entries with
  | nil =>
      intro merging places gathers _ _
      rw [Subset.places, List.filterMap_nil, List.append_nil]
      exact gathers
  | cons entry rest ih =>
      intro merging places gathers later ascends
      rcases List.pairwise_cons.mp ascends with ⟨first, restAscends⟩
      rw [KeyedReflection.mergeEntries]
      by_cases included : subset.includes entry.1 = true
      · rw [if_pos included, Subset.places_cons_of_includes included, List.append_cons]
        refine ih (gathers.add ?_ _) ?_ restAscends
        · exact fun place listed => later place listed entry List.mem_cons_self
        · intro place listed other behind
          rcases List.mem_append.mp listed with old | new
          · exact later place old other (List.mem_cons_of_mem _ behind)
          · rw [List.mem_singleton.mp new]
            exact first other behind
      · rw [if_neg included, Subset.places_cons_of_excludes included]
        refine ih gathers ?_ restAscends
        exact fun place listed other behind => later place listed other (List.mem_cons_of_mem _ behind)

end Gathers
end Merging

end

/-! ## Switches -/

section

variable {Body : Type} [Ord Body] [Std.TransOrd Body]

namespace Merging.Gathers

variable {merging : Merging Body} {places : List (Nat × Body)} (gathers : merging.Gathers places)
  (single : ∀ index first second, (index, first) ∈ places → (index, second) ∈ places → first = second)

include gathers single

/-- No position is a label twice, neither of one branch nor of two. -/
theorem nodup_labels : (merging.close.flatMap Branch.labels).Nodup := by
  rw [List.nodup_flatMap]
  constructor
  · exact fun branch listed => (gathers.ascending branch listed).imp Nat.ne_of_lt
  · refine (List.pairwise_map.mp gathers.distinctBodies).imp_of_mem ?_
    intro branch other listed otherListed different
    refine List.disjoint_left.mpr ?_
    intro index labelled otherLabelled
    exact different (single index _ _ (gathers.mem_places listed labelled)
      (gathers.mem_places otherListed otherLabelled))

/-- The branch of a position has the body that stands there. -/
theorem body_branchFor? (default : DefaultBranch) (index : Nat) (body : Body) :
    ((Switch.mk merging.close default).branchFor? index).map Branch.body = some body ↔
      (index, body) ∈ places := by
  have stands : ∀ branch, (Switch.mk merging.close default).branchFor? index = some branch →
      (index, branch.body) ∈ places := by
    intro branch found
    exact gathers.mem_places (List.mem_of_find?_eq_some found) (by simpa using List.find?_some found)
  constructor
  · intro found
    rcases Option.map_eq_some_iff.mp found with ⟨branch, there, rfl⟩
    exact stands branch there
  · intro inside
    rcases (gathers.gathered index body).mpr inside with ⟨branch, listed, rfl, labelled⟩
    cases found : (Switch.mk merging.close default).branchFor? index with
    | none =>
        have missing := List.find?_eq_none.mp found branch listed
        simp [labelled] at missing
    | some other => rw [Option.map_some, single _ _ _ (stands other found) inside]

end Merging.Gathers

variable [Std.LawfulEqOrd Body]

namespace DispatchTable

/-- The branches of a switch are what the loop over all entries keeps. -/
theorem gathers_switch (table : DispatchTable) (subset : Subset) (body : KeyedLeaf → Body) :
    ∃ merging : Merging Body, merging.Gathers (table.places subset body) ∧
      ∀ default, table.switch subset default body = ⟨merging.close, default⟩ := by
  refine ⟨_, ?_, fun _ => rfl⟩
  have gathers := Merging.Gathers.empty.mergeEntries subset body (List.forall_mem_nil _)
    table.ascending_zipIdx
  rwa [List.nil_append] at gathers

/-- A switch over a table has no label twice. -/
theorem nodup_labels_switch (table : DispatchTable) (subset : Subset) (default : DefaultBranch)
    (body : KeyedLeaf → Body) :
    ((table.switch subset default body).branches.flatMap Branch.labels).Nodup := by
  rcases table.gathers_switch subset body with ⟨merging, gathers, made⟩
  rw [made]
  exact gathers.nodup_labels (table.single_places subset body)

/-- At each position of a subset a switch has a branch with the body for the entry there, and at
other positions it has none. -/
theorem body_branchFor?_switch (table : DispatchTable) (subset : Subset) (default : DefaultBranch)
    (body : KeyedLeaf → Body) (index : Nat) :
    ((table.switch subset default body).branchFor? index).map Branch.body =
      (table.entries[index]?).bind fun entry =>
        if subset.includes entry then some (body entry) else none := by
  rcases table.gathers_switch subset body with ⟨merging, gathers, made⟩
  apply Option.ext
  intro found
  rw [made, gathers.body_branchFor? (table.single_places subset body), mem_places_iff]
  simp only [Option.bind_eq_some_iff, Option.ite_none_right_eq_some, Option.some.injEq]

/-- The bodies in a switch are those of the entries. -/
theorem mem_bodies_switch {table : DispatchTable} {subset : Subset} {default : DefaultBranch}
    {body : KeyedLeaf → Body} {found : Body} :
    found ∈ (table.switch subset default body).branches.map Branch.body ↔
      ∃ entry ∈ table.entries.toList, subset.includes entry = true ∧ body entry = found := by
  rcases table.gathers_switch subset body with ⟨merging, gathers, made⟩
  rw [made, List.mem_map]
  constructor
  · rintro ⟨branch, listed, rfl⟩
    rcases List.exists_mem_of_ne_nil _ (gathers.nonempty branch listed) with ⟨index, labelled⟩
    rcases mem_places_iff.mp (gathers.mem_places listed labelled) with ⟨entry, there, included, same⟩
    rw [← Array.getElem?_toList] at there
    exact ⟨entry, List.mem_of_getElem? there, included, same⟩
  · rintro ⟨entry, listed, included, rfl⟩
    rcases List.mem_iff_getElem?.mp listed with ⟨index, there⟩
    rw [Array.getElem?_toList] at there
    rcases (gathers.gathered index (body entry)).mpr (mem_places_iff.mpr ⟨entry, there, included, rfl⟩)
      with ⟨branch, inside, same, _⟩
    exact ⟨branch, inside, same⟩

end DispatchTable

end

end KeyedReflection
