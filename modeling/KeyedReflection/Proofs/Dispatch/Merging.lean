import KeyedReflection.Proofs.Dispatch

/-!
# Merged branches

Positions at which the same is to be done share a branch.  `Switch.Merges` says what is left of a function
from positions to bodies when it is written in this way: the same answers, each position under one branch,
one branch for each body, and everything in the order of the positions.

The switch over a table is such a switch, and there is no other one (`merges_switch`).  So it does not
matter how equal bodies are found.
-/

namespace KeyedReflection

section

variable {Body : Type}

/-- The branches of a switch gather the positions of a subset by their bodies. -/
structure Switch.Merges (switch : Switch Body) (table : DispatchTable) (subset : Subset)
    (body : KeyedLeaf → Body) : Prop where
  /-- At a position of the subset is the body of its entry, and nothing anywhere else. -/
  answers : ∀ index, (switch.branchFor? index).map Branch.body =
    (table.entries[index]?).bind fun entry => if subset.includes entry then some (body entry) else none
  labelled : ∀ index entry, table.entries[index]? = some entry → subset.includes entry = true →
    ∃! branch, branch ∈ switch.branches ∧ index ∈ branch.labels
  nonempty : ∀ branch ∈ switch.branches, branch.labels ≠ []
  ascending : ∀ branch ∈ switch.branches, branch.labels.Pairwise (· < ·)
  distinctBodies : (switch.branches.map Branch.body).Nodup
  ordered : switch.branches.Pairwise Branch.IsBefore

namespace Switch.Merges

variable {switch other : Switch Body} {table : DispatchTable} {subset : Subset}
  {body : KeyedLeaf → Body}

/-- The labels of a branch are the positions with its body. -/
theorem mem_labels_iff (merges : switch.Merges table subset body) {branch : Branch Body}
    (listed : branch ∈ switch.branches) {index : Nat} :
    index ∈ branch.labels ↔ ∃ entry, table.entries[index]? = some entry ∧
      subset.includes entry = true ∧ body entry = branch.body := by
  have reached : ∀ found, switch.branchFor? index = some found →
      found ∈ switch.branches ∧ index ∈ found.labels := by
    intro found isFound
    exact ⟨List.mem_of_find?_eq_some isFound, by simpa using List.find?_some isFound⟩
  have answers := merges.answers index
  constructor
  · intro inside
    have isSome : (switch.branchFor? index).isSome = true := by
      rw [branchFor?, List.find?_isSome]
      exact ⟨branch, listed, by simpa using inside⟩
    rcases Option.isSome_iff_exists.mp isSome with ⟨found, isFound⟩
    rw [isFound, Option.map_some] at answers
    rcases Option.bind_eq_some_iff.mp answers.symm with ⟨entry, there, made⟩
    rw [Option.ite_none_right_eq_some] at made
    have same : branch = found :=
      (merges.labelled index entry there made.1).unique ⟨listed, inside⟩ (reached found isFound)
    exact ⟨entry, there, made.1, by rw [same, Option.some.inj made.2]⟩
  · rintro ⟨entry, there, included, same⟩
    rw [there, Option.bind_some, if_pos included] at answers
    rcases Option.map_eq_some_iff.mp answers with ⟨found, isFound, hasBody⟩
    rcases reached found isFound with ⟨foundListed, foundInside⟩
    rw [List.inj_on_of_nodup_map merges.distinctBodies listed foundListed (same.symm.trans hasBody.symm)]
    exact foundInside

/-- A branch of one merged switch is a branch of every other. -/
theorem mem_branches (merges : switch.Merges table subset body)
    (otherMerges : other.Merges table subset body) {branch : Branch Body}
    (listed : branch ∈ switch.branches) : branch ∈ other.branches := by
  rcases List.exists_mem_of_ne_nil _ (merges.nonempty branch listed) with ⟨index, inside⟩
  rcases (merges.mem_labels_iff listed).mp inside with ⟨entry, there, included, same⟩
  rcases (otherMerges.labelled index entry there included).exists with ⟨found, foundListed, foundInside⟩
  rcases (otherMerges.mem_labels_iff foundListed).mp foundInside with ⟨foundEntry, foundThere, _, hasBody⟩
  rw [there] at foundThere
  cases foundThere
  have bodies : branch.body = found.body := same.symm.trans hasBody
  -- Both branches have the positions of one body for their labels, in ascending order.
  have labels : branch.labels = found.labels := by
    have ascending := merges.ascending branch listed
    have foundAscending := otherMerges.ascending found foundListed
    have permuted : branch.labels.Perm found.labels := by
      refine (List.perm_ext_iff_of_nodup (ascending.imp Nat.ne_of_lt)
        (foundAscending.imp Nat.ne_of_lt)).mpr ?_
      intro label
      rw [merges.mem_labels_iff listed, otherMerges.mem_labels_iff foundListed, bodies]
    exact permuted.eq_of_pairwise (fun _ _ _ _ before after => absurd before (Nat.lt_asymm after))
      ascending foundAscending
  have equal : branch = found := by
    cases branch
    cases found
    rw [Branch.mk.injEq]
    exact ⟨labels, bodies⟩
  exact equal ▸ foundListed

/-- There is one way to merge. -/
theorem branches_eq (merges : switch.Merges table subset body)
    (otherMerges : other.Merges table subset body) : switch.branches = other.branches := by
  have permuted : switch.branches.Perm other.branches := by
    refine (List.perm_ext_iff_of_nodup (List.Nodup.of_map _ merges.distinctBodies)
      (List.Nodup.of_map _ otherMerges.distinctBodies)).mpr ?_
    intro branch
    exact ⟨merges.mem_branches otherMerges, otherMerges.mem_branches merges⟩
  refine permuted.eq_of_pairwise ?_ merges.ordered otherMerges.ordered
  rintro first second _ _ ⟨least, inside, _, before⟩ ⟨otherLeast, otherInside, _, otherBefore⟩
  exact absurd (before otherLeast otherInside) (Nat.lt_asymm (otherBefore least inside))

end Switch.Merges

/-! ## The switch over a table -/

variable [Ord Body] [Std.TransOrd Body] [Std.LawfulEqOrd Body]

/-- The switch over a table gathers the positions of a subset by their bodies: it answers for every
position what the body of the entry is, or nothing outside of the subset; every position of the subset is a
label of exactly one branch; labels ascend within a branch; no two branches have one body; and branches
stand in the order of their smallest labels.  No other branches do all this. -/
theorem merges_switch (table : DispatchTable) (subset : Subset) (default : DefaultBranch)
    (body : KeyedLeaf → Body) :
    (table.switch subset default body).Merges table subset body ∧
    ∀ other : Switch Body, other.Merges table subset body →
      other.branches = (table.switch subset default body).branches := by
  rcases table.gathers_switch subset body with ⟨merging, gathers, made⟩
  have merges : (table.switch subset default body).Merges table subset body := by
    refine ⟨table.body_branchFor?_switch subset default body, ?_, ?_, ?_, ?_, ?_⟩
    · intro index entry there included
      rw [made]
      rcases (gathers.gathered index (body entry)).mpr
          (DispatchTable.mem_places_iff.mpr ⟨entry, there, included, rfl⟩) with
        ⟨branch, listed, same, labelled⟩
      refine ⟨branch, ⟨listed, labelled⟩, ?_⟩
      rintro other ⟨otherListed, otherLabelled⟩
      have bodies := table.single_places subset body index _ _
        (gathers.mem_places otherListed otherLabelled) (gathers.mem_places listed labelled)
      exact List.inj_on_of_nodup_map gathers.distinctBodies otherListed listed bodies
    · rw [made]
      exact gathers.nonempty
    · rw [made]
      exact gathers.ascending
    · rw [made]
      exact gathers.distinctBodies
    · rw [made]
      exact gathers.ordered
  exact ⟨merges, fun other otherMerges => otherMerges.branches_eq merges⟩

end

/-- The optional fields of a window, by their types: the positions of the two texts share a branch. -/
theorem merges_switch_window :
    let leaf (key type : String) (isOptional : Bool) : KeyedLeaf :=
      ⟨key, key, ⟨key, type, type, isOptional, false, ""⟩⟩
    let table : DispatchTable := ⟨#[leaf "caption" "text" true, leaf "height" "int" false,
      leaf "parent" "window" true, leaf "title" "text" true]⟩
    let switch := table.switch .optionalOnly .notOptional fun entry => entry.leaf.canonicalType
    switch.Merges table .optionalOnly (fun entry => entry.leaf.canonicalType) ∧
      switch.branches = [⟨[0, 3], "text"⟩, ⟨[2], "window"⟩] := by
  intro leaf table switch
  exact ⟨(merges_switch table .optionalOnly .notOptional _).1, by decide +kernel⟩

end KeyedReflection
