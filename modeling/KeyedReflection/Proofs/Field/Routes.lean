import KeyedReflection.Proofs.Field.Layout

/-!
# Ways through the table of a tree

Names need not tell the fields of a tree apart, but their positions do.  A way goes from a field to
one of its members, to a member of that, and so on (`FieldTree.Leads`).

A table is parented (`FieldTree.IsParented`) when every field but the root is a member of exactly one
field, which is not behind it in the table.  This allows a field that is a member of itself.  Such a
field and what is below it cannot be reached from the root; everything else is reached by one way
(`IsParented.leads_injective`, `IsParented.isReached_iff`), so that the walk lists it exactly once
(`IsParented.nodup_walk`, `IsParented.mem_walk_iff`).
-/

namespace KeyedReflection
namespace FieldTree

/-- A way leads from a field to a goal: each field on it is a member of the one before. -/
def Leads (tree : FieldTree) (id : FieldId) (way : List FieldId) (goal : FieldId) : Prop :=
  match way with
  | [] => id = goal
  | next :: rest => next ∈ tree.members id ∧ tree.Leads next rest goal

/-- Some way leads from the root to the field. -/
def IsReached (tree : FieldTree) (id : FieldId) : Prop :=
  ∃ way, tree.Leads rootId way id

/-- The field is below a field that is a member of itself. -/
def IsCutOff (tree : FieldTree) (id : FieldId) : Prop :=
  ∃ loop, loop ∈ tree.members loop ∧ ∃ way, tree.Leads loop way id

section

variable {tree : FieldTree}

theorem leads_append {id goal : FieldId} {way rest : List FieldId} :
    tree.Leads id (way ++ rest) goal ↔
      ∃ between, tree.Leads id way between ∧ tree.Leads between rest goal := by
  induction way generalizing id with
  | nil =>
      constructor
      · exact fun leads => ⟨id, rfl, leads⟩
      · rintro ⟨between, rfl, leads⟩
        exact leads
  | cons next way ih =>
      rw [List.cons_append, Leads, ih]
      constructor
      · rintro ⟨inside, between, leads, further⟩
        exact ⟨between, ⟨inside, leads⟩, further⟩
      · rintro ⟨between, ⟨inside, leads⟩, further⟩
        exact ⟨inside, between, leads, further⟩

theorem leads_snoc {id last goal : FieldId} {way : List FieldId} :
    tree.Leads id (way ++ [last]) goal ↔
      last = goal ∧ ∃ above, tree.Leads id way above ∧ last ∈ tree.members above := by
  rw [leads_append]
  constructor
  · rintro ⟨above, leads, inside, rfl⟩
    exact ⟨rfl, above, leads, inside⟩
  · rintro ⟨rfl, above, leads, inside⟩
    exact ⟨above, leads, inside, rfl⟩

theorem isReached_root (tree : FieldTree) : tree.IsReached rootId :=
  ⟨[], rfl⟩

theorem IsReached.member {id member : FieldId} (reached : tree.IsReached id)
    (inside : member ∈ tree.members id) : tree.IsReached member := by
  rcases reached with ⟨way, leads⟩
  exact ⟨way ++ [member], leads_snoc.mpr ⟨rfl, id, leads, inside⟩⟩

/-- The walk down a number of levels lists what ways of at most that length lead to. -/
theorem mem_walkBelow_iff_leads {levels : Nat} {names : List String} {id goal : FieldId} :
    goal ∈ (tree.walkBelow levels names id).map Prod.snd ↔
      ∃ way, way ≠ [] ∧ way.length ≤ levels ∧ tree.Leads id way goal := by
  induction levels generalizing names id with
  | zero =>
      apply iff_of_false
      · exact List.not_mem_nil
      · rintro ⟨way, nonempty, short, _⟩
        exact nonempty (List.length_eq_zero_iff.mp (Nat.le_zero.mp short))
  | succ levels ih =>
      rw [walkBelow, List.map_flatMap, List.mem_flatMap]
      constructor
      · rintro ⟨member, inside, listed⟩
        rw [List.map_cons, List.mem_cons, ih] at listed
        rcases listed with rfl | ⟨way, _, short, leads⟩
        · exact ⟨[goal], List.cons_ne_nil _ _, Nat.succ_le_succ (Nat.zero_le _), inside, rfl⟩
        · exact ⟨member :: way, List.cons_ne_nil _ _, Nat.succ_le_succ short, inside, leads⟩
      · rintro ⟨way, nonempty, short, leads⟩
        rcases List.exists_cons_of_ne_nil nonempty with ⟨member, rest, rfl⟩
        rcases leads with ⟨inside, further⟩
        refine ⟨member, inside, ?_⟩
        rw [List.map_cons, List.mem_cons, ih]
        by_cases last : rest = []
        · subst last
          exact .inl further.symm
        · exact .inr ⟨rest, last, Nat.le_of_succ_le_succ short, further⟩

end

/-! ## Tables in which every field has one parent -/

/-- Every field but the root is a member of exactly one field, once, and that field is not behind it. -/
structure IsParented (tree : FieldTree) : Prop where
  distinct : ∀ id, (tree.members id).Nodup
  oneParent : ∀ one other member, member ∈ tree.members one → member ∈ tree.members other →
    one = other
  aboveRoot : ∀ id, rootId ∉ tree.members id
  notBehind : ∀ id, ∀ member ∈ tree.members id, id ≤ member
  hasParent : ∀ id, rootId < id → id < tree.size → ∃ above, id ∈ tree.members above
  closed : tree.IsClosed

namespace IsParented

variable {tree : FieldTree}

/-- The way from the root to a field is the only one. -/
theorem leads_injective (parented : tree.IsParented) {goal : FieldId} {left right : List FieldId}
    (leftLeads : tree.Leads rootId left goal) (rightLeads : tree.Leads rootId right goal) :
    left = right := by
  -- The last steps come from the one parent of the goal, so that the ways to it agree as well.
  induction left using List.reverseRecOn generalizing goal right with
  | nil =>
      cases right using List.reverseRecOn with
      | nil => rfl
      | append_singleton right last =>
          rcases leads_snoc.mp rightLeads with ⟨rfl, above, _, inside⟩
          cases leftLeads
          exact absurd inside (parented.aboveRoot above)
  | append_singleton left last ih =>
      rcases leads_snoc.mp leftLeads with ⟨rfl, above, leads, inside⟩
      cases right using List.reverseRecOn with
      | nil =>
          cases rightLeads
          exact absurd inside (parented.aboveRoot above)
      | append_singleton right other =>
          rcases leads_snoc.mp rightLeads with ⟨rfl, otherAbove, otherLeads, otherInside⟩
          cases parented.oneParent _ _ _ inside otherInside
          rw [ih leads otherLeads]

/-- A field that is reached is not a member of itself. -/
theorem not_mem_members_self (parented : tree.IsParented) {id : FieldId}
    (reached : tree.IsReached id) : id ∉ tree.members id := by
  intro inside
  rcases reached with ⟨way, leads⟩
  have longer := parented.leads_injective leads (leads_snoc.mpr ⟨rfl, id, leads, inside⟩)
  exact List.cons_ne_nil id [] (List.self_eq_append_right.mp longer)

/-- A member of a field that is reached comes behind it. -/
theorem lt_of_mem_members (parented : tree.IsParented) {id member : FieldId}
    (reached : tree.IsReached id) (inside : member ∈ tree.members id) : id < member := by
  apply Nat.lt_of_le_of_ne (parented.notBehind id member inside)
  rintro rfl
  exact parented.not_mem_members_self reached inside

/-- What is reached is not cut off. -/
theorem not_isCutOff (parented : tree.IsParented) {id : FieldId} (reached : tree.IsReached id) :
    ¬tree.IsCutOff id := by
  rintro ⟨loop, inside, way, leads⟩
  -- From the goal back to the loop, each field on the way is reached with the one below it.
  induction way using List.reverseRecOn generalizing id with
  | nil =>
      cases leads
      exact parented.not_mem_members_self reached inside
  | append_singleton way last ih =>
      rcases leads_snoc.mp leads with ⟨rfl, above, further, below⟩
      rcases reached with ⟨whole, rootLeads⟩
      cases whole using List.reverseRecOn with
      | nil =>
          cases rootLeads
          exact parented.aboveRoot above below
      | append_singleton whole other =>
          rcases leads_snoc.mp rootLeads with ⟨rfl, otherAbove, otherLeads, otherBelow⟩
          cases parented.oneParent _ _ _ below otherBelow
          exact ih ⟨whole, otherLeads⟩ further

/-- Every field is reached or cut off. -/
theorem isReached_or_isCutOff (parented : tree.IsParented) {id : Nat} (inTable : id < tree.size) :
    tree.IsReached id ∨ tree.IsCutOff id := by
  induction id using Nat.strongRecOn with
  | ind id ih =>
      rcases Nat.eq_zero_or_pos id with rfl | positive
      · exact .inl (isReached_root tree)
      · rcases parented.hasParent id positive inTable with ⟨above, inside⟩
        rcases Nat.lt_or_eq_of_le (parented.notBehind above id inside) with before | rfl
        · rcases ih above before (Nat.lt_trans before inTable) with reached | ⟨loop, self, way, leads⟩
          · exact .inl (reached.member inside)
          · exact .inr ⟨loop, self, way ++ [id], leads_snoc.mpr ⟨rfl, above, leads, inside⟩⟩
        · exact .inr ⟨above, inside, [], rfl⟩

theorem isReached_iff (parented : tree.IsParented) {id : FieldId} (inTable : id < tree.size) :
    tree.IsReached id ↔ ¬tree.IsCutOff id := by
  constructor
  · exact parented.not_isCutOff
  · exact (parented.isReached_or_isCutOff inTable).resolve_right

/-- A member of one field is listed once by its parent and by no other field. -/
theorem count_members (parented : tree.IsParented) {above id : FieldId}
    (inside : id ∈ tree.members above) (other : FieldId) :
    (tree.members other).count id = if other = above then 1 else 0 := by
  by_cases same : other = above
  · rw [if_pos same, same]
    exact List.count_eq_one_of_mem (parented.distinct above) inside
  · rw [if_neg same, List.count_eq_zero]
    exact fun otherwise => same (parented.oneParent other above id otherwise inside)

/-! ## The walk -/

/-- A way from a field that is reached is no longer than the table behind that field. -/
theorem length_le (parented : tree.IsParented) {id goal : Nat} {way : List FieldId}
    (reached : tree.IsReached id) (leads : tree.Leads id way goal) : id + way.length ≤ goal := by
  induction way generalizing id with
  | nil =>
      cases leads
      exact Nat.le_refl _
  | cons next way ih =>
      rcases leads with ⟨inside, further⟩
      have behind : id < next := parented.lt_of_mem_members reached inside
      have rest := ih (reached.member inside) further
      rw [List.length_cons]
      omega

/-- As many levels as there are places behind a field are enough to walk what is below it. -/
theorem walkBelow_levels (parented : tree.IsParented) {levels more : Nat} (names : List String)
    {id : Nat} (reached : tree.IsReached id) (enough : tree.size ≤ id + levels)
    (further : levels ≤ more) : tree.walkBelow more names id = tree.walkBelow levels names id := by
  induction levels generalizing more names id with
  | zero =>
      have none : tree.members id = [] := members_of_beyond (Nat.not_lt.mpr enough)
      cases more with
      | zero => rfl
      | succ more =>
          rw [walkBelow, walkBelow, none]
          rfl
  | succ levels ih =>
      rcases Nat.exists_eq_add_of_le' (Nat.le_trans (Nat.succ_pos levels) further) with ⟨less, rfl⟩
      rw [walkBelow, walkBelow]
      apply List.flatMap_congr
      intro member inside
      have behind : id < member := parented.lt_of_mem_members reached inside
      dsimp only
      rw [ih _ (reached.member inside) (by omega) (Nat.le_of_succ_le_succ further)]

/-- Below a field that is reached, the walk lists no field twice. -/
theorem nodup_walkBelow (parented : tree.IsParented) (levels : Nat) (names : List String)
    {id : FieldId} (reached : tree.IsReached id) :
    ((tree.walkBelow levels names id).map Prod.snd).Nodup := by
  induction levels generalizing names id with
  | zero => exact List.nodup_nil
  | succ levels ih =>
      rw [walkBelow, List.map_flatMap, List.nodup_flatMap]
      constructor
      · intro member inside
        rw [List.map_cons, List.nodup_cons]
        refine ⟨?_, ih _ (reached.member inside)⟩
        intro listed
        rcases mem_walkBelow_iff_leads.mp listed with ⟨way, nonempty, _, leads⟩
        have longer := parented.length_le (reached.member inside) leads
        exact nonempty (List.length_eq_zero_iff.mp (by omega))
      · -- What is listed below two members would be reached by two ways.
        refine List.Pairwise.imp_of_mem ?_ (parented.distinct id)
        intro one other oneInside otherInside different goal listed otherListed
        have leadsFrom : ∀ member, ∀ goal ∈ ((Text.join "." (names ++ [tree.identifier member]),
            member) :: tree.walkBelow levels (names ++ [tree.identifier member]) member).map Prod.snd,
            ∃ way, tree.Leads member way goal := by
          intro member goal listed
          rw [List.map_cons, List.mem_cons, mem_walkBelow_iff_leads] at listed
          rcases listed with rfl | ⟨way, _, _, leads⟩
          · exact ⟨[], rfl⟩
          · exact ⟨way, leads⟩
        rcases leadsFrom one goal listed with ⟨way, leads⟩
        rcases leadsFrom other goal otherListed with ⟨otherWay, otherLeads⟩
        rcases reached with ⟨above, rootLeads⟩
        have same := parented.leads_injective
          (leads_append.mpr ⟨id, rootLeads, show tree.Leads id (one :: way) goal from
            ⟨oneInside, leads⟩⟩)
          (leads_append.mpr ⟨id, rootLeads, show tree.Leads id (other :: otherWay) goal from
            ⟨otherInside, otherLeads⟩⟩)
        exact different (List.cons.inj (List.append_cancel_left same)).1

/-- The walk lists no field twice. -/
theorem nodup_walk (parented : tree.IsParented) : (tree.walk.map Prod.snd).Nodup :=
  parented.nodup_walkBelow tree.size [] (isReached_root tree)

/-- The walk lists every field below the root that is not cut off, and nothing else. -/
theorem mem_walk_iff (parented : tree.IsParented) {id : FieldId} :
    id ∈ tree.walk.map Prod.snd ↔ rootId < id ∧ id < tree.size ∧ ¬tree.IsCutOff id := by
  rw [walk, mem_walkBelow_iff_leads]
  constructor
  · rintro ⟨way, nonempty, _, leads⟩
    have deep := parented.length_le (isReached_root tree) leads
    have positive : 0 < way.length := List.length_pos_iff.mpr nonempty
    rcases List.eq_nil_or_concat way with rfl | ⟨before, last, rfl⟩
    · exact absurd rfl nonempty
    · have reached : tree.IsReached id := ⟨_, leads⟩
      rw [List.concat_eq_append] at leads
      rcases leads_snoc.mp leads with ⟨rfl, above, _, inside⟩
      exact ⟨Nat.lt_of_lt_of_le positive (Nat.le_trans (Nat.le_add_left _ _) deep),
        parented.closed above last inside, parented.not_isCutOff reached⟩
  · rintro ⟨positive, inTable, inside⟩
    rcases (parented.isReached_iff inTable).mpr inside with ⟨way, leads⟩
    have short := parented.length_le (isReached_root tree) leads
    refine ⟨way, ?_, ?_, leads⟩
    · rintro rfl
      cases leads
      exact Nat.lt_irrefl _ positive
    · exact Nat.le_trans (Nat.le_trans (Nat.le_add_left _ _) short) (Nat.le_of_lt inTable)

end IsParented
end FieldTree
end KeyedReflection
