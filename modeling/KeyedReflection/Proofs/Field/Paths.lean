import KeyedReflection.Proofs.Field.Growing
import KeyedReflection.Proofs.SortedMap

/-!
# Fields by their paths

The names from the root down lead to at most one field of a tree.  `FieldTree.at?` is the field that
they lead to, without its members: what a tree says, apart from the order of siblings and from the
numbers of its table.

A tree that is built field by field has the shape of a tree (`FieldTree.IsGrown`): every member stands
behind the field that it belongs to, and belongs to no other.  In such a tree a field that is added
appears under its own path and nowhere else (`at?_add`), documentation that is replaced changes under one
path only (`at?_setDoc`), and the walk finds each field under its path (`mem_listing_iff`).
-/

namespace KeyedReflection
namespace FieldTree

open Text (IsPlainName)

/-- The field that names lead to, from a field on. -/
def follow? (tree : FieldTree) (id : FieldId) (path : List String) : Option FieldId :=
  path.foldlM tree.findMember id

/-- The field under a path, without its members. -/
def at? (tree : FieldTree) (path : List String) : Option Field :=
  ((tree.follow? rootId path).bind tree.field?).map Field.alone

/-- The names of the members of the field under a path. -/
def namesAt (tree : FieldTree) (path : List String) : List String :=
  match tree.follow? rootId path with
  | some id => (tree.members id).map tree.identifier
  | none => []

/-- The table of a tree that was built by adding fields: the names are good for paths, and every field
belongs to one that was there before it. -/
structure IsGrown (tree : FieldTree) : Prop where
  plain : tree.HasPlainNames
  distinct : tree.HasDistinctSiblings
  forward : ∀ id, ∀ member ∈ tree.members id, id < member
  oneParent : ∀ id other member, member ∈ tree.members id → member ∈ tree.members other → id = other

theorem follow?_nil (tree : FieldTree) (id : FieldId) : tree.follow? id [] = some id :=
  rfl

theorem follow?_cons (tree : FieldTree) (id : FieldId) (name : String) (path : List String) :
    tree.follow? id (name :: path) = (tree.findMember id name).bind fun next =>
      tree.follow? next path := by
  rw [follow?, List.foldlM_cons]
  rfl

theorem follow?_snoc (tree : FieldTree) (id : FieldId) (path : List String) (name : String) :
    tree.follow? id (path ++ [name]) = (tree.follow? id path).bind fun last =>
      tree.findMember last name := by
  have last : ∀ above, List.foldlM tree.findMember above [name] = tree.findMember above name := by
    intro above
    simp only [List.foldlM_cons, List.foldlM_nil, bind_pure]
  rw [follow?, List.foldlM_append]
  simp only [last]
  rfl

theorem follow?_append (tree : FieldTree) (id : FieldId) (path rest : List String) :
    tree.follow? id (path ++ rest) = (tree.follow? id path).bind fun last =>
      tree.follow? last rest := by
  rw [follow?, List.foldlM_append]
  rfl

/-- Two trees that find the same members lead to the same fields. -/
theorem follow?_congr {tree other : FieldTree}
    (same : ∀ id name, tree.findMember id name = other.findMember id name) (id : FieldId)
    (path : List String) : tree.follow? id path = other.follow? id path := by
  have functions : tree.findMember = other.findMember := funext fun id => funext (same id)
  rw [follow?, follow?, functions]

namespace IsGrown

variable {tree : FieldTree}

theorem new (identifier doc : String) : (FieldTree.new identifier doc).IsGrown := by
  refine ⟨?_, ?_, ?_, ?_⟩
  · intro id member inside
    rw [members_new] at inside
    cases inside
  · intro id
    rw [members_new]
    exact List.nodup_nil
  · intro id member inside
    rw [members_new] at inside
    cases inside
  · intro id other member inside _
    rw [members_new] at inside
    cases inside

theorem closed (grown : tree.IsGrown) : tree.IsClosed :=
  grown.plain.isClosed

theorem findMember_eq_some_iff (grown : tree.IsGrown) {id member : FieldId} {name : String} :
    tree.findMember id name = some member ↔
      member ∈ tree.members id ∧ tree.identifier member = name :=
  SortedMap.find?_eq_some_iff_of_distinct (grown.distinct id)

/-- Every name on the way goes further down the table. -/
theorem length_le_of_follow? (grown : tree.IsGrown) {id goal : Nat} {path : List String}
    (leads : tree.follow? id path = some goal) : id + path.length ≤ goal := by
  induction path generalizing id with
  | nil =>
      cases leads
      exact Nat.le_refl _
  | cons name rest ih =>
      rw [follow?_cons] at leads
      rcases Option.bind_eq_some_iff.mp leads with ⟨next, found, further⟩
      have before : (id : Nat) < next :=
        grown.forward id next (grown.findMember_eq_some_iff.mp found).1
      have behind := ih further
      rw [List.length_cons]
      exact Nat.le_trans (by omega) behind

theorem inTable_of_follow? (grown : tree.IsGrown) {goal : Nat} {path : List String}
    (leads : tree.follow? rootId path = some goal) : goal < tree.size := by
  induction path using List.reverseRecOn with
  | nil =>
      cases leads
      exact Nat.succ_pos _
  | append_singleton path name _ =>
      rw [follow?_snoc] at leads
      rcases Option.bind_eq_some_iff.mp leads with ⟨last, _, found⟩
      exact grown.closed last goal (grown.findMember_eq_some_iff.mp found).1

/-- A field is reached in one way only. -/
theorem follow?_injective (grown : tree.IsGrown) {goal : FieldId} {left right : List String}
    (leftLeads : tree.follow? rootId left = some goal)
    (rightLeads : tree.follow? rootId right = some goal) : left = right := by
  -- The last steps come from the one parent of the field, so that the ways to it agree as well.
  induction left using List.reverseRecOn generalizing right goal with
  | nil =>
      cases leftLeads
      have short := grown.length_le_of_follow? rightLeads
      rw [rootId, Nat.zero_add, Nat.le_zero_eq, List.length_eq_zero_iff] at short
      exact short.symm
  | append_singleton left leftName ih =>
      rw [follow?_snoc] at leftLeads
      rcases Option.bind_eq_some_iff.mp leftLeads with ⟨leftLast, leftAbove, leftFound⟩
      rcases grown.findMember_eq_some_iff.mp leftFound with ⟨leftInside, rfl⟩
      rcases List.eq_nil_or_concat right with rfl | ⟨right, rightName, rfl⟩
      · cases rightLeads
        exact absurd (grown.forward leftLast rootId leftInside) (Nat.not_lt_zero _)
      · rw [List.concat_eq_append, follow?_snoc] at rightLeads
        rcases Option.bind_eq_some_iff.mp rightLeads with ⟨rightLast, rightAbove, rightFound⟩
        rcases grown.findMember_eq_some_iff.mp rightFound with ⟨rightInside, rfl⟩
        have sameParent := grown.oneParent leftLast rightLast goal leftInside rightInside
        rw [ih leftAbove (sameParent ▸ rightAbove), List.concat_eq_append]

theorem isSome_at?_iff (grown : tree.IsGrown) {path : List String} :
    (tree.at? path).isSome = true ↔ (tree.follow? rootId path).isSome = true := by
  rw [at?, Option.isSome_map]
  cases reached : tree.follow? rootId path with
  | none => rfl
  | some id =>
      rcases exists_field?_iff.mpr (grown.inTable_of_follow? reached) with ⟨field, found⟩
      rw [Option.bind_some, found]
      rfl

/-- On the way to a field there is a field everywhere. -/
theorem isSome_at?_of_prefix (grown : tree.IsGrown) {path : List String} {goal : FieldId}
    (leads : tree.follow? rootId path = some goal) {way : List String} (onWay : way <+: path) :
    (tree.at? way).isSome = true := by
  rcases onWay with ⟨rest, rfl⟩
  rw [follow?_append] at leads
  rcases Option.bind_eq_some_iff.mp leads with ⟨id, reached, _⟩
  rw [grown.isSome_at?_iff, reached]
  rfl

/-- No way leads through a leaf. -/
theorem at?_ne_leaf (grown : tree.IsGrown) {path : List String} {goal : FieldId}
    (leads : tree.follow? rootId path = some goal) {way : List String} (onWay : way <+: path)
    (further : way ≠ path) (l : Leaf) : tree.at? way ≠ some (.leaf l) := by
  intro isLeaf
  rcases onWay with ⟨rest, rfl⟩
  rw [follow?_append] at leads
  rcases Option.bind_eq_some_iff.mp leads with ⟨id, reached, beyond⟩
  rw [at?, reached, Option.bind_some] at isLeaf
  rcases Option.map_eq_some_iff.mp isLeaf with ⟨field, found, alone⟩
  have childless : field.members = [] := by
    cases field with
    | leaf l => rfl
    | node n => cases alone
  have nonempty : rest ≠ [] := by
    rintro rfl
    exact further (List.append_nil way).symm
  rcases List.exists_cons_of_ne_nil nonempty with ⟨name, others, rfl⟩
  rw [follow?_cons] at beyond
  rcases Option.bind_eq_some_iff.mp beyond with ⟨next, first, _⟩
  have inside := (grown.findMember_eq_some_iff.mp first).1
  rw [members_of_field? found, childless] at inside
  cases inside

end IsGrown

/-! ## Adding a field -/

section

variable {tree : FieldTree} {parent : Nat} {n : Node} {field : Field}

theorem identifier_add (found : tree.field? parent = some (.node n)) (id : FieldId) :
    (tree.add parent field).identifier id =
      if id = tree.size then field.identifier else tree.identifier id := by
  have parentInTable : parent < tree.size := exists_field?_iff.mp ⟨_, found⟩
  rw [identifier, field?_add found]
  by_cases isParent : id = parent
  · subst isParent
    rw [if_pos rfl, if_neg (Nat.ne_of_lt parentInTable), identifier_of_field? found]
    rfl
  · rw [if_neg isParent]
    by_cases isNew : id = tree.size
    · rw [if_pos isNew, if_pos isNew]
    · rw [if_neg isNew, if_neg isNew, identifier]

theorem members_add (found : tree.field? parent = some (.node n)) (alone : field.members = [])
    (id : FieldId) :
    (tree.add parent field).members id =
      if id = parent then tree.members parent ++ [tree.size] else tree.members id := by
  rw [members, field?_add found]
  by_cases isParent : id = parent
  · rw [if_pos isParent, if_pos isParent, members_of_field? found]
    rfl
  · rw [if_neg isParent, if_neg isParent]
    by_cases isNew : id = tree.size
    · have missing : tree.field? id = none := field?_eq_none_iff.mpr (Nat.le_of_eq isNew.symm)
      rw [if_pos isNew, members, missing]
      exact alone
    · rw [if_neg isNew, members]

namespace IsGrown

/-- A field without members can be added under a name that is free. -/
theorem add (grown : tree.IsGrown) (found : tree.field? parent = some (.node n))
    (alone : field.members = []) (plain : IsPlainName field.identifier)
    (free : tree.findMember parent field.identifier = none) : (tree.add parent field).IsGrown := by
  have parentInTable : parent < tree.size := exists_field?_iff.mp ⟨_, found⟩
  have old : ∀ id, ∀ member ∈ tree.members id, (tree.add parent field).identifier member =
      tree.identifier member := by
    intro id member inside
    rw [identifier_add found, if_neg (Nat.ne_of_lt (grown.closed id member inside))]
  have new : (tree.add parent field).identifier tree.size = field.identifier := by
    rw [identifier_add found, if_pos rfl]
  -- A member is an old one of the same field, or the new one, which belongs to the parent.
  have split : ∀ {id member : Nat}, member ∈ (tree.add parent field).members id →
      member ∈ tree.members id ∨ id = parent ∧ member = tree.size := by
    intro id member inside
    rw [members_add found alone] at inside
    by_cases isParent : id = parent
    · rw [if_pos isParent] at inside
      rcases List.mem_append.mp inside with before | last
      · exact .inl (isParent ▸ before)
      · exact .inr ⟨isParent, List.mem_singleton.mp last⟩
    · rw [if_neg isParent] at inside
      exact .inl inside
  refine ⟨?_, ?_, ?_, ?_⟩
  · intro id member inside
    rcases split inside with before | ⟨_, rfl⟩
    · rw [old id member before]
      exact grown.plain id member before
    · rw [new]
      exact plain
  · intro id
    have names := List.map_congr_left (old id)
    rw [members_add found alone]
    by_cases isParent : id = parent
    · subst isParent
      rw [if_pos rfl, List.map_append, names, List.map_singleton, new, List.nodup_append]
      refine ⟨grown.distinct id, List.nodup_singleton _, ?_⟩
      intro name listed other last same
      rw [List.mem_singleton.mp last] at same
      rcases List.mem_map.mp listed with ⟨member, inside, named⟩
      have present := grown.findMember_eq_some_iff.mpr ⟨inside, named.trans same⟩
      rw [free] at present
      cases present
    · rw [if_neg isParent, names]
      exact grown.distinct id
  · intro id member inside
    rcases split inside with before | ⟨rfl, rfl⟩
    · exact grown.forward id member before
    · exact parentInTable
  · intro id other member inside otherwise
    rcases split inside with before | ⟨rfl, rfl⟩
    · rcases split otherwise with otherBefore | ⟨_, rfl⟩
      · exact grown.oneParent id other member before otherBefore
      · exact absurd (grown.closed id tree.size before) (Nat.lt_irrefl _)
    · rcases split otherwise with otherBefore | ⟨rfl, _⟩
      · exact absurd (grown.closed other tree.size otherBefore) (Nat.lt_irrefl _)
      · rfl

/-- Nothing but the new field is found that was not found before. -/
theorem findMember_add (grown : tree.IsGrown) (found : tree.field? parent = some (.node n))
    (alone : field.members = []) (plain : IsPlainName field.identifier)
    (free : tree.findMember parent field.identifier = none) (id : FieldId) (name : String) :
    (tree.add parent field).findMember id name =
      if id = parent ∧ name = field.identifier then some tree.size else tree.findMember id name := by
  have after := grown.add found alone plain free
  by_cases isNew : id = parent ∧ name = field.identifier
  · rcases isNew with ⟨rfl, rfl⟩
    rw [if_pos ⟨rfl, rfl⟩, after.findMember_eq_some_iff, members_add found alone, if_pos rfl,
      identifier_add found, if_pos rfl]
    exact ⟨List.mem_append_right _ List.mem_cons_self, rfl⟩
  · rw [if_neg isNew]
    apply Option.ext
    intro member
    rw [after.findMember_eq_some_iff, grown.findMember_eq_some_iff, members_add found alone,
      identifier_add found]
    by_cases last : member = tree.size
    · subst last
      rw [if_pos rfl]
      apply iff_of_false
      · rintro ⟨inside, rfl⟩
        by_cases isParent : id = parent
        · exact isNew ⟨isParent, rfl⟩
        · rw [if_neg isParent] at inside
          exact Nat.lt_irrefl _ (grown.closed id tree.size inside)
      · rintro ⟨inside, _⟩
        exact Nat.lt_irrefl _ (grown.closed id tree.size inside)
    · rw [if_neg last]
      by_cases isParent : id = parent
      · rw [if_pos isParent, isParent, List.mem_append, List.mem_singleton, or_iff_left last]
      · rw [if_neg isParent]

/-- The new field is reached through its parent, and every other field as before. -/
theorem follow?_add (grown : tree.IsGrown) {above : List String}
    (leads : tree.follow? rootId above = some parent)
    (found : tree.field? parent = some (.node n)) (alone : field.members = [])
    (plain : IsPlainName field.identifier)
    (free : tree.findMember parent field.identifier = none) (path : List String) :
    (tree.add parent field).follow? rootId path =
      if path = above ++ [field.identifier] then some tree.size else tree.follow? rootId path := by
  induction path using List.reverseRecOn with
  | nil =>
      rw [if_neg (List.append_ne_nil_of_right_ne_nil _ (List.cons_ne_nil _ _)).symm]
      rfl
  | append_singleton path name ih =>
      rw [follow?_snoc, ih, follow?_snoc]
      by_cases isNew : path = above ++ [field.identifier]
      · -- The new field has no members.
        subst isNew
        have before : tree.follow? rootId (above ++ [field.identifier]) = none := by
          rw [follow?_snoc, leads]
          exact free
        have longer : above ++ [field.identifier] ++ [name] ≠ above ++ [field.identifier] := by
          intro same
          have lengths := congrArg List.length same
          simp at lengths
        have different : tree.size ≠ parent :=
          Nat.ne_of_gt (exists_field?_iff.mp ⟨_, found⟩)
        have missing : tree.findMember tree.size name = none := by
          rw [findMember, members_of_beyond (Nat.lt_irrefl _)]
          rfl
        rw [if_pos rfl, if_neg longer, before, Option.bind_some,
          grown.findMember_add found alone plain free, if_neg (fun both => different both.1), missing]
        rfl
      · rw [if_neg isNew]
        simp only [List.append_singleton_inj]
        cases reached : tree.follow? rootId path with
        | none =>
            have elsewhere : path ≠ above := by
              rintro rfl
              rw [leads] at reached
              cases reached
            rw [if_neg (fun both => elsewhere both.1)]
            rfl
        | some id =>
            have sameWay : id = parent ↔ path = above := by
              constructor
              · rintro rfl
                exact grown.follow?_injective reached leads
              · rintro rfl
                exact Option.some.inj (reached.symm.trans leads)
            rw [Option.bind_some, Option.bind_some, grown.findMember_add found alone plain free]
            simp only [sameWay]

/-- A tree says of the new field what was added, and of every other field what it said before. -/
theorem at?_add (grown : tree.IsGrown) {above : List String}
    (leads : tree.follow? rootId above = some parent)
    (found : tree.field? parent = some (.node n)) (alone : field.members = [])
    (plain : IsPlainName field.identifier)
    (free : tree.findMember parent field.identifier = none) (path : List String) :
    (tree.add parent field).at? path =
      if path = above ++ [field.identifier] then some field.alone else tree.at? path := by
  have parentInTable : parent < tree.size := exists_field?_iff.mp ⟨_, found⟩
  rw [at?, grown.follow?_add leads found alone plain free]
  by_cases isNew : path = above ++ [field.identifier]
  · rw [if_pos isNew, if_pos isNew, Option.bind_some, field?_add found,
      if_neg (Nat.ne_of_gt parentInTable), if_pos rfl]
    rfl
  · rw [if_neg isNew, if_neg isNew, at?]
    cases reached : tree.follow? rootId path with
    | none => rfl
    | some id =>
        rw [Option.bind_some, Option.bind_some, field?_add found]
        by_cases isParent : id = parent
        · rw [if_pos isParent, isParent, found]
          rfl
        · rw [if_neg isParent, if_neg (Nat.ne_of_lt (grown.inTable_of_follow? reached))]

end IsGrown
end

/-! ## Replacing documentation -/

section

variable {tree : FieldTree}

theorem field?_setDoc (tree : FieldTree) (id : FieldId) (doc : String) (other : FieldId) :
    (tree.setDoc id doc).field? other =
      if other = id then (tree.field? id).map (·.withDoc doc) else tree.field? other := by
  cases id with
  | zero => cases other <;> rfl
  | succ id =>
      cases other with
      | zero => rfl
      | succ other =>
          rw [setDoc, field?, field?, field?, Array.getElem?_modify]
          by_cases same : id = other
          · rw [if_pos same, if_pos (congrArg Nat.succ same.symm), same]
          · rw [if_neg same, if_neg (fun equal => same (Nat.succ.inj equal).symm)]

private theorem members_setDoc (tree : FieldTree) (id : FieldId) (doc : String) (other : FieldId) :
    (tree.setDoc id doc).members other = tree.members other := by
  rw [members, members, field?_setDoc]
  by_cases same : other = id
  · rw [if_pos same, same]
    rcases tree.field? id with _ | ⟨_ | _⟩ <;> rfl
  · rw [if_neg same]

private theorem identifier_setDoc (tree : FieldTree) (id : FieldId) (doc : String)
    (other : FieldId) : (tree.setDoc id doc).identifier other = tree.identifier other := by
  rw [identifier, identifier, field?_setDoc]
  by_cases same : other = id
  · rw [if_pos same, same]
    rcases tree.field? id with _ | ⟨_ | _⟩ <;> rfl
  · rw [if_neg same]

theorem follow?_setDoc (tree : FieldTree) (id : FieldId) (doc : String) (path : List String) :
    (tree.setDoc id doc).follow? rootId path = tree.follow? rootId path := by
  apply follow?_congr
  intro other name
  rw [findMember, findMember, members_setDoc]
  apply List.find?_congr
  intro member _
  rw [identifier_setDoc]

theorem IsGrown.setDoc (grown : tree.IsGrown) (id : FieldId) (doc : String) :
    (tree.setDoc id doc).IsGrown := by
  refine ⟨?_, ?_, ?_, ?_⟩
  · intro other member inside
    rw [members_setDoc] at inside
    rw [identifier_setDoc]
    exact grown.plain other member inside
  · intro other
    have names : (tree.setDoc id doc).identifier = tree.identifier :=
      funext (identifier_setDoc tree id doc)
    rw [members_setDoc, names]
    exact grown.distinct other
  · intro other member inside
    rw [members_setDoc] at inside
    exact grown.forward other member inside
  · intro one other member inside otherwise
    rw [members_setDoc] at inside otherwise
    exact grown.oneParent one other member inside otherwise

/-- Only the field under one path is documented anew. -/
theorem IsGrown.at?_setDoc (grown : tree.IsGrown) {id : FieldId} {own : List String}
    (leads : tree.follow? rootId own = some id) (doc : String) (path : List String) :
    (tree.setDoc id doc).at? path =
      if path = own then (tree.at? own).map (·.withDoc doc) else tree.at? path := by
  rw [at?, follow?_setDoc]
  by_cases same : path = own
  · rw [if_pos same, same, at?, leads, Option.bind_some, Option.bind_some, field?_setDoc, if_pos rfl]
    rcases tree.field? id with _ | ⟨_ | _⟩ <;> rfl
  · rw [if_neg same, at?]
    cases reached : tree.follow? rootId path with
    | none => rfl
    | some other =>
        have different : other ≠ id := by
          rintro rfl
          exact same (grown.follow?_injective reached leads)
        rw [Option.bind_some, Option.bind_some, field?_setDoc, if_neg different]

end

/-! ## What the walk finds -/

namespace IsGrown

variable {tree : FieldTree}

/-- The walk down a number of levels finds what paths of that many names lead to. -/
theorem mem_walkBelow_iff (grown : tree.IsGrown) {levels : Nat} {names : List String}
    {id found : FieldId} {text : String} :
    (text, found) ∈ tree.walkBelow levels names id ↔
      ∃ path, path ≠ [] ∧ path.length ≤ levels ∧ text = Text.join "." (names ++ path) ∧
        tree.follow? id path = some found := by
  induction levels generalizing names id with
  | zero =>
      rw [walkBelow]
      apply iff_of_false
      · intro inside
        cases inside
      · rintro ⟨path, nonempty, short, _⟩
        exact nonempty (List.length_eq_zero_iff.mp (Nat.le_zero_eq _ ▸ short))
  | succ levels ih =>
      rw [walkBelow, List.mem_flatMap]
      constructor
      · rintro ⟨member, inside, listed⟩
        have first := grown.findMember_eq_some_iff.mpr ⟨inside, Eq.refl (tree.identifier member)⟩
        rcases List.mem_cons.mp listed with same | deeper
        · cases same
          refine ⟨[tree.identifier found], List.cons_ne_nil _ _, Nat.succ_le_succ (Nat.zero_le _),
            rfl, ?_⟩
          rw [follow?_cons, first]
          rfl
        · rcases ih.mp deeper with ⟨path, nonempty, short, joined, leads⟩
          refine ⟨tree.identifier member :: path, List.cons_ne_nil _ _, Nat.succ_le_succ short, ?_, ?_⟩
          · rw [joined, List.append_assoc]
            rfl
          · rw [follow?_cons, first]
            exact leads
      · rintro ⟨path, nonempty, short, joined, leads⟩
        rcases List.exists_cons_of_ne_nil nonempty with ⟨name, rest, rfl⟩
        rw [follow?_cons] at leads
        rcases Option.bind_eq_some_iff.mp leads with ⟨member, first, further⟩
        rcases grown.findMember_eq_some_iff.mp first with ⟨inside, rfl⟩
        refine ⟨member, inside, List.mem_cons.mpr ?_⟩
        by_cases last : rest = []
        · subst last
          cases further
          exact .inl (Prod.ext joined rfl)
        · refine .inr (ih.mpr ⟨rest, last, Nat.le_of_succ_le_succ short, ?_, further⟩)
          rw [joined, List.append_assoc]
          rfl

/-- The walk finds every field below the root under its path. -/
theorem mem_listing_iff (grown : tree.IsGrown) {text : String} {field : Field} :
    (text, some field) ∈ tree.listing ↔
      ∃ path, path ≠ [] ∧ text = Text.join "." path ∧ tree.at? path = some field := by
  rw [listing, List.mem_map]
  constructor
  · rintro ⟨⟨dottedId, id⟩, listed, same⟩
    rcases grown.mem_walkBelow_iff.mp listed with ⟨path, nonempty, _, rfl, leads⟩
    rw [Prod.mk.injEq] at same
    refine ⟨path, nonempty, same.1.symm, ?_⟩
    rw [at?, leads]
    exact same.2
  · rintro ⟨path, nonempty, rfl, there⟩
    rw [at?] at there
    rcases Option.map_eq_some_iff.mp there with ⟨held, reached, alone⟩
    rcases Option.bind_eq_some_iff.mp reached with ⟨id, leads, found⟩
    have short : path.length ≤ tree.size := by
      have below := grown.length_le_of_follow? leads
      have inTable := grown.inTable_of_follow? leads
      rw [rootId] at below
      omega
    refine ⟨(Text.join "." path, id),
      grown.mem_walkBelow_iff.mpr ⟨path, nonempty, short, rfl, leads⟩, ?_⟩
    rw [found, Option.map_some, alone]

/-- All that the walk finds is there. -/
theorem exists_of_mem_listing (grown : tree.IsGrown) {entry : String × Option Field}
    (listed : entry ∈ tree.listing) : ∃ field, entry.2 = some field := by
  rcases List.mem_map.mp listed with ⟨⟨dottedId, id⟩, walked, rfl⟩
  rcases grown.mem_walkBelow_iff.mp walked with ⟨path, _, _, _, leads⟩
  rcases exists_field?_iff.mpr (grown.inTable_of_follow? leads) with ⟨field, found⟩
  exact ⟨field.alone, by rw [found]; rfl⟩

/-- The walk finds no two fields under one dotted id. -/
theorem nodup_listing (grown : tree.IsGrown) : (tree.listing.map Prod.fst).Nodup := by
  have dottedIds : tree.listing.map Prod.fst =
      (tree.outline.entries []).map fun entry => Text.join "." entry.1 := by
    rw [listing_eq grown.closed, List.map_map]
    rfl
  rw [dottedIds]
  exact (isNamed_outline grown.plain grown.distinct).nodup_dottedIds

/-! ## Trees that say the same -/

theorem mem_namesAt_iff (grown : tree.IsGrown) {path : List String} {name : String} :
    name ∈ tree.namesAt path ↔ (tree.at? (path ++ [name])).isSome = true := by
  rw [grown.isSome_at?_iff, follow?_snoc, namesAt]
  cases tree.follow? rootId path with
  | none =>
      apply iff_of_false
      · exact List.not_mem_nil
      · exact Bool.false_ne_true
  | some id =>
      dsimp only
      rw [List.mem_map, Option.bind_some, Option.isSome_iff_exists]
      exact exists_congr fun member => grown.findMember_eq_some_iff.symm

theorem nodup_namesAt (grown : tree.IsGrown) (path : List String) : (tree.namesAt path).Nodup := by
  rw [namesAt]
  split
  · exact grown.distinct _
  · exact List.nodup_nil

section

variable {other : FieldTree}

/-- Where two trees say the same, their walks find the same. -/
theorem listing_perm (grown : tree.IsGrown) (otherGrown : other.IsGrown)
    (same : ∀ path, tree.at? path = other.at? path) : tree.listing.Perm other.listing := by
  refine (List.perm_ext_iff_of_nodup (List.Nodup.of_map _ grown.nodup_listing)
    (List.Nodup.of_map _ otherGrown.nodup_listing)).mpr ?_
  rintro ⟨text, found⟩
  cases found with
  | none =>
      apply iff_of_false
      · intro listed
        rcases grown.exists_of_mem_listing listed with ⟨field, missing⟩
        cases missing
      · intro listed
        rcases otherGrown.exists_of_mem_listing listed with ⟨field, missing⟩
        cases missing
  | some field =>
      rw [grown.mem_listing_iff, otherGrown.mem_listing_iff]
      simp only [same]

/-- Where two trees say the same, every field has members of the same names. -/
theorem namesAt_perm (grown : tree.IsGrown) (otherGrown : other.IsGrown)
    (same : ∀ path, tree.at? path = other.at? path) (path : List String) :
    (tree.namesAt path).Perm (other.namesAt path) := by
  refine (List.perm_ext_iff_of_nodup (grown.nodup_namesAt path) (otherGrown.nodup_namesAt path)).mpr ?_
  intro name
  rw [grown.mem_namesAt_iff, otherGrown.mem_namesAt_iff, same]

end

end IsGrown

end FieldTree
end KeyedReflection
