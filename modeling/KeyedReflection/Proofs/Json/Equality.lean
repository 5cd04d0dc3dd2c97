import KeyedReflection.Json.Value
import Mathlib.Data.List.Nodup
import Mathlib.Data.List.Perm.Subperm

/-!
# Equality of JSON values

`Value.same` looks members up by name, and so it only sees the first of two members that share a name.
On values where no object has two such members it is reflexive and symmetric.  A document that was
read has no others, and neither has a value that was put together member by member.
-/

namespace KeyedReflection
namespace Json

/-! ## Induction -/

/-- Values by induction, with what holds of all items and of all members at hand. -/
theorem Value.induction {motive : Value → Prop} (null : motive .null)
    (bool : ∀ value, motive (.bool value)) (integer : ∀ value, motive (.integer value))
    (double : ∀ value, motive (.double value)) (string : ∀ value, motive (.string value))
    (array : ∀ items, (∀ item ∈ items, motive item) → motive (.array items))
    (object : ∀ members : Members, (∀ member ∈ members, motive member.2) →
      motive (.object members)) :
    ∀ value, motive value
  | .null => null
  | .bool value => bool value
  | .integer value => integer value
  | .double value => double value
  | .string value => string value
  | .array items => array items fun item listed =>
      have := List.sizeOf_lt_of_mem listed
      Value.induction null bool integer double string array object item
  | .object members => object members fun member listed =>
      have := List.sizeOf_lt_of_mem listed
      Value.induction null bool integer double string array object member.2
termination_by value => sizeOf value
decreasing_by
  · simp only [Value.array.sizeOf_spec]
    omega
  · rcases member with ⟨name, value⟩
    simp only [Value.object.sizeOf_spec, Prod.mk.sizeOf_spec] at *
    omega

/-! ## Distinct names -/

mutual

/-- No object in the value has two members of one name. -/
def Value.HasDistinctNames : Value → Prop
  | .array items => ItemsHaveDistinctNames items
  | .object members => (members.map Prod.fst).Nodup ∧ MembersHaveDistinctNames members
  | _ => True

/-- No object in an item has two members of one name. -/
def ItemsHaveDistinctNames : List Value → Prop
  | [] => True
  | item :: rest => item.HasDistinctNames ∧ ItemsHaveDistinctNames rest

/-- No object in the value of a member has two members of one name. -/
def MembersHaveDistinctNames : Members → Prop
  | [] => True
  | (_, value) :: rest => value.HasDistinctNames ∧ MembersHaveDistinctNames rest

end

theorem itemsHaveDistinctNames_iff {items : List Value} :
    ItemsHaveDistinctNames items ↔ ∀ item ∈ items, item.HasDistinctNames := by
  induction items with
  | nil => simp [ItemsHaveDistinctNames]
  | cons item rest ih => rw [ItemsHaveDistinctNames, ih, List.forall_mem_cons]

theorem membersHaveDistinctNames_iff {members : Members} :
    MembersHaveDistinctNames members ↔ ∀ member ∈ members, member.2.HasDistinctNames := by
  induction members with
  | nil => simp [MembersHaveDistinctNames]
  | cons member rest ih =>
      rcases member with ⟨name, value⟩
      rw [MembersHaveDistinctNames, ih, List.forall_mem_cons]

theorem hasDistinctNames_array {items : List Value} :
    (Value.array items).HasDistinctNames ↔ ∀ item ∈ items, item.HasDistinctNames := by
  rw [Value.HasDistinctNames, itemsHaveDistinctNames_iff]

theorem hasDistinctNames_object {members : Members} :
    (Value.object members).HasDistinctNames ↔
      (members.map Prod.fst).Nodup ∧ ∀ member ∈ members, member.2.HasDistinctNames := by
  rw [Value.HasDistinctNames, membersHaveDistinctNames_iff]

/-! ## Looking members up -/

theorem mem_of_findMember {name : String} {value : Value} {members : Members}
    (found : findMember name members = some value) : (name, value) ∈ members := by
  induction members with
  | nil => cases found
  | cons member rest ih =>
      rcases member with ⟨first, held⟩
      rw [findMember] at found
      by_cases same : first = name
      · rw [if_pos same] at found
        cases found
        exact same ▸ List.mem_cons_self
      · rw [if_neg same] at found
        exact List.mem_cons_of_mem _ (ih found)

/-- Among distinct names the first member of a name is the only one. -/
theorem findMember_eq_some_iff {members : Members} (distinct : (members.map Prod.fst).Nodup)
    {name : String} {value : Value} :
    findMember name members = some value ↔ (name, value) ∈ members := by
  constructor
  · exact mem_of_findMember
  · intro listed
    induction members with
    | nil => cases listed
    | cons member rest ih =>
        rcases member with ⟨first, held⟩
        rcases List.nodup_cons.mp distinct with ⟨alone, others⟩
        rw [findMember]
        rcases List.mem_cons.mp listed with here | later
        · cases here
          exact if_pos rfl
        · have different : first ≠ name := by
            intro same
            exact alone (List.mem_map.mpr ⟨(name, value), later, same.symm⟩)
          rw [if_neg different]
          exact ih others later

namespace Value

theorem sameItems_iff {left right : List Value} :
    sameItems left right = true ↔ List.Forall₂ (fun a b => a.same b = true) left right := by
  induction left generalizing right with
  | nil => cases right <;> simp [sameItems]
  | cons item rest ih =>
      cases right with
      | nil => simp [sameItems]
      | cons other others => rw [sameItems, Bool.and_eq_true, ih, List.forall₂_cons]

theorem sameMembers_iff {left right : Members} :
    sameMembers left right = true ↔
      ∀ member ∈ left, ∃ other, findMember member.1 right = some other ∧
        member.2.same other = true := by
  induction left with
  | nil => simp [sameMembers]
  | cons member rest ih =>
      rcases member with ⟨name, value⟩
      rw [sameMembers, Bool.and_eq_true, ih, List.forall_mem_cons]
      apply and_congr_left'
      cases findMember name right <;> simp

theorem same_object {left right : Members} :
    (object left).same (object right) = true ↔
      left.length = right.length ∧ sameMembers left right = true := by
  rw [same, Bool.and_eq_true, beq_iff_eq]

/-! ## Reflexivity and symmetry -/

theorem same_refl (value : Value) (distinct : value.HasDistinctNames) : value.same value = true := by
  induction value using Value.induction with
  | null => rfl
  | bool value => simp [same]
  | integer value => simp [same]
  | double value => simp [same, Binary64.same]
  | string value => simp [same]
  | array items ih =>
      have inside := hasDistinctNames_array.mp distinct
      rw [same, sameItems_iff, List.forall₂_same]
      exact fun item listed => ih item listed (inside item listed)
  | object members ih =>
      rcases hasDistinctNames_object.mp distinct with ⟨names, inside⟩
      rw [same_object, sameMembers_iff]
      refine ⟨rfl, fun member listed => ⟨member.2, ?_, ih member listed (inside member listed)⟩⟩
      exact (findMember_eq_some_iff names).mpr listed

/-- As many names on the right, all of those on the left among them, leave room for no others. -/
theorem names_perm_of_sameMembers {left right : Members} (distinct : (left.map Prod.fst).Nodup)
    (length : left.length = right.length) (agree : sameMembers left right = true) :
    (left.map Prod.fst).Perm (right.map Prod.fst) := by
  have covered : left.map Prod.fst ⊆ right.map Prod.fst := by
    intro name named
    rcases List.mem_map.mp named with ⟨member, listed, rfl⟩
    rcases sameMembers_iff.mp agree member listed with ⟨other, found, _⟩
    exact List.mem_map.mpr ⟨(member.1, other), mem_of_findMember found, rfl⟩
  exact (List.Nodup.subperm distinct covered).perm_of_length_le (by simp [length])

theorem same_symm (left : Value) :
    ∀ right : Value, left.HasDistinctNames → right.HasDistinctNames →
      left.same right = true → right.same left = true := by
  induction left using Value.induction with
  | null => intro right; cases right <;> simp [same]
  | bool value => intro right; cases right <;> simp +contextual [same]
  | integer value => intro right; cases right <;> simp +contextual [same]
  | double value =>
      intro right _ _ equal
      cases right with
      | double other =>
          simp only [same, Binary64.same, Bool.or_eq_true, Bool.and_eq_true, beq_iff_eq] at equal ⊢
          exact equal.imp Eq.symm And.symm
      | _ => simp [same] at equal
  | string value => intro right; cases right <;> simp +contextual [same]
  | array items ih =>
      intro right leftDistinct rightDistinct equal
      cases right with
      | array others =>
          rw [hasDistinctNames_array] at leftDistinct rightDistinct
          rw [same, sameItems_iff] at equal ⊢
          rw [List.forall₂_iff_get] at equal ⊢
          rcases equal with ⟨length, pairs⟩
          refine ⟨length.symm, fun index inOthers inItems => ?_⟩
          exact ih _ (List.get_mem _ _) _ (leftDistinct _ (List.get_mem _ _))
            (rightDistinct _ (List.get_mem _ _)) (pairs index inItems inOthers)
      | _ => simp [same] at equal
  | object members ih =>
      intro right leftDistinct rightDistinct equal
      cases right with
      | object others =>
          rcases hasDistinctNames_object.mp leftDistinct with ⟨leftNames, leftInside⟩
          rcases hasDistinctNames_object.mp rightDistinct with ⟨rightNames, rightInside⟩
          rw [same_object] at equal ⊢
          rcases equal with ⟨length, agree⟩
          have permuted := names_perm_of_sameMembers leftNames length agree
          refine ⟨length.symm, sameMembers_iff.mpr fun other listed => ?_⟩
          rcases List.mem_map.mp (permuted.mem_iff.mpr (List.mem_map_of_mem listed)) with
            ⟨member, inside, named⟩
          rcases sameMembers_iff.mp agree member inside with ⟨partner, found, agrees⟩
          have partnerIs : partner = other.2 := by
            rw [named, (findMember_eq_some_iff rightNames).mpr listed] at found
            exact (Option.some.inj found).symm
          refine ⟨member.2, ?_, ?_⟩
          · rw [← named]
            exact (findMember_eq_some_iff leftNames).mpr inside
          · rw [← partnerIs]
            exact ih member inside partner (leftInside member inside)
              (partnerIs ▸ rightInside other listed) agrees
      | _ => simp [same] at equal

end Value
end Json
end KeyedReflection
