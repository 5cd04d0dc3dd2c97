import KeyedReflection.Json.Value

/-!
# What is left of collected members

Collecting keeps every name once, where it came first (`names_collect`), with the value of one of the
members of that name (`mem_of_mem_collect`).  So nothing is lost exactly when the names were distinct.
-/

namespace KeyedReflection
namespace Json
namespace Members

theorem names_firsts (seen : SortedMap Unit) (members : Members) :
    (firsts seen members).map Prod.fst =
      ((members.map Prod.fst).filter fun name => !seen.contains name).eraseDups := by
  induction members generalizing seen with
  | nil => rfl
  | cons member rest ih =>
      rcases member with ⟨name, value⟩
      rw [firsts, List.map_cons]
      by_cases known : seen.contains name = true
      · rw [if_pos known, ih, List.filter_cons_of_neg]
        simp [known]
      · have kept : (name :: rest.map Prod.fst).filter (fun other => !seen.contains other) =
            name :: (rest.map Prod.fst).filter fun other => !seen.contains other := by
          rw [Bool.not_eq_true] at known
          simp [known]
        -- What is seen from here on is the name, and what was seen before.
        have further : ∀ other, (!(seen.insert name ()).contains other) =
            (!other == name && !seen.contains other) := by
          intro other
          rw [SortedMap.contains, SortedMap.find?_insert, SortedMap.contains]
          by_cases same : name = other
          · simp [same]
          · simp [same, Ne.symm same]
        rw [if_neg known, List.map_cons, ih, kept, List.eraseDups_cons, List.filter_filter]
        simp only [further]

/-- Every name is kept once, where it came first. -/
theorem names_collect (members : Members) :
    (collect members).map Prod.fst = (members.map Prod.fst).eraseDups := by
  have names : (collect members).map Prod.fst = (firsts .empty members).map Prod.fst := by
    rw [collect, List.map_map]
    rfl
  have unseen : (members.map Prod.fst).filter (fun name => !(SortedMap.empty : SortedMap Unit).contains
      name) = members.map Prod.fst := by
    rw [List.filter_eq_self]
    intro name _
    rw [SortedMap.contains, SortedMap.find?_empty]
    rfl
  rw [names, names_firsts, unseen]

theorem mem_of_mem_firsts {seen : SortedMap Unit} {members : Members} {member : String × Value}
    (listed : member ∈ firsts seen members) : member ∈ members := by
  fun_induction firsts seen members with
  | case1 => cases listed
  | case2 seen name value rest _ ih => exact List.mem_cons_of_mem _ (ih listed)
  | case3 seen name value rest _ ih =>
      rcases List.mem_cons.mp listed with rfl | later
      · exact List.mem_cons_self
      · exact List.mem_cons_of_mem _ (ih later)

/-- Every collected member was there before. -/
theorem mem_of_mem_collect {members : Members} {member : String × Value}
    (listed : member ∈ collect members) : member ∈ members := by
  rcases List.mem_map.mp listed with ⟨⟨name, value⟩, first, rfl⟩
  dsimp only
  rw [SortedMap.find?_ofList]
  cases found : members.reverse.lookup name with
  | none => exact mem_of_mem_firsts first
  | some last =>
      rcases List.lookup_eq_some_iff.mp found with ⟨front, back, split, _⟩
      rw [Option.getD_some, ← List.mem_reverse, split]
      exact List.mem_append_right _ List.mem_cons_self

/-- The names are what they were exactly when they were distinct. -/
theorem names_collect_eq_iff {members : Members} :
    (collect members).map Prod.fst = members.map Prod.fst ↔ (members.map Prod.fst).Nodup := by
  constructor
  · intro same
    rw [← same]
    exact collect_distinct members
  · intro distinct
    rw [collect_of_distinct distinct]

end Members
end Json
end KeyedReflection
