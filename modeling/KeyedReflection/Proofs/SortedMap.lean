import KeyedReflection.Proofs.Results
import KeyedReflection.SortedMap
import Mathlib.Data.List.Nodup

/-!
# Maps made from listed items

Tables, record states and cells are all maps made from one list, under one name or another for each
item.  Where the names are distinct, looking up in the map is looking for the item in the list.

Maps are compared entry by entry.  As the entries come in key order, that is a comparison of the
answers to every key (`sameBy_iff`).
-/

namespace KeyedReflection
namespace SortedMap

variable {α β : Type}

/-- Among items with distinct names, the one that is found is the only one of its name. -/
theorem find?_eq_some_iff_of_distinct {κ : Type} [BEq κ] [LawfulBEq κ] {items : List β}
    {name : β → κ} (distinct : (items.map name).Nodup) {key : κ} {item : β} :
    (items.find? fun other => name other == key) = some item ↔ item ∈ items ∧ name item = key := by
  constructor
  · intro found
    exact ⟨List.mem_of_find?_eq_some found, by simpa using List.find?_some found⟩
  · rintro ⟨listed, rfl⟩
    cases found : items.find? fun other => name other == name item with
    | none => exact absurd (beq_self_eq_true (name item)) (List.find?_eq_none.mp found item listed)
    | some other =>
        have same : name other = name item := by simpa using List.find?_some found
        rw [List.inj_on_of_nodup_map distinct (List.mem_of_find?_eq_some found) listed same]

private theorem lookup_eq_none {pairs : List (String × α)} {key : String}
    (absent : key ∉ pairs.map Prod.fst) : pairs.lookup key = none := by
  apply List.lookup_eq_none_iff.mpr
  intro pair listed
  have different : key ≠ pair.1 := fun same => absent (same ▸ List.mem_map_of_mem listed)
  simpa using different

/-- A map made from items with distinct names has for each name what its item holds. -/
theorem find?_ofList_map {items : List β} {name : β → String} (distinct : (items.map name).Nodup)
    (content : β → α) (key : String) :
    (ofList (items.map fun item => (name item, content item))).find? key =
      (items.find? fun item => name item == key).map content := by
  have names : (items.map fun item => (name item, content item)).map Prod.fst = items.map name := by
    rw [List.map_map]
    rfl
  cases found : items.find? fun item => name item == key with
  | none =>
      have absent : key ∉ items.map name := by
        intro listed
        rcases List.mem_map.mp listed with ⟨item, inside, same⟩
        have missing := List.find?_eq_none.mp found item inside
        exact missing (beq_iff_eq.mpr same)
      rw [find?_ofList, lookup_eq_none]
      · rfl
      · rw [List.map_reverse, List.mem_reverse, names]
        exact absent
  | some item =>
      rcases (find?_eq_some_iff_of_distinct distinct).mp found with ⟨inside, same⟩
      have held := find?_ofList_of_distinct (names ▸ distinct) (List.mem_map_of_mem inside)
      rw [← same]
      exact held

/-! ## Collecting -/

/-- What is collected item by item is there in the end if it was there before or came with an item. -/
theorem foldl_iff {State Item : Type} {step : State → Item → State} (has : State → Prop)
    {brings : Item → Prop} (each : ∀ state item, has (step state item) ↔ has state ∨ brings item)
    (items : List Item) (first : State) :
    has (items.foldl step first) ↔ has first ∨ ∃ item ∈ items, brings item := by
  induction items generalizing first with
  | nil => simp
  | cons item items ih => rw [List.foldl_cons, ih, each, or_assoc, List.exists_mem_cons_iff]

/-! ## Comparing -/

private theorem sameBy_iff_forall₂ {same : α → α → Bool} {left right : SortedMap α} :
    left.sameBy same right = true ↔
      List.Forall₂ (fun l r => l.1 = r.1 ∧ same l.2 r.2 = true) left.entries right.entries := by
  rw [sameBy, List.forall₂_iff_zip, Bool.and_eq_true, beq_iff_eq, List.all_eq_true]
  simp

theorem mem_keys {map : SortedMap α} {key : String} :
    key ∈ map.keys ↔ (map.find? key).isSome = true := by
  rw [keys, List.mem_map, Option.isSome_iff_exists]
  constructor
  · rintro ⟨entry, listed, rfl⟩
    exact ⟨entry.2, mem_entries.mp listed⟩
  · rintro ⟨value, found⟩
    exact ⟨(key, value), mem_entries.mpr found, rfl⟩

theorem mem_keys_insert {map : SortedMap α} {key other : String} {value : α} :
    other ∈ (map.insert key value).keys ↔ other ∈ map.keys ∨ key = other := by
  rw [mem_keys, mem_keys, find?_insert]
  by_cases same : key = other
  · simp [same]
  · simp [same]

theorem ascending_keys (map : SortedMap α) : map.keys.Pairwise (· < ·) :=
  List.pairwise_map.mpr map.ascending_entries

theorem nodup_keys (map : SortedMap α) : map.keys.Nodup := by
  rw [List.nodup_iff_pairwise_ne]
  refine map.ascending_keys.imp ?_
  intro left right before same
  exact String.lt_irrefl _ (same ▸ before)

/-- Maps with the same keys list them alike. -/
theorem keys_eq_of_mem_iff {left right : SortedMap α}
    (sameKeys : ∀ key, key ∈ left.keys ↔ key ∈ right.keys) : left.keys = right.keys := by
  have permuted : left.keys.Perm right.keys :=
    (List.perm_ext_iff_of_nodup left.nodup_keys right.nodup_keys).mpr sameKeys
  refine permuted.eq_of_pairwise ?_ left.ascending_keys right.ascending_keys
  exact fun first second _ _ before after => absurd after (String.lt_asymm before)

/-- Two maps are the same exactly when they give the same for every key, or both nothing. -/
theorem sameBy_iff {same : α → α → Bool} {left right : SortedMap α} :
    left.sameBy same right = true ↔
      ∀ key, Option.Rel (fun l r => same l r = true) (left.find? key) (right.find? key) := by
  rw [sameBy_iff_forall₂]
  constructor
  · intro paired key
    cases leftFound : left.find? key with
    | some value =>
        rcases partner_of_mem paired (mem_entries.mpr leftFound) with
          ⟨⟨name, other⟩, inside, rfl, agrees⟩
        rw [mem_entries.mp inside]
        exact .some agrees
    | none =>
        cases rightFound : right.find? key with
        | none => exact .none
        | some value =>
            rcases partner_of_mem paired.flip (mem_entries.mpr rightFound) with
              ⟨⟨name, other⟩, inside, rfl, agrees⟩
            rw [mem_entries.mp inside] at leftFound
            cases leftFound
  · intro agree
    have sameKeys : left.keys = right.keys := by
      apply keys_eq_of_mem_iff
      intro key
      have agreement := agree key
      rw [mem_keys, mem_keys]
      generalize left.find? key = leftHeld, right.find? key = rightHeld at agreement ⊢
      cases agreement <;> rfl
    have names : List.Forall₂ (fun l r => l.1 = r.1) left.entries right.entries := by
      rw [← List.forall₂_eq_eq_eq, keys, keys, List.forall₂_map_left_iff,
        List.forall₂_map_right_iff] at sameKeys
      exact sameKeys
    rw [List.forall₂_iff_zip] at names ⊢
    rcases names with ⟨length, named⟩
    refine ⟨length, ?_⟩
    intro leftEntry rightEntry zipped
    rcases List.of_mem_zip zipped with ⟨inLeft, inRight⟩
    have name := named zipped
    have agreement := agree leftEntry.1
    rw [mem_entries.mp inLeft, name, mem_entries.mp inRight] at agreement
    cases agreement with
    | some agrees => exact ⟨name, agrees⟩

end SortedMap
end KeyedReflection
