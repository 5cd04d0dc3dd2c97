import Std.Data.ExtTreeMap

/-!
# Finite maps in key order

A `SortedMap` is a finite map from texts to values, whose entries are listed by ascending key in the
order of code points.  It is stored as a balanced search tree, so that looking up and inserting take a
logarithmic number of comparisons; the shape of the tree is not part of the map, and two maps with the
same answer for every key are equal (`SortedMap.ext_find?`).  Patches, record states, key overrides and
the alternatives of a value type are all such maps.
-/

namespace KeyedReflection

/-- A finite map from texts to values. -/
structure SortedMap (α : Type) where
  /-- The search tree, up to its shape. -/
  tree : Std.ExtTreeMap String α

namespace SortedMap

variable {α : Type}

/-- The map without entries. -/
def empty : SortedMap α :=
  ⟨∅⟩

instance : Inhabited (SortedMap α) := ⟨empty⟩

/-- The map with `key` mapped to `value`. -/
def insert (map : SortedMap α) (key : String) (value : α) : SortedMap α :=
  ⟨map.tree.insert key value⟩

/-- The value of a key. -/
def find? (map : SortedMap α) (key : String) : Option α :=
  map.tree[key]?

/-- Whether the key has a value. -/
def contains (map : SortedMap α) (key : String) : Bool :=
  (map.find? key).isSome

/-- Insert the pairs from first to last, so that of two pairs with one key the last counts. -/
def ofList (pairs : List (String × α)) : SortedMap α :=
  pairs.foldl (fun map (key, value) => map.insert key value) empty

/-- The entries by ascending key. -/
def entries (map : SortedMap α) : List (String × α) :=
  map.tree.toList

/-- The keys in ascending order. -/
def keys (map : SortedMap α) : List String :=
  map.entries.map Prod.fst

/-- Whether two maps have the same keys, with values that `same` accepts. -/
def sameBy (same : α → α → Bool) (left right : SortedMap α) : Bool :=
  left.entries.length == right.entries.length &&
    (left.entries.zip right.entries).all fun (l, r) => l.1 == r.1 && same l.2 r.2

/-! ## Laws -/

/-- Inserting decides the inserted key and no other. -/
@[simp] theorem find?_insert (map : SortedMap α) (key other : String) (value : α) :
    (map.insert key value).find? other = if key = other then some value else map.find? other := by
  simp [insert, find?, Std.ExtTreeMap.getElem?_insert]

@[simp] theorem find?_empty (key : String) : (empty : SortedMap α).find? key = none := by
  simp [empty, find?]

private theorem find?_foldl_insert (pairs : List (String × α)) (map : SortedMap α) (key : String) :
    (pairs.foldl (fun map (key, value) => map.insert key value) map).find? key =
      (pairs.reverse.lookup key).or (map.find? key) := by
  induction pairs generalizing map with
  | nil => simp
  | cons head rest ih =>
    obtain ⟨k, v⟩ := head
    simp only [List.foldl_cons, ih, find?_insert, List.reverse_cons, List.lookup_append,
      Option.or_assoc]
    by_cases same : k = key
    · simp [same]
    · have : (key == k) = false := by simpa using fun h => same h.symm
      simp [same, List.lookup_cons, this]

/-- Of several pairs with one key, the map has the last. -/
theorem find?_ofList (pairs : List (String × α)) (key : String) :
    (ofList pairs).find? key = pairs.reverse.lookup key := by
  simp [ofList, find?_foldl_insert]

/-- The map of pairs with distinct keys has each of them. -/
theorem find?_ofList_of_distinct {pairs : List (String × α)}
    (distinct : (pairs.map Prod.fst).Nodup) {pair : String × α} (member : pair ∈ pairs) :
    (ofList pairs).find? pair.1 = some pair.2 := by
  rw [find?_ofList]
  have distinct : (pairs.reverse.map Prod.fst).Nodup := by
    rw [List.map_reverse]
    exact List.pairwise_reverse.2 (distinct.imp Ne.symm)
  have member : pair ∈ pairs.reverse := by simpa using member
  generalize pairs.reverse = pairs at distinct member
  induction pairs with
  | nil => simp at member
  | cons head rest ih =>
    obtain ⟨alone, others⟩ := List.nodup_cons.1 distinct
    rcases List.mem_cons.1 member with rfl | later
    · exact List.lookup_cons_self
    · have different : pair.1 ≠ head.1 := fun same =>
        alone (same ▸ List.mem_map_of_mem later)
      replace different : (pair.1 == head.1) = false := beq_false_of_ne different
      obtain ⟨k, v⟩ := head
      simp only [List.lookup_cons, different]
      exact ih others later

/-- A map is determined by its answers. -/
theorem ext_find? {left right : SortedMap α} (same : ∀ key, left.find? key = right.find? key) :
    left = right := by
  obtain ⟨leftTree⟩ := left
  obtain ⟨rightTree⟩ := right
  have : leftTree = rightTree := Std.ExtTreeMap.ext_getElem? same
  rw [this]

/-- The entries are the keys with their values. -/
@[simp] theorem mem_entries {map : SortedMap α} {key : String} {value : α} :
    (key, value) ∈ map.entries ↔ map.find? key = some value :=
  Std.ExtTreeMap.mem_toList_iff_getElem?_eq_some

/-- No key occurs twice among the entries, and the keys ascend. -/
theorem ascending_entries (map : SortedMap α) :
    map.entries.Pairwise fun left right => left.1 < right.1 := by
  refine (Std.ExtTreeMap.ordered_keys_toList (t := map.tree)).imp ?_
  intro left right before
  exact compareOfLessAndEq_eq_lt.1 before

@[simp] theorem entries_empty : (empty : SortedMap α).entries = [] := by
  simp [empty, entries]

end SortedMap
end KeyedReflection
