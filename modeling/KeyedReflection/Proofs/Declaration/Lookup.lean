import KeyedReflection.Proofs.Declaration.Enclosed

/-!
# Looking up definitions by name

An index keeps the first definition of every qualified name (`find?_byName_build`).  A name that is looked
up within a scope is put behind the names of the scope, then behind all of them but the last, and so on; the
first of these qualified names that a definition has decides (`lookUp?_eq_some_iff`).
-/

namespace KeyedReflection
namespace RecordIndex

/-! ## First definitions -/

/-- Adding a definition keeps the names that are taken, and takes its own if it is free. -/
theorem find?_byName_add (index : RecordIndex) (definition : RecordDefinition) (name : String) :
    (index.add definition).byName.find? name =
      (index.byName.find? name).or
        (if lookupName? definition.name definition.scopes = some name then some index.definitions.size
          else none) := by
  rw [add]
  dsimp only
  cases own : lookupName? definition.name definition.scopes with
  | none => simp
  | some taken =>
      dsimp only
      by_cases before : index.byName.contains taken = true
      · rw [if_pos before]
        by_cases same : taken = name
        · subst same
          rw [SortedMap.contains, Option.isSome_iff_exists] at before
          rcases before with ⟨position, found⟩
          rw [found, Option.some_or]
        · simp [same]
      · rw [if_neg before, SortedMap.find?_insert]
        rw [SortedMap.contains, Bool.not_eq_true, Option.isSome_eq_false_iff,
          Option.isNone_iff_eq_none] at before
        by_cases same : taken = name
        · subst same
          simp [before]
        · simp [same]

/-- Under a qualified name is the first definition that has it. -/
theorem find?_byName_build (root : Declaration) (name : String) :
    (build root).byName.find? name = (build root).definitions.toList.findIdx? fun definition =>
      lookupName? definition.name definition.scopes == some name := by
  refine build_induction (motive := fun index => index.byName.find? name =
    index.definitions.toList.findIdx? fun definition =>
      lookupName? definition.name definition.scopes == some name) ?_ ?_ root
  · rw [empty, SortedMap.find?_empty]
    rfl
  · intro index definition before
    have grown : (index.add definition).definitions = index.definitions.push definition := rfl
    rw [find?_byName_add, before, grown, Array.toList_push, List.findIdx?_append]
    by_cases own : lookupName? definition.name definition.scopes = some name <;> simp [own]

/-- A definition has a qualified name that no definition in front of it has. -/
def IsFirst (index : RecordIndex) (name : String) (position : Nat) : Prop :=
  ∃ definition, index.definitions[position]? = some definition ∧
    lookupName? definition.name definition.scopes = some name ∧
    ∀ earlier < position, ∀ other, index.definitions[earlier]? = some other →
      lookupName? other.name other.scopes ≠ some name

theorem find?_byName_eq_some_iff {root : Declaration} {name : String} {position : Nat} :
    (build root).byName.find? name = some position ↔ (build root).IsFirst name position := by
  rw [find?_byName_build, List.findIdx?_eq_some_iff_getElem]
  constructor
  · rintro ⟨inside, own, before⟩
    rw [Array.length_toList] at inside
    refine ⟨(build root).definitions[position], Array.getElem?_eq_getElem inside, ?_, ?_⟩
    · simpa using own
    · intro earlier less other there
      rcases Array.getElem?_eq_some_iff.mp there with ⟨_, rfl⟩
      simpa using before earlier less
  · rintro ⟨definition, there, own, before⟩
    rcases Array.getElem?_eq_some_iff.mp there with ⟨inside, rfl⟩
    refine ⟨by simpa using inside, by simpa using own, ?_⟩
    intro earlier less
    have within := Nat.lt_trans less inside
    simpa using before earlier less _ (Array.getElem?_eq_getElem within)

theorem find?_byName_eq_none_iff {root : Declaration} {name : String} :
    (build root).byName.find? name = none ↔
      ∀ definition ∈ (build root).definitions,
        lookupName? definition.name definition.scopes ≠ some name := by
  rw [find?_byName_build, List.findIdx?_eq_none_iff]
  simp

/-! ## From the innermost scope outward -/

/-- Counting down, the first answer is that of the greatest number with one. -/
theorem findSome?_reverse_range {α : Type} {f : Nat → Option α} {bound : Nat} {answer : α} :
    (List.range bound).reverse.findSome? f = some answer ↔
      ∃ number < bound, f number = some answer ∧
        ∀ greater, number < greater → greater < bound → f greater = none := by
  induction bound with
  | zero => simp
  | succ bound ih =>
      rw [List.range_succ, List.reverse_append, List.reverse_singleton, List.singleton_append,
        List.findSome?_cons]
      cases last : f bound with
      | some other =>
          dsimp only
          constructor
          · intro same
            exact ⟨bound, Nat.lt_succ_self bound, last.trans same,
              fun greater above below => by omega⟩
          · rintro ⟨number, less, own, none⟩
            have greatest : number = bound := by
              by_contra different
              rw [none bound (by omega) (Nat.lt_succ_self bound)] at last
              cases last
            rw [← last, ← own, greatest]
      | none =>
          dsimp only
          rw [ih]
          constructor
          · rintro ⟨number, less, own, none⟩
            refine ⟨number, Nat.lt_succ_of_lt less, own, ?_⟩
            intro greater above below
            by_cases isLast : greater = bound
            · rw [isLast, last]
            · exact none greater above (by omega)
          · rintro ⟨number, less, own, none⟩
            have notLast : number ≠ bound := by
              rintro rfl
              rw [last] at own
              cases own
            exact ⟨number, by omega, own, fun greater above below => none greater above (by omega)⟩

/-- A name means the first definition of the longest qualified name that any definition has. -/
theorem lookUp?_eq_some_iff {root : Declaration} {scope : List String} {name : String}
    {position : Nat} :
    (build root).lookUp? scope name = some position ↔
      ∃ depth ≤ scope.length,
        (build root).IsFirst (Text.join "::" (scope.take depth ++ [name])) position ∧
        ∀ deeper, depth < deeper → deeper ≤ scope.length →
          ∀ definition ∈ (build root).definitions, lookupName? definition.name definition.scopes ≠
            some (Text.join "::" (scope.take deeper ++ [name])) := by
  rw [lookUp?, findSome?_reverse_range]
  simp only [find?_byName_eq_some_iff, find?_byName_eq_none_iff, Nat.lt_succ_iff]

end RecordIndex
end KeyedReflection
