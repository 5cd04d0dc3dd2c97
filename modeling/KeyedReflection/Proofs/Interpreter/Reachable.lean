import KeyedReflection.Proofs.Interpreter.Cells
import KeyedReflection.Proofs.Json.Equality

/-!
# What every record keeps

However a record is changed by key, it keeps the fields of its table, and those that are not optional
keep a value: only a new value can take the place of an old one there.  A patch that fails half way
keeps this too, since each of its entries does.

The values of a record are null or came in with an operation.  In those no object has two members of
one name, which is what their equality needs to be reflexive and symmetric.
-/

namespace KeyedReflection

open Json (Value)

/-- The values that come in with an operation have no object with two members of one name. -/
def KeyOperation.HasDistinctNames : KeyOperation → Prop
  | .set _ value => value.value.HasDistinctNames
  | .apply patch =>
    ∀ key value, patch.find? key = some (some value) → value.value.HasDistinctNames
  | _ => True

/-- The record is what some operations make of a new one. -/
def Interpreter.Reaches (interpreter : Interpreter) (state : RecordState) : Prop :=
  ∃ operations : List KeyOperation, (∀ operation ∈ operations, operation.HasDistinctNames) ∧
    (interpreter.run (.new interpreter.module) operations).1 = state

namespace RecordState

/-- A record that fits a table: it has the fields of the table, those that are not optional have a
value, and every value can be compared. -/
structure Fits (table : DispatchTable) (state : RecordState) : Prop where
  fields : ∀ id, (state.find? id).isSome = true ↔ id ∈ table.entries.toList.map KeyedLeaf.dottedId
  filled : ∀ entry ∈ table.entries.toList, entry.leaf.isOptional = false →
    (state.field? entry.dottedId).isSome = true
  comparable : ∀ id value, state.field? id = some value → value.HasDistinctNames

/-- What may be written into the field of an entry. -/
structure Admits (entry : KeyedLeaf) (content : Option Value) : Prop where
  filled : entry.leaf.isOptional = false → content.isSome = true
  comparable : ∀ value, content = some value → value.HasDistinctNames

variable {m : ReflectionModule} {interpreter : Interpreter}

theorem field?_insert (state : RecordState) (id other : String) (content : Option Value) :
    field? (state.insert id content) other = if id = other then content else state.field? other := by
  rw [field?, SortedMap.find?_insert]
  by_cases same : id = other
  · rw [if_pos same, if_pos same]
    rfl
  · rw [if_neg same, if_neg same]
    rfl

theorem Fits.insert (wellBuilt : m.IsWellBuilt) {state : RecordState} (fits : Fits m.table state)
    {entry : KeyedLeaf} (listed : entry ∈ m.table.entries.toList) {content : Option Value}
    (admits : Admits entry content) : Fits m.table (state.insert entry.dottedId content) := by
  constructor
  · intro id
    rw [SortedMap.find?_insert]
    by_cases same : entry.dottedId = id
    · rw [if_pos same, ← same]
      exact iff_of_true rfl (List.mem_map_of_mem listed)
    · rw [if_neg same]
      exact fits.fields id
  · intro other otherListed required
    rw [field?_insert]
    by_cases same : entry.dottedId = other.dottedId
    · have sameEntry := List.inj_on_of_nodup_map wellBuilt.distinctIds listed otherListed same
      rw [if_pos same]
      exact admits.filled (sameEntry ▸ required)
    · rw [if_neg same]
      exact fits.filled other otherListed required
  · intro id value
    rw [field?_insert]
    by_cases same : entry.dottedId = id
    · rw [if_pos same]
      exact admits.comparable value
    · rw [if_neg same]
      exact fits.comparable id value

theorem new_fits (wellBuilt : m.IsWellBuilt) : Fits m.table (new m) := by
  have agree := KeyCells.initial_agrees wellBuilt
  have held : ∀ entry ∈ m.table.entries.toList,
      (new m).field? entry.dottedId = if entry.leaf.isOptional then none else some .null := by
    intro entry listed
    rw [field?, new, SortedMap.find?_ofList_map wellBuilt.distinctIds,
      wellBuilt.find?_dottedId listed]
    rfl
  constructor
  · exact agree.field
  · intro entry listed required
    rw [held entry listed, required]
    rfl
  · intro id value found
    have there : ((new m).find? id).isSome = true := by
      rw [field?] at found
      cases inside : (new m).find? id with
      | none => rw [inside] at found; cases found
      | some content => rfl
    rcases List.mem_map.mp ((agree.field id).mp there) with ⟨entry, listed, rfl⟩
    rw [held entry listed] at found
    by_cases optional : entry.leaf.isOptional = true
    · rw [if_pos optional] at found
      cases found
    · rw [if_neg optional] at found
      cases found
      trivial

/-! ## Changes keep the fit -/

/-- An entry of a patch whose value, if it has one, can be compared. -/
def IsComparable (change : Option TaggedValue) : Prop :=
  ∀ value, change = some value → value.value.HasDistinctNames

theorem Fits.applyEntry (wellBuilt : interpreter.module.IsWellBuilt) {state next : RecordState}
    (fits : Fits interpreter.module.table state) {key : String} {change : Option TaggedValue}
    (comparable : IsComparable change) (applied : interpreter.applyEntry state key change = .ok next) :
    Fits interpreter.module.table next := by
  cases found : interpreter.module.table.entryOf? key with
  | none =>
      cases change <;>
        simp [Interpreter.applyEntry, Interpreter.set_eq wellBuilt.toIsKeyed,
          Interpreter.unset_eq wellBuilt.toIsKeyed, found] at applied
  | some entry =>
      have listed := ((DispatchTable.entryOf?_eq_some_iff wellBuilt.ascending).mp found).1
      cases change with
      | none =>
          rw [Interpreter.applyEntry, Interpreter.unset_eq wellBuilt.toIsKeyed, found] at applied
          dsimp only at applied
          by_cases optional : entry.leaf.isOptional = true
          · rw [if_pos optional] at applied
            cases applied
            refine fits.insert wellBuilt listed ⟨?_, ?_⟩
            · intro required
              rw [optional] at required
              cases required
            · intro value held
              cases held
          · rw [if_neg optional] at applied
            cases applied
      | some value =>
          rw [Interpreter.applyEntry, Interpreter.set_eq wellBuilt.toIsKeyed, found] at applied
          dsimp only at applied
          by_cases typed : value.canonicalType = entry.leaf.canonicalType
          · rw [if_pos typed] at applied
            cases applied
            refine fits.insert wellBuilt listed ⟨fun _ => rfl, ?_⟩
            intro inside same
            cases same
            exact comparable value rfl
          · rw [if_neg typed] at applied
            cases applied

/-- Whatever entry stops a patch, what was applied before it keeps the fit. -/
theorem Fits.applyEntries (wellBuilt : interpreter.module.IsWellBuilt) {state : RecordState}
    (fits : Fits interpreter.module.table state) {entries : List (String × Option TaggedValue)}
    (comparable : ∀ entry ∈ entries, IsComparable entry.2) :
    Fits interpreter.module.table (interpreter.applyEntries state entries).1 := by
  induction entries generalizing state with
  | nil => exact fits
  | cons entry rest ih =>
      rcases entry with ⟨key, change⟩
      rcases List.forall_mem_cons.mp comparable with ⟨first, others⟩
      rw [Interpreter.applyEntries]
      cases applied : interpreter.applyEntry state key change with
      | error fault => exact fits
      | ok next => exact ih (fits.applyEntry wellBuilt first applied) others

theorem Fits.perform (wellBuilt : interpreter.module.IsWellBuilt) {state : RecordState}
    (fits : Fits interpreter.module.table state) {operation : KeyOperation}
    (distinct : operation.HasDistinctNames) :
    Fits interpreter.module.table (interpreter.perform state operation).1 := by
  have settled : ∀ key change, IsComparable change →
      Fits interpreter.module.table (settle state (interpreter.applyEntry state key change)).1 := by
    intro key change comparable
    cases applied : interpreter.applyEntry state key change with
    | error fault => exact fits
    | ok next => exact fits.applyEntry wellBuilt comparable applied
  cases operation with
  | get key => exact fits
  | typeOf key => exact fits
  | set key value =>
      apply settled key (some value)
      intro inside same
      cases same
      exact distinct
  | unset key =>
      apply settled key none
      intro value held
      cases held
  | apply patch =>
      apply fits.applyEntries wellBuilt
      intro entry listed value same
      apply distinct entry.1 value
      rw [← same]
      exact SortedMap.mem_entries.mp listed

theorem Fits.run (wellBuilt : interpreter.module.IsWellBuilt) {state : RecordState}
    (fits : Fits interpreter.module.table state) {operations : List KeyOperation}
    (distinct : ∀ operation ∈ operations, operation.HasDistinctNames) :
    Fits interpreter.module.table (interpreter.run state operations).1 := by
  induction operations generalizing state with
  | nil => exact fits
  | cons operation rest ih =>
      rcases List.forall_mem_cons.mp distinct with ⟨first, others⟩
      exact ih (fits.perform wellBuilt first) others

end RecordState

theorem Interpreter.Reaches.fits {interpreter : Interpreter}
    (wellBuilt : interpreter.module.IsWellBuilt) {state : RecordState}
    (reached : interpreter.Reaches state) : state.Fits interpreter.module.table := by
  rcases reached with ⟨operations, distinct, rfl⟩
  exact (RecordState.new_fits wellBuilt).run wellBuilt distinct

end KeyedReflection
