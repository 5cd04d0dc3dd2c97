import KeyedReflection.Proofs.Interpreter.Operations
import KeyedReflection.Proofs.Text.Bytes

/-!
# Entries of a patch are independent

Whether an entry of a patch succeeds is decided by its key, its value and the table.  What the record
holds has no part in it (`Interpreter.target`), so that no entry can make another one fail.  Entries of
different keys write to different fields, and may change places.

Applying a patch therefore comes to the same as applying its entries in any other order.  Only where
some of them fail does the order show, and then only in where it stops: the patch goes by ascending
keys, so that what was applied are the entries below the smallest key that fails.
-/

namespace KeyedReflection

open Json (Value)

/-- An entry of a patch: a key with the value to set, or with nothing for a field to be unset. -/
abbrev KeyChange := String × Option TaggedValue

/-- What some changes make of a record when all of them and nothing else is done: the field of each
holds its value or nothing, and all other fields are as before. -/
structure RecordState.IsPatched (table : DispatchTable) (changes : List KeyChange)
    (before after : RecordState) : Prop where
  written : ∀ change ∈ changes, ∀ entry, table.entryOf? change.1 = some entry →
    after.find? entry.dottedId = some (change.2.map TaggedValue.value)
  kept : ∀ id, (∀ change ∈ changes, ∀ entry, table.entryOf? change.1 = some entry →
    entry.dottedId ≠ id) → after.find? id = before.find? id

/-- The entries of a patch whose keys are smaller than a given one, byte by byte. -/
def Patch.below (patch : Patch) (key : String) : List KeyChange :=
  patch.entries.filter fun change => decide (Text.utf8 change.1 < Text.utf8 key)

namespace Interpreter

variable {interpreter : Interpreter} {changes : List KeyChange}

/-- Carry out changes one by one, each on the record that the ones before it have left. -/
def changeInTurn (interpreter : Interpreter) (state : RecordState) (changes : List KeyChange) :
    Except RunFault RecordState :=
  changes.foldlM (fun state change => interpreter.applyEntry state change.1 change.2) state

/-- Whether a change would succeed on a record if nothing else were done. -/
def Accepts (interpreter : Interpreter) (state : RecordState) (change : KeyChange) : Prop :=
  ∃ next, interpreter.applyEntry state change.1 change.2 = .ok next

/-! ## One change -/

/-- The field that a change writes to, or the fault of the change. -/
def target (interpreter : Interpreter) (change : KeyChange) : Except RunFault String :=
  match interpreter.module.table.entryOf? change.1 with
  | none => .error (.key (.unknownKey change.1))
  | some entry =>
    match change.2 with
    | some value =>
      if value.canonicalType = entry.leaf.canonicalType then .ok entry.dottedId
      else .error (.key (.typeMismatch change.1 entry.leaf.canonicalType value.canonicalType))
    | none =>
      if entry.leaf.isOptional then .ok entry.dottedId else .error (.key (.notOptional change.1))

/-- The record after a change, which leaves it alone when it fails. -/
def write (interpreter : Interpreter) (state : RecordState) (change : KeyChange) : RecordState :=
  match interpreter.target change with
  | .ok id => state.insert id (change.2.map TaggedValue.value)
  | .error _ => state

/-- A change does to every record the same, or fails on every record alike. -/
theorem applyEntry_eq (wellBuilt : interpreter.module.IsWellBuilt) (state : RecordState)
    (change : KeyChange) :
    interpreter.applyEntry state change.1 change.2 =
      (interpreter.target change).map fun _ => interpreter.write state change := by
  rcases change with ⟨key, value⟩
  unfold write target
  cases value with
  | none =>
      rw [applyEntry, unset_eq wellBuilt.toIsKeyed]
      cases interpreter.module.table.entryOf? key with
      | none => rfl
      | some entry => by_cases optional : entry.leaf.isOptional = true <;> simp [optional, Except.map]
  | some value =>
      rw [applyEntry, set_eq wellBuilt.toIsKeyed]
      cases interpreter.module.table.entryOf? key with
      | none => rfl
      | some entry =>
          by_cases fits : value.canonicalType = entry.leaf.canonicalType <;>
            simp [fits, Except.map]

/-- What a change writes to is the field of its key. -/
theorem entryOf?_of_target {change : KeyChange} {id : String}
    (writes : interpreter.target change = .ok id) :
    ∃ entry, interpreter.module.table.entryOf? change.1 = some entry ∧ entry.dottedId = id := by
  unfold target at writes
  split at writes
  · cases writes
  · rename_i entry found
    refine ⟨entry, found, ?_⟩
    split at writes <;> split at writes <;> cases writes <;> rfl

/-- Changes of different keys write to different fields. -/
theorem key_eq_of_target_eq (wellBuilt : interpreter.module.IsWellBuilt) {first second : KeyChange}
    {id : String} (writes : interpreter.target first = .ok id)
    (alsoWrites : interpreter.target second = .ok id) : first.1 = second.1 := by
  rcases entryOf?_of_target writes with ⟨entry, found, rfl⟩
  rcases entryOf?_of_target alsoWrites with ⟨other, otherFound, same⟩
  rcases (DispatchTable.entryOf?_eq_some_iff wellBuilt.ascending).mp found with ⟨listed, key⟩
  rcases (DispatchTable.entryOf?_eq_some_iff wellBuilt.ascending).mp otherFound with
    ⟨otherListed, otherKey⟩
  rw [← key, ← otherKey, List.inj_on_of_nodup_map wellBuilt.distinctIds otherListed listed same]

theorem write_comm (wellBuilt : interpreter.module.IsWellBuilt) (state : RecordState)
    {first second : KeyChange} (different : first.1 ≠ second.1) :
    interpreter.write (interpreter.write state first) second =
      interpreter.write (interpreter.write state second) first := by
  unfold write
  cases writes : interpreter.target first with
  | error fault => rfl
  | ok id =>
      cases alsoWrites : interpreter.target second with
      | error fault => rfl
      | ok other =>
          apply SortedMap.ext_find?
          intro field
          simp only [SortedMap.find?_insert]
          by_cases here : id = field
          · have elsewhere : other ≠ field := by
              intro there
              rw [here, ← there] at writes
              exact different (key_eq_of_target_eq wellBuilt writes alsoWrites)
            simp [elsewhere]
          · simp [here]

/-! ## Many changes -/

theorem changeInTurn_eq (wellBuilt : interpreter.module.IsWellBuilt) (state : RecordState)
    (each : ∀ change ∈ changes, ∃ id, interpreter.target change = .ok id) :
    interpreter.changeInTurn state changes = .ok (changes.foldl interpreter.write state) := by
  unfold changeInTurn
  induction changes generalizing state with
  | nil => rfl
  | cons change rest ih =>
      rcases List.forall_mem_cons.mp each with ⟨⟨id, writes⟩, others⟩
      rw [List.foldlM_cons, applyEntry_eq wellBuilt, writes]
      exact ih _ others

/-- Changes of different keys may come in any order. -/
theorem foldl_write_perm (wellBuilt : interpreter.module.IsWellBuilt) {order : List KeyChange}
    (distinct : (changes.map Prod.fst).Nodup) (permuted : order.Perm changes) (state : RecordState) :
    order.foldl interpreter.write state = changes.foldl interpreter.write state := by
  apply permuted.foldl_eq'
  intro first firstListed second secondListed state
  by_cases same : first.1 = second.1
  · rw [List.inj_on_of_nodup_map distinct (permuted.mem_iff.mp firstListed)
      (permuted.mem_iff.mp secondListed) same]
  · exact write_comm wellBuilt state same

theorem find?_foldl_write_of_ne (state : RecordState) {id : String}
    (elsewhere : ∀ change ∈ changes, interpreter.target change ≠ .ok id) :
    (changes.foldl interpreter.write state).find? id = state.find? id := by
  induction changes generalizing state with
  | nil => rfl
  | cons change rest ih =>
      rcases List.forall_mem_cons.mp elsewhere with ⟨first, others⟩
      rw [List.foldl_cons, ih _ others]
      unfold write
      cases writes : interpreter.target change with
      | error fault => rfl
      | ok other =>
          have different : other ≠ id := fun same => first (same ▸ writes)
          simp [different]

theorem find?_foldl_write (wellBuilt : interpreter.module.IsWellBuilt) (state : RecordState)
    (distinct : (changes.map Prod.fst).Nodup) {change : KeyChange} (listed : change ∈ changes)
    {id : String} (writes : interpreter.target change = .ok id) :
    (changes.foldl interpreter.write state).find? id = some (change.2.map TaggedValue.value) := by
  induction changes generalizing state with
  | nil => cases listed
  | cons first rest ih =>
      rcases List.nodup_cons.mp distinct with ⟨alone, others⟩
      rcases List.mem_cons.mp listed with rfl | later
      · rw [List.foldl_cons, find?_foldl_write_of_ne]
        · simp [write, writes]
        · -- What comes later has other keys, and so other fields.
          intro other otherListed alsoWrites
          apply alone
          rw [key_eq_of_target_eq wellBuilt writes alsoWrites]
          exact List.mem_map_of_mem otherListed
      · exact ih _ others later

theorem isPatched_foldl_write (wellBuilt : interpreter.module.IsWellBuilt) (state : RecordState)
    (distinct : (changes.map Prod.fst).Nodup)
    (each : ∀ change ∈ changes, ∃ id, interpreter.target change = .ok id) :
    state.IsPatched interpreter.module.table changes (changes.foldl interpreter.write state) := by
  constructor
  · intro change listed entry found
    rcases each change listed with ⟨id, writes⟩
    rcases entryOf?_of_target writes with ⟨other, otherFound, rfl⟩
    rw [found] at otherFound
    cases otherFound
    exact find?_foldl_write wellBuilt state distinct listed writes
  · intro id elsewhere
    apply find?_foldl_write_of_ne
    intro change listed writes
    rcases entryOf?_of_target writes with ⟨entry, found, same⟩
    exact elsewhere change listed entry found same

/-! ## Patches -/

theorem accepts_iff (wellBuilt : interpreter.module.IsWellBuilt) (state : RecordState)
    (change : KeyChange) :
    interpreter.Accepts state change ↔ ∃ id, interpreter.target change = .ok id := by
  unfold Accepts
  rw [applyEntry_eq wellBuilt]
  cases interpreter.target change with
  | error fault => exact iff_of_false nofun nofun
  | ok id => exact iff_of_true ⟨_, rfl⟩ ⟨id, rfl⟩

/-- Changes are applied up to the first that fails. -/
theorem applyEntries_cases (wellBuilt : interpreter.module.IsWellBuilt) (state : RecordState)
    (changes : List KeyChange) :
    ((∀ change ∈ changes, ∃ id, interpreter.target change = .ok id) ∧
      interpreter.applyEntries state changes = (changes.foldl interpreter.write state, .ok ())) ∨
    ∃ earlier change later fault, changes = earlier ++ change :: later ∧
      (∀ change ∈ earlier, ∃ id, interpreter.target change = .ok id) ∧
      interpreter.target change = .error fault ∧
      interpreter.applyEntries state changes =
        (earlier.foldl interpreter.write state, .error fault) := by
  induction changes generalizing state with
  | nil => exact .inl ⟨nofun, rfl⟩
  | cons first rest ih =>
      unfold applyEntries
      cases writes : interpreter.target first with
      | error fault =>
          refine .inr ⟨[], first, rest, fault, rfl, nofun, writes, ?_⟩
          simp [applyEntry_eq wellBuilt, writes, Except.map]
      | ok id =>
          simp only [applyEntry_eq wellBuilt, writes, Except.map]
          rcases ih (interpreter.write state first) with
            ⟨each, ran⟩ | ⟨earlier, change, later, fault, rfl, each, failed, ran⟩
          · exact .inl ⟨List.forall_mem_cons.mpr ⟨⟨id, writes⟩, each⟩, ran⟩
          · exact .inr ⟨first :: earlier, change, later, fault, rfl,
              List.forall_mem_cons.mpr ⟨⟨id, writes⟩, each⟩, failed, ran⟩

/-- In ascending order, what stands in front of a change are the changes with smaller keys. -/
private theorem filter_below {earlier later : List KeyChange} {change : KeyChange}
    (ascending : (earlier ++ change :: later).Pairwise fun left right => left.1 < right.1) :
    (earlier ++ change :: later).filter
      (fun other => decide (Text.utf8 other.1 < Text.utf8 change.1)) = earlier := by
  simp only [Text.utf8_lt_utf8_iff]
  rcases List.pairwise_append.mp ascending with ⟨-, behind, between⟩
  have smaller : earlier.filter (fun other => decide (other.1 < change.1)) = earlier := by
    apply List.filter_eq_self.mpr
    intro other listed
    simpa using between other listed change List.mem_cons_self
  have greater : (change :: later).filter (fun other => decide (other.1 < change.1)) = [] := by
    apply List.filter_eq_nil_iff.mpr
    intro other listed
    rcases List.mem_cons.mp listed with rfl | after
    · simp
    · have above := (List.pairwise_cons.mp behind).1 other after
      simpa using String.lt_asymm above
  rw [List.filter_append, smaller, greater, List.append_nil]

/-- A patch succeeds when each of its entries would do so alone, and then its entries may be applied in
any order.  Otherwise the fault is that of the smallest key that fails in the order of bytes, and just the
entries with smaller keys have been applied, which may be done in any order as well. -/
theorem apply_in_any_order {record : Record} {options : GenerateOptions} {interpreter : Interpreter}
    (plain : record.tree.HasPlainNames)
    (built : buildModule record options = .ok interpreter.module) (state : RecordState)
    (patch : Patch) :
    let outcome := interpreter.apply state patch
    let table := interpreter.module.table
    (outcome.2 = .ok () ↔ ∀ change ∈ patch.entries, interpreter.Accepts state change) ∧
    (outcome.2 = .ok () → state.IsPatched table patch.entries outcome.1 ∧
      ∀ order : List KeyChange, order.Perm patch.entries →
        interpreter.changeInTurn state order = .ok outcome.1) ∧
    ∀ fault, outcome.2 = .error fault → ∃ change ∈ patch.entries,
      interpreter.applyEntry state change.1 change.2 = .error fault ∧
      (∀ other ∈ patch.entries, ¬ interpreter.Accepts state other →
        other = change ∨ Text.utf8 change.1 < Text.utf8 other.1) ∧
      state.IsPatched table (patch.below change.1) outcome.1 ∧
      ∀ order : List KeyChange, order.Perm (patch.below change.1) →
        interpreter.changeInTurn state order = .ok outcome.1 := by
  have wellBuilt := buildModule_wellBuilt plain built
  have ascending : patch.entries.Pairwise fun left right => left.1 < right.1 := patch.ascending_entries
  have distinct : (patch.entries.map Prod.fst).Nodup := patch.nodup_keys
  have inOrder : ∀ {changes order : List KeyChange}, (changes.map Prod.fst).Nodup →
      (∀ change ∈ changes, ∃ id, interpreter.target change = .ok id) → order.Perm changes →
      interpreter.changeInTurn state order = .ok (changes.foldl interpreter.write state) := by
    intro changes order different each permuted
    rw [changeInTurn_eq wellBuilt state fun change listed => each change (permuted.mem_iff.mp listed),
      foldl_write_perm wellBuilt different permuted]
  simp only [accepts_iff wellBuilt]
  unfold apply Patch.below
  rcases applyEntries_cases wellBuilt state patch.entries with
    ⟨each, ran⟩ | ⟨earlier, change, later, fault, split, each, failed, ran⟩
  · rw [ran]
    refine ⟨iff_of_true rfl each, fun _ => ⟨?_, ?_⟩, nofun⟩
    · exact isPatched_foldl_write wellBuilt state distinct each
    · exact fun order permuted => inOrder distinct each permuted
  · rw [ran, split]
    rw [split] at ascending distinct
    have front : (earlier.map Prod.fst).Nodup := by
      rw [List.map_append] at distinct
      exact (List.nodup_append.mp distinct).1
    refine ⟨iff_of_false nofun fun all => ?_, nofun, ?_⟩
    · rcases all change (by simp) with ⟨id, writes⟩
      rw [failed] at writes
      cases writes
    · rintro _ ⟨⟩
      refine ⟨change, by simp, ?_, ?_, ?_⟩
      · simp [applyEntry_eq wellBuilt, failed, Except.map]
      · intro other listed fails
        rcases List.mem_append.mp listed with before | behind
        · exact absurd (each other before) fails
        · rcases List.mem_cons.mp behind with same | after
          · exact .inl same
          · have above := (List.pairwise_cons.mp (List.pairwise_append.mp ascending).2.1).1 other after
            exact .inr (Text.utf8_lt_utf8_iff.mpr above)
      · rw [filter_below ascending]
        exact ⟨isPatched_foldl_write wellBuilt state front each,
          fun order permuted => inOrder front each permuted⟩

/-- A patch that stops: the title of a window is not optional, and of the three entries only the one for
the width has a smaller key. -/
theorem apply_in_any_order_window : ∃ interpreter : Interpreter,
    Record.window.tree.HasPlainNames ∧
      buildModule Record.window .slashed = .ok interpreter.module ∧
      let patch : Patch := .ofList [("size/width", some ⟨"int", .integer 3⟩), ("title", none),
        ("visible", some ⟨"bool", .bool true⟩)]
      let outcome := interpreter.apply (.new interpreter.module) patch
      let table := interpreter.module.table
      let state := RecordState.new interpreter.module
      (outcome.2 = .ok () ↔ ∀ change ∈ patch.entries, interpreter.Accepts state change) ∧
      (outcome.2 = .ok () → state.IsPatched table patch.entries outcome.1 ∧
        ∀ order : List KeyChange, order.Perm patch.entries →
          interpreter.changeInTurn state order = .ok outcome.1) ∧
      ∀ fault, outcome.2 = .error fault → ∃ change ∈ patch.entries,
        interpreter.applyEntry state change.1 change.2 = .error fault ∧
        (∀ other ∈ patch.entries, ¬ interpreter.Accepts state other →
          other = change ∨ Text.utf8 change.1 < Text.utf8 other.1) ∧
        state.IsPatched table (patch.below change.1) outcome.1 ∧
        ∀ order : List KeyChange, order.Perm (patch.below change.1) →
          interpreter.changeInTurn state order = .ok outcome.1 := by
  rcases buildModule_window with ⟨m, built⟩
  have plain : Record.window.tree.HasPlainNames := by decide
  exact ⟨.new m, plain, built, apply_in_any_order plain built _ _⟩

end Interpreter
end KeyedReflection
