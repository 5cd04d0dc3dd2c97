import KeyedReflection.Proofs.Interpreter.Operations
import KeyedReflection.Proofs.SortedMap
import Mathlib.Data.List.Nodup

/-!
# A record as cells under keys

Seen from outside, a record is one cell for each key.  A cell knows its leaf, which never changes, and
holds a value or nothing.  Nothing else is needed to say what the operations answer: there are no
positions, no branches and no dotted ids here.

`KeyCells.run` and `Interpreter.run` carry out a list of operations on the two sides.  They give the
same answers, and each of the two final states determines the other.
-/

namespace KeyedReflection

open Json (Value)

/-! ## Operations and their answers -/

/-- One call on a record. -/
inductive KeyOperation where
  | get (key : String)
  | set (key : String) (value : TaggedValue)
  | unset (key : String)
  | typeOf (key : String)
  | apply (patch : Patch)

/-- What a call gives when it does not fail. -/
inductive KeyReply where
  | content (value : Option TaggedValue)
  | typeName (name : String)
  | done

/-- The state after a change that may fail, which then leaves the state as it was. -/
def settle {State Fault : Type} (state : State) :
    Except Fault State → State × Except Fault KeyReply
  | .ok next => (next, .ok .done)
  | .error fault => (state, .error fault)

namespace Interpreter

/-- Carry out one operation. -/
def perform (interpreter : Interpreter) (state : RecordState) :
    KeyOperation → RecordState × Except RunFault KeyReply
  | .get key => (state, (interpreter.get state key).map .content)
  | .set key value => settle state (interpreter.set state key value)
  | .unset key => settle state (interpreter.unset state key)
  | .typeOf key => (state, (interpreter.typeOf key).map .typeName)
  | .apply patch =>
    let (state, result) := interpreter.apply state patch
    (state, result.map fun _ => .done)

/-- Carry out operations from first to last.  A failure ends none but its own. -/
def run (interpreter : Interpreter) (state : RecordState) :
    List KeyOperation → RecordState × List (Except RunFault KeyReply)
  | [] => (state, [])
  | operation :: rest =>
    let (state, answer) := interpreter.perform state operation
    let (state, answers) := interpreter.run state rest
    (state, answer :: answers)

end Interpreter

/-! ## Cells -/

/-- The cell of a key: the leaf it belongs to, and what it holds. -/
structure KeyCell where
  leaf : Leaf
  content : Option Value

/-- The cells of a record by key. -/
abbrev KeyCells := SortedMap KeyCell

namespace KeyCells

/-- The cells of a new record: nothing where the leaf is optional, and null elsewhere. -/
def initial (table : DispatchTable) : KeyCells :=
  .ofList (table.entries.toList.map fun entry =>
    (entry.key, ⟨entry.leaf, if entry.leaf.isOptional then none else some .null⟩))

/-- What the cell of a key holds, under the canonical type of its leaf. -/
def get (cells : KeyCells) (key : String) : Except KeyFault (Option TaggedValue) :=
  match cells.find? key with
  | none => .error (.unknownKey key)
  | some cell => .ok (cell.content.map fun value => ⟨cell.leaf.canonicalType, value⟩)

/-- Fill the cell of a key with a value of the canonical type of its leaf. -/
def set (cells : KeyCells) (key : String) (value : TaggedValue) : Except KeyFault KeyCells :=
  match cells.find? key with
  | none => .error (.unknownKey key)
  | some cell =>
    if value.canonicalType = cell.leaf.canonicalType then
      .ok (cells.insert key { cell with content := some value.value })
    else .error (.typeMismatch key cell.leaf.canonicalType value.canonicalType)

/-- Empty the cell of a key whose leaf is optional. -/
def unset (cells : KeyCells) (key : String) : Except KeyFault KeyCells :=
  match cells.find? key with
  | none => .error (.unknownKey key)
  | some cell =>
    if cell.leaf.isOptional then .ok (cells.insert key { cell with content := none })
    else .error (.notOptional key)

/-- The declared type of the leaf of a key. -/
def typeOf (cells : KeyCells) (key : String) : Except KeyFault String :=
  match cells.find? key with
  | none => .error (.unknownKey key)
  | some cell => .ok cell.leaf.declaredType

/-- Set or unset, as an entry of a patch says. -/
def applyEntry (cells : KeyCells) (key : String) : Option TaggedValue → Except KeyFault KeyCells
  | some value => cells.set key value
  | none => cells.unset key

/-- Set or unset one entry after another, up to the first failure. -/
def applyEntries (cells : KeyCells) :
    List (String × Option TaggedValue) → KeyCells × Except KeyFault Unit
  | [] => (cells, .ok ())
  | (key, value) :: rest =>
    match cells.applyEntry key value with
    | .ok cells => cells.applyEntries rest
    | .error fault => (cells, .error fault)

/-- Carry out one operation. -/
def perform (cells : KeyCells) : KeyOperation → KeyCells × Except KeyFault KeyReply
  | .get key => (cells, (cells.get key).map .content)
  | .set key value => settle cells (cells.set key value)
  | .unset key => settle cells (cells.unset key)
  | .typeOf key => (cells, (cells.typeOf key).map .typeName)
  | .apply patch =>
    let (cells, result) := cells.applyEntries patch.entries
    (cells, result.map fun _ => .done)

/-- Carry out operations from first to last. -/
def run (cells : KeyCells) : List KeyOperation → KeyCells × List (Except KeyFault KeyReply)
  | [] => (cells, [])
  | operation :: rest =>
    let (cells, answer) := cells.perform operation
    let (cells, answers) := run cells rest
    (cells, answer :: answers)

/-- The cells that a state amounts to. -/
def ofState (table : DispatchTable) (state : RecordState) : KeyCells :=
  .ofList (table.entries.toList.map fun entry => (entry.key, ⟨entry.leaf, state.field? entry.dottedId⟩))

/-- The state that cells amount to. -/
def toState (table : DispatchTable) (cells : KeyCells) : RecordState :=
  .ofList (table.entries.toList.map fun entry =>
    (entry.dottedId, (cells.find? entry.key).bind KeyCell.content))

/-! ## The two sides in step -/

/-- Cells and a state that hold the same under the keys and the dotted ids of a table. -/
structure Agree (table : DispatchTable) (cells : KeyCells) (state : RecordState) : Prop where
  /-- There is a cell for each key of the table, and it holds what its field holds. -/
  cell : ∀ key, cells.find? key =
    (table.entryOf? key).map fun entry => ⟨entry.leaf, state.field? entry.dottedId⟩
  /-- The state has the fields of the table and no others. -/
  field : ∀ id, (state.find? id).isSome = true ↔ id ∈ table.entries.toList.map KeyedLeaf.dottedId

variable {m : ReflectionModule}

/-- Entries with different keys have different dotted ids. -/
private theorem dottedId_ne (wellBuilt : m.IsWellBuilt) {key other : String}
    {entry otherEntry : KeyedLeaf} (found : m.table.entryOf? key = some entry)
    (otherFound : m.table.entryOf? other = some otherEntry) (different : key ≠ other) :
    entry.dottedId ≠ otherEntry.dottedId := by
  intro same
  rcases (DispatchTable.entryOf?_eq_some_iff wellBuilt.ascending).mp found with ⟨listed, rfl⟩
  rcases (DispatchTable.entryOf?_eq_some_iff wellBuilt.ascending).mp otherFound with
    ⟨otherListed, rfl⟩
  exact different (congrArg KeyedLeaf.key
    (List.inj_on_of_nodup_map wellBuilt.distinctIds listed otherListed same))

theorem initial_agrees (wellBuilt : m.IsWellBuilt) :
    Agree m.table (initial m.table) (RecordState.new m) := by
  have field : ∀ id, (RecordState.new m).find? id =
      (m.table.entries.toList.find? fun entry => entry.dottedId == id).map fun entry =>
        if entry.leaf.isOptional then none else some Value.null :=
    fun id => SortedMap.find?_ofList_map wellBuilt.distinctIds _ id
  constructor
  · intro key
    rw [initial, SortedMap.find?_ofList_map wellBuilt.ascending.distinctKeys]
    change (m.table.entryOf? key).map _ = (m.table.entryOf? key).map _
    apply Option.map_congr
    intro entry found
    have listed := ((DispatchTable.entryOf?_eq_some_iff wellBuilt.ascending).mp found).1
    rw [RecordState.field?, field, wellBuilt.find?_dottedId listed]
    rfl
  · intro id
    rw [field, Option.isSome_map, List.find?_isSome, List.mem_map]
    simp

/-- A change of one field is a change of one cell. -/
theorem Agree.change (wellBuilt : m.IsWellBuilt) {cells : KeyCells} {state : RecordState}
    (agree : Agree m.table cells state) {key : String} {entry : KeyedLeaf}
    (found : m.table.entryOf? key = some entry) (content : Option Value) :
    Agree m.table (cells.insert key ⟨entry.leaf, content⟩) (state.insert entry.dottedId content) := by
  have listed := ((DispatchTable.entryOf?_eq_some_iff wellBuilt.ascending).mp found).1
  constructor
  · intro other
    rw [SortedMap.find?_insert]
    by_cases same : key = other
    · subst same
      rw [if_pos rfl, found, Option.map_some, RecordState.field?, SortedMap.find?_insert, if_pos rfl]
      rfl
    · rw [if_neg same, agree.cell]
      apply Option.map_congr
      intro otherEntry otherFound
      rw [RecordState.field?, RecordState.field?, SortedMap.find?_insert,
        if_neg (dottedId_ne wellBuilt found otherFound same)]
  · intro id
    rw [SortedMap.find?_insert]
    by_cases same : entry.dottedId = id
    · rw [if_pos same, ← same]
      exact iff_of_true rfl (List.mem_map_of_mem listed)
    · rw [if_neg same]
      exact agree.field id

variable {interpreter : Interpreter}

theorem Agree.get (wellBuilt : interpreter.module.IsWellBuilt) {cells : KeyCells}
    {state : RecordState} (agree : Agree interpreter.module.table cells state) (key : String) :
    interpreter.get state key = (cells.get key).mapError .key := by
  rw [Interpreter.get_eq wellBuilt.toIsKeyed, KeyCells.get, agree.cell]
  cases interpreter.module.table.entryOf? key <;> rfl

theorem Agree.typeOf (wellBuilt : interpreter.module.IsWellBuilt) {cells : KeyCells}
    {state : RecordState} (agree : Agree interpreter.module.table cells state) (key : String) :
    interpreter.typeOf key = (cells.typeOf key).mapError .key := by
  rw [Interpreter.typeOf_eq wellBuilt.toIsKeyed, KeyCells.typeOf, agree.cell]
  cases interpreter.module.table.entryOf? key <;> rfl

/-- Two changes that fail alike, or succeed with cells and a state that agree. -/
def ChangesAgree (table : DispatchTable) (cells : Except KeyFault KeyCells)
    (state : Except RunFault RecordState) : Prop :=
  (∃ fault, cells = .error fault ∧ state = .error (.key fault)) ∨
  ∃ nextCells nextState, cells = .ok nextCells ∧ state = .ok nextState ∧
    Agree table nextCells nextState

theorem Agree.applyEntry (wellBuilt : interpreter.module.IsWellBuilt) {cells : KeyCells}
    {state : RecordState} (agree : Agree interpreter.module.table cells state) (key : String)
    (change : Option TaggedValue) :
    ChangesAgree interpreter.module.table (cells.applyEntry key change)
      (interpreter.applyEntry state key change) := by
  have cell := agree.cell key
  cases found : interpreter.module.table.entryOf? key with
  | none =>
      rw [found, Option.map_none] at cell
      cases change with
      | none =>
          refine .inl ⟨.unknownKey key, ?_, ?_⟩
          · rw [KeyCells.applyEntry, unset, cell]
          · rw [Interpreter.applyEntry, Interpreter.unset_eq wellBuilt.toIsKeyed, found]
      | some value =>
          refine .inl ⟨.unknownKey key, ?_, ?_⟩
          · rw [KeyCells.applyEntry, set, cell]
          · rw [Interpreter.applyEntry, Interpreter.set_eq wellBuilt.toIsKeyed, found]
  | some entry =>
      rw [found, Option.map_some] at cell
      cases change with
      | none =>
          rw [KeyCells.applyEntry, unset, cell, Interpreter.applyEntry,
            Interpreter.unset_eq wellBuilt.toIsKeyed, found]
          dsimp only
          by_cases optional : entry.leaf.isOptional = true
          · rw [if_pos optional, if_pos optional]
            exact .inr ⟨_, _, rfl, rfl, agree.change wellBuilt found none⟩
          · rw [if_neg optional, if_neg optional]
            exact .inl ⟨_, rfl, rfl⟩
      | some value =>
          rw [KeyCells.applyEntry, set, cell, Interpreter.applyEntry,
            Interpreter.set_eq wellBuilt.toIsKeyed, found]
          dsimp only
          by_cases fits : value.canonicalType = entry.leaf.canonicalType
          · rw [if_pos fits, if_pos fits]
            exact .inr ⟨_, _, rfl, rfl, agree.change wellBuilt found (some value.value)⟩
          · rw [if_neg fits, if_neg fits]
            exact .inl ⟨_, rfl, rfl⟩

/-- Entries are applied alike, up to the same first failure. -/
theorem Agree.applyEntries (wellBuilt : interpreter.module.IsWellBuilt) {cells : KeyCells}
    {state : RecordState} (agree : Agree interpreter.module.table cells state)
    (entries : List (String × Option TaggedValue)) :
    Agree interpreter.module.table (cells.applyEntries entries).1
      (interpreter.applyEntries state entries).1 ∧
    (interpreter.applyEntries state entries).2 = (cells.applyEntries entries).2.mapError .key := by
  induction entries generalizing cells state with
  | nil => exact ⟨agree, rfl⟩
  | cons entry rest ih =>
      rcases entry with ⟨key, change⟩
      rw [KeyCells.applyEntries, Interpreter.applyEntries]
      rcases agree.applyEntry wellBuilt key change with
        ⟨fault, cellsFailed, stateFailed⟩ | ⟨nextCells, nextState, cellsOk, stateOk, next⟩
      · rw [cellsFailed, stateFailed]
        exact ⟨agree, rfl⟩
      · rw [cellsOk, stateOk]
        exact ih next

private theorem settle_agrees {table : DispatchTable} {cells : KeyCells} {state : RecordState}
    (agree : Agree table cells state) {nextCells : Except KeyFault KeyCells}
    {nextState : Except RunFault RecordState} (next : ChangesAgree table nextCells nextState) :
    Agree table (settle cells nextCells).1 (settle state nextState).1 ∧
    (settle state nextState).2 = (settle cells nextCells).2.mapError .key := by
  rcases next with ⟨fault, rfl, rfl⟩ | ⟨nextCells, nextState, rfl, rfl, next⟩
  · exact ⟨agree, rfl⟩
  · exact ⟨next, rfl⟩

/-- One operation keeps cells and state in step and is answered alike. -/
theorem Agree.perform (wellBuilt : interpreter.module.IsWellBuilt) {cells : KeyCells}
    {state : RecordState} (agree : Agree interpreter.module.table cells state)
    (operation : KeyOperation) :
    Agree interpreter.module.table (cells.perform operation).1 (interpreter.perform state operation).1 ∧
    (interpreter.perform state operation).2 = (cells.perform operation).2.mapError .key := by
  cases operation with
  | get key =>
      refine ⟨agree, ?_⟩
      simp only [Interpreter.perform, KeyCells.perform, agree.get wellBuilt]
      cases cells.get key <;> rfl
  | set key value => exact settle_agrees agree (agree.applyEntry wellBuilt key (some value))
  | unset key => exact settle_agrees agree (agree.applyEntry wellBuilt key none)
  | typeOf key =>
      refine ⟨agree, ?_⟩
      simp only [Interpreter.perform, KeyCells.perform, agree.typeOf wellBuilt]
      cases cells.typeOf key <;> rfl
  | apply patch =>
      rcases agree.applyEntries wellBuilt patch.entries with ⟨next, result⟩
      refine ⟨next, ?_⟩
      simp only [Interpreter.perform, KeyCells.perform, Interpreter.apply, result]
      cases (cells.applyEntries patch.entries).2 <;> rfl

/-- The induction is on the operations; the agreement of cells and state is what every step hands
on. -/
theorem Agree.run (wellBuilt : interpreter.module.IsWellBuilt) {cells : KeyCells}
    {state : RecordState} (agree : Agree interpreter.module.table cells state)
    (operations : List KeyOperation) :
    Agree interpreter.module.table (cells.run operations).1 (interpreter.run state operations).1 ∧
    (interpreter.run state operations).2 =
      (cells.run operations).2.map fun answer => answer.mapError .key := by
  induction operations generalizing cells state with
  | nil => exact ⟨agree, rfl⟩
  | cons operation rest ih =>
      rcases agree.perform wellBuilt operation with ⟨next, answer⟩
      rcases ih next with ⟨last, answers⟩
      refine ⟨last, ?_⟩
      simp only [Interpreter.run, KeyCells.run, List.map_cons]
      rw [answer, answers]

/-! ## The two sides determine each other -/

theorem Agree.ofState_eq (wellBuilt : m.IsWellBuilt) {cells : KeyCells} {state : RecordState}
    (agree : Agree m.table cells state) : ofState m.table state = cells := by
  apply SortedMap.ext_find?
  intro key
  rw [ofState, SortedMap.find?_ofList_map wellBuilt.ascending.distinctKeys, agree.cell]
  rfl

theorem Agree.toState_eq (wellBuilt : m.IsWellBuilt) {cells : KeyCells} {state : RecordState}
    (agree : Agree m.table cells state) : toState m.table cells = state := by
  apply SortedMap.ext_find?
  intro id
  rw [toState, SortedMap.find?_ofList_map wellBuilt.distinctIds]
  cases found : m.table.entries.toList.find? fun entry => entry.dottedId == id with
  | none =>
      have unlisted : id ∉ m.table.entries.toList.map KeyedLeaf.dottedId := by
        intro listed
        rcases List.mem_map.mp listed with ⟨entry, inside, same⟩
        exact List.find?_eq_none.mp found entry inside (beq_iff_eq.mpr same)
      have missing := mt (agree.field id).mp unlisted
      rw [Bool.not_eq_true, Option.isSome_eq_false_iff, Option.isNone_iff_eq_none] at missing
      rw [missing]
      rfl
  | some entry =>
      rcases (SortedMap.find?_eq_some_iff_of_distinct wellBuilt.distinctIds).mp found with
        ⟨listed, same⟩
      have known := (DispatchTable.entryOf?_eq_some_iff wellBuilt.ascending).mpr ⟨listed, rfl⟩
      have there := (agree.field id).mpr (same ▸ List.mem_map_of_mem listed)
      rcases Option.isSome_iff_exists.mp there with ⟨content, held⟩
      have holds : state.field? entry.dottedId = content := by
        rw [RecordState.field?, same, held]
        rfl
      rw [Option.map_some, agree.cell, known, held, Option.map_some, Option.bind_some, holds]

/-- Whatever is done to a new record of a module, by key and with any keys and values, is answered as
cells under keys answer it; and the record is at all times the one that the cells amount to, as the
cells are those that the record amounts to. -/
theorem run_eq_cells {record : Record} {options : GenerateOptions} {interpreter : Interpreter}
    (plain : record.tree.HasPlainNames)
    (built : buildModule record options = .ok interpreter.module)
    (operations : List KeyOperation) :
    let table := interpreter.module.table
    let ran := interpreter.run (RecordState.new interpreter.module) operations
    let expected := (initial table).run operations
    ran.2 = expected.2.map (fun answer => answer.mapError .key) ∧
      ran.1 = toState table expected.1 ∧ expected.1 = ofState table ran.1 := by
  have wellBuilt := buildModule_wellBuilt plain built
  rcases (initial_agrees wellBuilt).run wellBuilt operations with ⟨last, answers⟩
  exact ⟨answers, (last.toState_eq wellBuilt).symm, (last.ofState_eq wellBuilt).symm⟩

theorem run_eq_cells_window : ∃ interpreter : Interpreter,
    Record.window.tree.HasPlainNames ∧
      buildModule Record.window .slashed = .ok interpreter.module ∧
      let operations : List KeyOperation :=
        [.set "size/width" ⟨"int", .integer 3⟩, .unset "title", .get "size/width", .typeOf "size"]
      let table := interpreter.module.table
      let ran := interpreter.run (RecordState.new interpreter.module) operations
      let expected := (initial table).run operations
      ran.2 = expected.2.map (fun answer => answer.mapError .key) ∧
        ran.1 = toState table expected.1 ∧ expected.1 = ofState table ran.1 := by
  rcases buildModule_window with ⟨m, built⟩
  have plain : Record.window.tree.HasPlainNames := by decide
  exact ⟨.new m, plain, built, run_eq_cells plain built _⟩

end KeyCells
end KeyedReflection
