import KeyedReflection.Proofs.Interpreter.Reachable

/-!
# Differences and patches

A difference is taken by dotted id, and applied by key and canonical type.  For each entry of the table
the two views meet: `diff_find?` reads a difference off the table, and `apply_diff` writes it back.
Writing succeeds because no field of a record is without a value unless it is optional.
-/

namespace KeyedReflection

open Json (Value)

/-! ## Comparing answers -/

/-- Equality of tagged values: the same canonical type, and the same as JSON values. -/
def TaggedValue.same (left right : TaggedValue) : Bool :=
  left.canonicalType == right.canonicalType && left.value.same right.value

/-- Whether two answers of `Interpreter.get` are equal. -/
def TaggedValue.sameContent : Option TaggedValue → Option TaggedValue → Bool
  | none, none => true
  | some left, some right => left.same right
  | _, _ => false

/-- The content of an entry's field under the canonical type of its leaf. -/
def KeyedLeaf.tagged (entry : KeyedLeaf) (content : Option Value) : Option TaggedValue :=
  content.map fun value => ⟨entry.leaf.canonicalType, value⟩

theorem KeyedLeaf.sameContent_tagged (entry : KeyedLeaf) (left right : Option Value) :
    TaggedValue.sameContent (entry.tagged left) (entry.tagged right) =
      RecordState.sameContents left right := by
  cases left <;> cases right <;>
    simp [tagged, TaggedValue.sameContent, TaggedValue.same, RecordState.sameContents]

namespace Interpreter

variable {interpreter : Interpreter}

/-! ## Taking a difference -/

private theorem canonicalTypeOf_eq (wellBuilt : interpreter.module.IsWellBuilt) {key : String}
    {entry : KeyedLeaf} (found : interpreter.module.table.entryOf? key = some entry) :
    interpreter.canonicalTypeOf key = entry.leaf.canonicalType := by
  rcases DispatchTable.lookup_cases wellBuilt.ascending key with
    ⟨_, unknown⟩ | ⟨index, other, place, there, known⟩
  · rw [unknown] at found
    cases found
  · rw [known] at found
    cases found
    rw [canonicalTypeOf, place]
    exact canonicalTypeAt_eq there

/-- The fields of entries with distinct keys are taken up independently of each other. -/
private theorem find?_foldl_diffField (wellBuilt : interpreter.module.IsWellBuilt)
    (current previous : RecordState) {entries : List KeyedLeaf}
    (listed : ∀ entry ∈ entries, interpreter.module.table.entryOf? entry.key = some entry)
    (distinct : (entries.map KeyedLeaf.key).Nodup) (patch : Patch) (key : String) :
    ((entries.map fun entry => (⟨entry.dottedId, entry.key⟩ : DiffField)).foldl
        (interpreter.diffField current previous) patch).find? key =
      match entries.find? fun entry => entry.key == key with
      | none => patch.find? key
      | some entry =>
        if RecordState.sameContents (current.field? entry.dottedId) (previous.field? entry.dottedId)
        then patch.find? key
        else some (entry.tagged (current.field? entry.dottedId)) := by
  induction entries generalizing patch with
  | nil => rfl
  | cons entry rest ih =>
      rcases List.forall_mem_cons.mp listed with ⟨first, others⟩
      rcases List.nodup_cons.mp distinct with ⟨alone, restDistinct⟩
      rw [List.map_cons, List.foldl_cons, ih others restDistinct, List.find?_cons]
      by_cases same : entry.key = key
      · have missing : (rest.find? fun other => other.key == key) = none := by
          rw [List.find?_eq_none]
          intro other inside equal
          exact alone (List.mem_map.mpr ⟨other, inside, (beq_iff_eq.mp equal).trans same.symm⟩)
        rw [missing, beq_iff_eq.mpr same]
        dsimp only
        rw [diffField, canonicalTypeOf_eq wellBuilt first]
        dsimp only
        split
        · rfl
        · rw [SortedMap.find?_insert, if_pos same]
          rfl
      · rw [beq_false_of_ne same]
        dsimp only
        have untouched : (interpreter.diffField current previous patch
            ⟨entry.dottedId, entry.key⟩).find? key = patch.find? key := by
          rw [diffField]
          dsimp only
          split
          · rfl
          · rw [SortedMap.find?_insert, if_neg same]
        rw [untouched]

/-- A difference has an entry's key when the two records differ in its field. -/
theorem diff_find? (wellBuilt : interpreter.module.IsWellBuilt) (current previous : RecordState)
    (key : String) :
    (interpreter.diff current previous).find? key =
      match interpreter.module.table.entryOf? key with
      | none => none
      | some entry =>
        if RecordState.sameContents (current.field? entry.dottedId) (previous.field? entry.dottedId)
        then none
        else some (entry.tagged (current.field? entry.dottedId)) := by
  have fixed : ReflectionModule.diffFunction interpreter.module.table ∈
      ReflectionModule.fixedFunctions interpreter.module.table interpreter.module.valueType := by
    simp [ReflectionModule.fixedFunctions]
  have found : interpreter.module.function? .diff =
      some (ReflectionModule.diffFunction interpreter.module.table) :=
    wellBuilt.function?_fixed fixed rfl
  have known : ∀ entry ∈ interpreter.module.table.entries.toList,
      interpreter.module.table.entryOf? entry.key = some entry :=
    fun entry listed => (DispatchTable.entryOf?_eq_some_iff wellBuilt.ascending).mpr ⟨listed, rfl⟩
  rw [diff, found, Option.map_some]
  change (List.foldl _ _ _ : Patch).find? key = _
  rw [find?_foldl_diffField wellBuilt current previous known wellBuilt.ascending.distinctKeys]
  rw [SortedMap.find?_empty, DispatchTable.entryOf?]

/-! ## Comparing records -/

end Interpreter

namespace RecordState

variable {m : ReflectionModule}

theorem Fits.find?_dottedId {state : RecordState} (fits : Fits m.table state) {entry : KeyedLeaf}
    (listed : entry ∈ m.table.entries.toList) :
    state.find? entry.dottedId = some (state.field? entry.dottedId) := by
  have there := (fits.fields entry.dottedId).mpr (List.mem_map_of_mem listed)
  rcases Option.isSome_iff_exists.mp there with ⟨content, held⟩
  rw [field?, held]
  rfl

theorem sameContents_refl {content : Option Value}
    (comparable : ∀ value, content = some value → value.HasDistinctNames) :
    sameContents content content = true := by
  cases content with
  | none => rfl
  | some value => exact value.same_refl (comparable value rfl)

theorem sameContents_symm {left right : Option Value}
    (leftComparable : ∀ value, left = some value → value.HasDistinctNames)
    (rightComparable : ∀ value, right = some value → value.HasDistinctNames)
    (same : sameContents left right = true) : sameContents right left = true := by
  cases left with
  | none =>
      cases right with
      | none => rfl
      | some value => cases same
  | some leftValue =>
      cases right with
      | none => cases same
      | some rightValue =>
          exact leftValue.same_symm rightValue (leftComparable leftValue rfl)
            (rightComparable rightValue rfl) same

/-- Records of one table are the same when they are so in the field of every entry. -/
theorem Fits.same_iff {left right : RecordState} (leftFits : Fits m.table left)
    (rightFits : Fits m.table right) :
    left.same right = true ↔ ∀ entry ∈ m.table.entries.toList,
      sameContents (left.field? entry.dottedId) (right.field? entry.dottedId) = true := by
  rw [same, SortedMap.sameBy_iff]
  constructor
  · intro agree entry listed
    have related := agree entry.dottedId
    rw [leftFits.find?_dottedId listed, rightFits.find?_dottedId listed] at related
    cases related with
    | some same => exact same
  · intro agree id
    by_cases known : id ∈ m.table.entries.toList.map KeyedLeaf.dottedId
    · rcases List.mem_map.mp known with ⟨entry, listed, rfl⟩
      rw [leftFits.find?_dottedId listed, rightFits.find?_dottedId listed]
      exact .some (agree entry listed)
    · have leftMissing := mt (leftFits.fields id).mp known
      have rightMissing := mt (rightFits.fields id).mp known
      rw [Option.not_isSome_iff_eq_none] at leftMissing rightMissing
      rw [leftMissing, rightMissing]
      exact .none

end RecordState

namespace Interpreter

variable {interpreter : Interpreter}

theorem diff_eq_empty_iff (wellBuilt : interpreter.module.IsWellBuilt)
    (current previous : RecordState) :
    interpreter.diff current previous = .empty ↔
      ∀ entry ∈ interpreter.module.table.entries.toList,
        RecordState.sameContents (current.field? entry.dottedId)
          (previous.field? entry.dottedId) = true := by
  constructor
  · intro empty entry listed
    have known := (DispatchTable.entryOf?_eq_some_iff wellBuilt.ascending).mpr ⟨listed, rfl⟩
    have nothing := diff_find? wellBuilt current previous entry.key
    rw [empty, SortedMap.find?_empty, known] at nothing
    dsimp only at nothing
    by_contra different
    rw [if_neg different] at nothing
    cases nothing
  · intro agree
    apply SortedMap.ext_find?
    intro key
    rw [diff_find? wellBuilt, SortedMap.find?_empty]
    cases known : interpreter.module.table.entryOf? key with
    | none => rfl
    | some entry =>
        have listed := ((DispatchTable.entryOf?_eq_some_iff wellBuilt.ascending).mp known).1
        exact if_pos (agree entry listed)

/-! ## Applying a difference -/

/-- What a record holds in a field can be written into any other record. -/
private theorem applyEntry_tagged (wellBuilt : interpreter.module.IsWellBuilt)
    {current : RecordState} (fits : current.Fits interpreter.module.table) (state : RecordState)
    {key : String} {entry : KeyedLeaf}
    (found : interpreter.module.table.entryOf? key = some entry) :
    interpreter.applyEntry state key (entry.tagged (current.field? entry.dottedId)) =
      .ok (state.insert entry.dottedId (current.field? entry.dottedId)) := by
  have listed := ((DispatchTable.entryOf?_eq_some_iff wellBuilt.ascending).mp found).1
  cases held : current.field? entry.dottedId with
  | none =>
      have optional : entry.leaf.isOptional = true := by
        by_contra required
        have filled := fits.filled entry listed (Bool.not_eq_true _ ▸ required)
        rw [held] at filled
        cases filled
      rw [KeyedLeaf.tagged, Option.map_none, applyEntry, unset_eq wellBuilt.toIsKeyed, found]
      exact if_pos optional
  | some value =>
      rw [KeyedLeaf.tagged, Option.map_some, applyEntry, set_eq wellBuilt.toIsKeyed, found]
      exact if_pos rfl

/-- Entries that say what a record holds are all applied.  Afterwards their fields are as in that
record, and the others as they were. -/
private theorem applyEntries_tagged (wellBuilt : interpreter.module.IsWellBuilt)
    {current : RecordState} (fits : current.Fits interpreter.module.table) (state : RecordState)
    {changes : List (String × Option TaggedValue)}
    (tagged : ∀ change ∈ changes, ∃ entry, interpreter.module.table.entryOf? change.1 = some entry ∧
      change.2 = entry.tagged (current.field? entry.dottedId)) :
    ∃ patched, interpreter.applyEntries state changes = (patched, .ok ()) ∧
      ∀ entry ∈ interpreter.module.table.entries.toList, patched.field? entry.dottedId =
        if entry.key ∈ changes.map Prod.fst then current.field? entry.dottedId
        else state.field? entry.dottedId := by
  induction changes generalizing state with
  | nil => exact ⟨state, rfl, fun entry _ => (if_neg List.not_mem_nil).symm⟩
  | cons change rest ih =>
      rcases change with ⟨key, change⟩
      rcases List.forall_mem_cons.mp tagged with ⟨⟨changed, found, holds⟩, others⟩
      rcases (DispatchTable.entryOf?_eq_some_iff wellBuilt.ascending).mp found with ⟨listed, rfl⟩
      rcases ih (state.insert changed.dottedId (current.field? changed.dottedId)) others with
        ⟨patched, ran, fields⟩
      refine ⟨patched, ?_, ?_⟩
      · dsimp only at holds
        rw [applyEntries, holds, applyEntry_tagged wellBuilt fits state found]
        exact ran
      · intro entry inside
        rw [fields entry inside, RecordState.field?_insert, List.map_cons]
        by_cases later : entry.key ∈ rest.map Prod.fst
        · rw [if_pos later, if_pos (List.mem_cons_of_mem _ later)]
        · rw [if_neg later]
          by_cases same : changed.dottedId = entry.dottedId
          · have sameEntry := List.inj_on_of_nodup_map wellBuilt.distinctIds listed inside same
            subst sameEntry
            rw [if_pos rfl, if_pos List.mem_cons_self]
          · have elsewhere : entry.key ∉ changed.key :: rest.map Prod.fst := by
              intro named
              rcases List.mem_cons.mp named with sameKey | inRest
              · have sameEntry := List.inj_on_of_nodup_map wellBuilt.ascending.distinctKeys
                  inside listed sameKey
                exact same (congrArg KeyedLeaf.dottedId sameEntry.symm)
              · exact later inRest
            rw [if_neg same, if_neg elsewhere]

/-- An entry of a difference belongs to a key of the table, and says what the current record holds. -/
private theorem mem_entries_diff (wellBuilt : interpreter.module.IsWellBuilt)
    {current previous : RecordState} {change : String × Option TaggedValue}
    (listed : change ∈ (interpreter.diff current previous).entries) :
    ∃ entry, interpreter.module.table.entryOf? change.1 = some entry ∧
      change.2 = entry.tagged (current.field? entry.dottedId) := by
  have found := SortedMap.mem_entries.mp listed
  rw [diff_find? wellBuilt] at found
  cases known : interpreter.module.table.entryOf? change.1 with
  | none =>
      rw [known] at found
      cases found
  | some entry =>
      rw [known] at found
      dsimp only at found
      split at found
      · cases found
      · exact ⟨entry, rfl, (Option.some.inj found).symm⟩

/-- A difference has the keys whose answers differ, with the answer of the current record. -/
theorem diff_find?_eq_some_iff (wellBuilt : interpreter.module.IsWellBuilt)
    (current previous : RecordState) (key : String) (change : Option TaggedValue) :
    (interpreter.diff current previous).find? key = some change ↔
      key ∈ interpreter.module.table.entries.toList.map KeyedLeaf.key ∧
      ∃ held, interpreter.get current key = .ok change ∧
        interpreter.get previous key = .ok held ∧ TaggedValue.sameContent change held = false := by
  rw [diff_find? wellBuilt, get_eq wellBuilt.toIsKeyed, get_eq wellBuilt.toIsKeyed]
  cases known : interpreter.module.table.entryOf? key with
  | none => simp
  | some entry =>
      rcases (DispatchTable.entryOf?_eq_some_iff wellBuilt.ascending).mp known with ⟨listed, rfl⟩
      have decides := entry.sameContent_tagged (current.field? entry.dottedId)
        (previous.field? entry.dottedId)
      dsimp only
      constructor
      · intro found
        split at found
        · cases found
        · rename_i different
          cases found
          refine ⟨List.mem_map_of_mem listed, _, rfl, rfl, ?_⟩
          exact decides.trans (Bool.not_eq_true _ ▸ different)
      · rintro ⟨-, held, now, before, different⟩
        cases now
        cases before
        have differs := decides.symm.trans different
        rw [if_neg (Bool.not_eq_true _ ▸ differs)]
        rfl

theorem apply_diff (wellBuilt : interpreter.module.IsWellBuilt) {current previous : RecordState}
    (currentFits : current.Fits interpreter.module.table)
    (previousFits : previous.Fits interpreter.module.table) :
    ∃ patched, interpreter.apply previous (interpreter.diff current previous) = (patched, .ok ()) ∧
      patched.same current = true ∧ interpreter.diff patched current = .empty := by
  have tagged : ∀ change ∈ (interpreter.diff current previous).entries,
      ∃ entry, interpreter.module.table.entryOf? change.1 = some entry ∧
        change.2 = entry.tagged (current.field? entry.dottedId) :=
    fun change listed => mem_entries_diff wellBuilt listed
  rcases applyEntries_tagged wellBuilt currentFits previous tagged with ⟨patched, ran, fields⟩
  have comparable : ∀ change ∈ (interpreter.diff current previous).entries,
      RecordState.IsComparable change.2 := by
    intro change listed value same
    rcases tagged change listed with ⟨entry, -, holds⟩
    rw [same, KeyedLeaf.tagged] at holds
    rcases Option.map_eq_some_iff.mp holds.symm with ⟨inside, held, rfl⟩
    exact currentFits.comparable _ inside held
  have patchedFits := previousFits.applyEntries wellBuilt comparable
  rw [ran] at patchedFits
  have agree : ∀ entry ∈ interpreter.module.table.entries.toList,
      RecordState.sameContents (patched.field? entry.dottedId)
        (current.field? entry.dottedId) = true := by
    intro entry listed
    rw [fields entry listed]
    by_cases changed : entry.key ∈ (interpreter.diff current previous).entries.map Prod.fst
    · rw [if_pos changed]
      exact RecordState.sameContents_refl (currentFits.comparable entry.dottedId)
    · rw [if_neg changed]
      -- A key without a change is one where the records were the same from the start.
      apply RecordState.sameContents_symm (currentFits.comparable entry.dottedId)
        (previousFits.comparable entry.dottedId)
      by_contra different
      apply changed
      have known := (DispatchTable.entryOf?_eq_some_iff wellBuilt.ascending).mpr ⟨listed, rfl⟩
      have found := diff_find? wellBuilt current previous entry.key
      rw [known] at found
      dsimp only at found
      rw [if_neg different] at found
      exact List.mem_map.mpr ⟨_, SortedMap.mem_entries.mpr found, rfl⟩
  exact ⟨patched, ran, (patchedFits.same_iff currentFits).mpr agree,
    (diff_eq_empty_iff wellBuilt patched current).mpr agree⟩

/-- The difference of two records has the keys whose answers differ, and leads from the second record
to the first; and there is none between equal records only. -/
theorem diff_spec {record : Record} {options : GenerateOptions} {interpreter : Interpreter}
    (plain : record.tree.HasPlainNames)
    (built : buildModule record options = .ok interpreter.module) {current previous : RecordState}
    (currentReached : interpreter.Reaches current)
    (previousReached : interpreter.Reaches previous) :
    (∀ key change, (interpreter.diff current previous).find? key = some change ↔
      key ∈ interpreter.module.table.entries.toList.map KeyedLeaf.key ∧
      ∃ held, interpreter.get current key = .ok change ∧
        interpreter.get previous key = .ok held ∧ TaggedValue.sameContent change held = false) ∧
    (∃ patched, interpreter.apply previous (interpreter.diff current previous) = (patched, .ok ()) ∧
      patched.same current = true ∧ interpreter.diff patched current = .empty) ∧
    (interpreter.diff current previous = .empty ↔ current.same previous = true) := by
  have wellBuilt := buildModule_wellBuilt plain built
  have currentFits := currentReached.fits wellBuilt
  have previousFits := previousReached.fits wellBuilt
  refine ⟨diff_find?_eq_some_iff wellBuilt current previous,
    apply_diff wellBuilt currentFits previousFits, ?_⟩
  rw [diff_eq_empty_iff wellBuilt, currentFits.same_iff previousFits]

/-- The records differ in the value of an optional field, which the second record is without. -/
theorem diff_spec_window : ∃ interpreter : Interpreter,
    Record.window.tree.HasPlainNames ∧
      buildModule Record.window .slashed = .ok interpreter.module ∧
      let filled := (interpreter.run (.new interpreter.module)
        [.set "size/width" ⟨"int", .integer 3⟩]).1
      let emptied := (interpreter.run (.new interpreter.module) [.unset "size/width"]).1
      interpreter.Reaches filled ∧ interpreter.Reaches emptied ∧
      (∀ key change, (interpreter.diff filled emptied).find? key = some change ↔
        key ∈ interpreter.module.table.entries.toList.map KeyedLeaf.key ∧
        ∃ held, interpreter.get filled key = .ok change ∧
          interpreter.get emptied key = .ok held ∧ TaggedValue.sameContent change held = false) ∧
      (∃ patched, interpreter.apply emptied (interpreter.diff filled emptied) = (patched, .ok ()) ∧
        patched.same filled = true ∧ interpreter.diff patched filled = .empty) ∧
      (interpreter.diff filled emptied = .empty ↔ filled.same emptied = true) := by
  rcases buildModule_window with ⟨m, built⟩
  have plain : Record.window.tree.HasPlainNames := by decide
  have distinct : ∀ operation ∈ [KeyOperation.set "size/width" ⟨"int", .integer 3⟩],
      operation.HasDistinctNames := by
    intro operation listed
    rw [List.mem_singleton.mp listed]
    trivial
  have filled : (Interpreter.new m).Reaches ((Interpreter.new m).run (.new m)
      [.set "size/width" ⟨"int", .integer 3⟩]).1 := ⟨_, distinct, rfl⟩
  have emptied : (Interpreter.new m).Reaches ((Interpreter.new m).run (.new m)
      [.unset "size/width"]).1 := by
    refine ⟨_, ?_, rfl⟩
    intro operation listed
    rw [List.mem_singleton.mp listed]
    trivial
  exact ⟨.new m, plain, built, filled, emptied, diff_spec plain built filled emptied⟩

end Interpreter
end KeyedReflection
