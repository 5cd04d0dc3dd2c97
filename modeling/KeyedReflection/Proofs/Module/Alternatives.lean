import KeyedReflection.Proofs.Interpreter.Operations

/-!
# The alternatives of a module

The value type of a module, the types that its functions take and give, and the declared types in the
documentation are read off the table each in its own way.  They have to agree: a value of a canonical type
without an alternative could not be kept in the value type, and a declared type that is documented should
be given for some key.

The value type is collected from one entry after another.  What is there in the end is what some entry
brought (`ValueType.mem_alternatives`, `ValueType.declares_ofLeaves`), and everything else follows from
that (`alternatives_spec`).
-/

namespace KeyedReflection

/-! ## Collecting the types of leaves -/

namespace ValueType

/-- A declared type stands beside an alternative. -/
def Declares (valueType : ValueType) (canonicalType declaredType : String) : Prop :=
  ∃ declared, valueType.alternatives.find? canonicalType = some declared ∧
    declaredType ∈ declared.keys

theorem mem_alternatives_addLeaf {valueType : ValueType} {leaf : Leaf} {canonicalType : String} :
    canonicalType ∈ (valueType.addLeaf leaf).alternatives.keys ↔
      canonicalType ∈ valueType.alternatives.keys ∨ leaf.canonicalType = canonicalType :=
  SortedMap.mem_keys_insert

theorem declares_addLeaf {valueType : ValueType} {leaf : Leaf} {canonicalType declaredType : String} :
    (valueType.addLeaf leaf).Declares canonicalType declaredType ↔
      valueType.Declares canonicalType declaredType ∨
        leaf.canonicalType = canonicalType ∧ leaf.declaredType = declaredType := by
  rw [Declares, Declares, addLeaf]
  by_cases same : leaf.canonicalType = canonicalType
  · subst same
    rw [SortedMap.find?_insert, if_pos rfl]
    cases valueType.alternatives.find? leaf.canonicalType with
    | none => simp [SortedMap.mem_keys]
    | some declared => simp [SortedMap.mem_keys_insert]
  · rw [SortedMap.find?_insert, if_neg same]
    simp [same]

/-- The alternatives are the canonical types of the leaves. -/
theorem mem_alternatives {leaves : List KeyedLeaf} {canonicalType : String} :
    canonicalType ∈ (ofLeaves leaves).alternatives.keys ↔
      ∃ keyed ∈ leaves, keyed.leaf.canonicalType = canonicalType := by
  have each : ∀ (valueType : ValueType) (keyed : KeyedLeaf),
      canonicalType ∈ (valueType.addLeaf keyed.leaf).alternatives.keys ↔
        canonicalType ∈ valueType.alternatives.keys ∨ keyed.leaf.canonicalType = canonicalType :=
    fun _ _ => mem_alternatives_addLeaf
  rw [ofLeaves, SortedMap.foldl_iff (fun valueType : ValueType => canonicalType ∈
    valueType.alternatives.keys) each]
  simp [SortedMap.mem_keys]

/-- Beside an alternative stand the declared types of the leaves with that canonical type. -/
theorem declares_ofLeaves {leaves : List KeyedLeaf} {canonicalType declaredType : String} :
    (ofLeaves leaves).Declares canonicalType declaredType ↔
      ∃ keyed ∈ leaves, keyed.leaf.canonicalType = canonicalType ∧
        keyed.leaf.declaredType = declaredType := by
  have each : ∀ (valueType : ValueType) (keyed : KeyedLeaf),
      (valueType.addLeaf keyed.leaf).Declares canonicalType declaredType ↔
        valueType.Declares canonicalType declaredType ∨
          keyed.leaf.canonicalType = canonicalType ∧ keyed.leaf.declaredType = declaredType :=
    fun _ _ => declares_addLeaf
  rw [ofLeaves, SortedMap.foldl_iff (fun valueType : ValueType =>
    valueType.Declares canonicalType declaredType) each]
  simp [Declares]

theorem mem_declaredTypes {valueType : ValueType} {declaredType : String} :
    declaredType ∈ valueType.declaredTypes ↔
      ∃ canonicalType, valueType.Declares canonicalType declaredType := by
  have each : ∀ (all : SortedSet) (name : String),
      declaredType ∈ (all.insert name ()).keys ↔ declaredType ∈ all.keys ∨ name = declaredType :=
    fun _ _ => SortedMap.mem_keys_insert
  have eachSet : ∀ (all : SortedSet) (entry : String × SortedSet),
      declaredType ∈ (entry.2.keys.foldl (fun all name => all.insert name ()) all).keys ↔
        declaredType ∈ all.keys ∨ declaredType ∈ entry.2.keys := by
    intro all entry
    rw [SortedMap.foldl_iff (fun all : SortedSet => declaredType ∈ all.keys) each]
    simp
  rw [declaredTypes, SortedMap.foldl_iff (fun all : SortedSet => declaredType ∈ all.keys) eachSet]
  simp [Declares, SortedMap.mem_keys]

theorem ascending_declaredTypes (valueType : ValueType) :
    valueType.declaredTypes.Pairwise (· < ·) :=
  SortedMap.ascending_keys _

/-- An alternative has no alias note when no leaf declares it otherwise. -/
theorem aliasNote?_eq_none_iff {leaves : List KeyedLeaf} {canonicalType : String} :
    (ofLeaves leaves).aliasNote? canonicalType = none ↔
      ∀ keyed ∈ leaves, keyed.leaf.canonicalType = canonicalType →
        keyed.leaf.declaredType = canonicalType := by
  have seen : ∀ keyed ∈ leaves, keyed.leaf.canonicalType = canonicalType →
      (ofLeaves leaves).Declares canonicalType keyed.leaf.declaredType :=
    fun keyed listed same => declares_ofLeaves.mpr ⟨keyed, listed, same, rfl⟩
  rw [aliasNote?]
  cases found : (ofLeaves leaves).alternatives.find? canonicalType with
  | none =>
      refine iff_of_true rfl ?_
      intro keyed listed same
      rcases seen keyed listed same with ⟨declared, there, _⟩
      rw [found] at there
      cases there
  | some declared =>
      have noted : ((some declared).bind fun declared : SortedSet =>
          if declared.keys = [canonicalType] then none else some (Text.join ", " declared.keys)) = none ↔
            declared.keys = [canonicalType] := by
        rw [Option.bind_some, ite_eq_left_iff]
        simp
      rw [noted]
      constructor
      · intro only keyed listed same
        rcases seen keyed listed same with ⟨others, there, inside⟩
        rw [found, Option.some.injEq] at there
        rw [← there, only] at inside
        exact List.mem_singleton.mp inside
      · intro plain
        have alone : ∀ name ∈ declared.keys, name = canonicalType := by
          intro name inside
          rcases declares_ofLeaves.mp ⟨declared, found, inside⟩ with ⟨keyed, listed, same, rfl⟩
          exact plain keyed listed same
        -- An alternative comes with the leaf that brought it, so that the set is not empty.
        have isAlternative : canonicalType ∈ (ofLeaves leaves).alternatives.keys := by
          rw [SortedMap.mem_keys, found]
          rfl
        rcases mem_alternatives.mp isAlternative with ⟨keyed, listed, same⟩
        rcases seen keyed listed same with ⟨others, there, inside⟩
        rw [found, Option.some.injEq] at there
        rw [← there, plain keyed listed same] at inside
        refine List.perm_singleton.mp ((List.perm_ext_iff_of_nodup declared.nodup_keys
          (List.nodup_singleton _)).mpr fun name => ?_)
        rw [List.mem_singleton]
        exact ⟨alone name, fun equal => equal ▸ inside⟩

/-- A value type has, in ascending order, the canonical types of some leaves for its alternatives, and with
each the declared types of its leaves.  These are noted unless they are just the canonical type. -/
structure Collects (valueType : ValueType) (leaves : List KeyedLeaf) : Prop where
  ascending : valueType.alternatives.keys.Pairwise (· < ·)
  alternatives : ∀ canonicalType, canonicalType ∈ valueType.alternatives.keys ↔
    ∃ keyed ∈ leaves, keyed.leaf.canonicalType = canonicalType
  declared : ∀ canonicalType declared,
    valueType.alternatives.find? canonicalType = some declared →
      ∀ declaredType, declaredType ∈ declared.keys ↔
        ∃ keyed ∈ leaves, keyed.leaf.canonicalType = canonicalType ∧
          keyed.leaf.declaredType = declaredType
  noted : ∀ canonicalType ∈ valueType.alternatives.keys,
    valueType.aliasNote? canonicalType = none ↔
      ∀ keyed ∈ leaves, keyed.leaf.canonicalType = canonicalType →
        keyed.leaf.declaredType = canonicalType

theorem collects_ofLeaves (leaves : List KeyedLeaf) : (ofLeaves leaves).Collects leaves where
  ascending := SortedMap.ascending_keys _
  alternatives _ := mem_alternatives
  declared canonicalType declared found declaredType := by
    rw [← declares_ofLeaves, Declares, found]
    simp
  noted _ _ := aliasNote?_eq_none_iff

end ValueType

/-! ## Types in the bodies of functions -/

/-- The canonical type that a statement takes a value of. -/
def Statement.canonicalType? : Statement → Option String
  | .assignField _ canonicalType => some canonicalType
  | .returnFormatted _ canonicalType => some canonicalType
  | .returnField _ | .resetField _ | .returnTypeName _ | .returnParsed _ => none

/-- The canonical types in the branches of a body. -/
def FunctionBody.canonicalTypes : FunctionBody → List String
  | .switch cases => cases.branches.filterMap fun branch => branch.body.canonicalType?
  | .diff _ | .apply => []

namespace ReflectionModule

theorem mem_canonicalTypes_totalSwitch {table : DispatchTable} {body : KeyedLeaf → Statement}
    {canonicalType : String} :
    canonicalType ∈ (totalSwitch table body).canonicalTypes ↔
      ∃ entry ∈ table.entries.toList, (body entry).canonicalType? = some canonicalType := by
  have bodies : (totalSwitch table body).canonicalTypes =
      ((table.switch .all .unreachable body).branches.map Branch.body).filterMap
        Statement.canonicalType? := by
    rw [List.filterMap_map]
    rfl
  rw [bodies, List.mem_filterMap]
  constructor
  · rintro ⟨statement, listed, named⟩
    rcases DispatchTable.mem_bodies_switch.mp listed with ⟨entry, inside, _, rfl⟩
    exact ⟨entry, inside, named⟩
  · rintro ⟨entry, inside, named⟩
    exact ⟨body entry, DispatchTable.mem_bodies_switch.mpr ⟨entry, inside, rfl, rfl⟩, named⟩

variable {m : ReflectionModule} {record : Record} {keyed : List KeyedLeaf} {options : GenerateOptions}

/-- Setting and formatting go by the canonical types of all entries. -/
theorem IsOver.mem_canonicalTypes_iff (isOver : m.IsOver record keyed options)
    {function : ModuleFunction} (listed : function ∈ m.functions)
    (takesValues : function.kind = .set ∨ ∃ spec, function.kind = .format spec) {canonicalType : String} :
    canonicalType ∈ function.body.canonicalTypes ↔
      ∃ entry ∈ m.table.entries.toList, entry.leaf.canonicalType = canonicalType := by
  have ofSwitch : ∀ body : KeyedLeaf → Statement, function.body = totalSwitch m.table body →
      (∀ entry, (body entry).canonicalType? = some entry.leaf.canonicalType) →
      (canonicalType ∈ function.body.canonicalTypes ↔
        ∃ entry ∈ m.table.entries.toList, entry.leaf.canonicalType = canonicalType) := by
    intro body isTotal named
    rw [isTotal, mem_canonicalTypes_totalSwitch]
    simp only [named, Option.some.injEq]
  rw [isOver.functions] at listed
  rcases mem_functionsOver.mp listed with fixed | ⟨spec, _, rfl⟩ | ⟨spec, _, rfl⟩
  · simp only [fixedFunctions, List.mem_cons, List.not_mem_nil, or_false] at fixed
    rcases fixed with rfl | rfl | rfl | rfl | rfl | rfl
    case inr.inl => exact ofSwitch _ rfl fun _ => rfl
    -- The other fixed functions are of other kinds.
    all_goals rcases takesValues with isSet | ⟨spec, isFormat⟩
    all_goals contradiction
  · rcases takesValues with isSet | ⟨other, isFormat⟩
    · cases isSet
    · cases isFormat
  · exact ofSwitch _ rfl fun _ => rfl

end ReflectionModule

/-! ## Agreement -/

/-- The parts of a module agree on types.  The value type collects those of the entries; the functions that
take values name exactly its alternatives; and the documentation of the type function lists what this
function gives for the keys of the table, each declared type once and in ascending order. -/
theorem alternatives_spec {record : Record} {options : GenerateOptions} {m : ReflectionModule}
    (built : buildModule record options = .ok m) :
    m.valueType.Collects m.table.entries.toList ∧
    (∀ function ∈ m.functions, (function.kind = .set ∨ ∃ spec, function.kind = .format spec) →
      ∀ canonicalType, canonicalType ∈ function.body.canonicalTypes ↔
        canonicalType ∈ m.valueType.alternatives.keys) ∧
    (∃ function, m.function? .type = some function ∧
      function.doc = ["Retrieve the type name of a value by key.",
        "Possible return values are: " ++
          Text.join ", " (m.valueType.declaredTypes.map fun name => "`\"" ++ name ++ "\"`") ++ "."]) ∧
    m.valueType.declaredTypes.Pairwise (· < ·) ∧
    ∀ functions,
      let interpreter : Interpreter := ⟨m, functions⟩
      (∀ key ∈ m.table.keys, ∃ name ∈ m.valueType.declaredTypes, interpreter.typeOf key = .ok name) ∧
      ∀ name ∈ m.valueType.declaredTypes, ∃ key ∈ m.table.keys, interpreter.typeOf key = .ok name := by
  rcases exists_keyed_of_built built with ⟨keyed, _, _, isOver⟩
  have collects : m.valueType.Collects m.table.entries.toList := by
    rw [isOver.valueType]
    exact ValueType.collects_ofLeaves _
  have declaredTypes : ∀ name, name ∈ m.valueType.declaredTypes ↔
      ∃ entry ∈ m.table.entries.toList, entry.leaf.declaredType = name := by
    intro name
    rw [ValueType.mem_declaredTypes, isOver.valueType]
    simp only [ValueType.declares_ofLeaves]
    constructor
    · rintro ⟨_, entry, listed, _, same⟩
      exact ⟨entry, listed, same⟩
    · rintro ⟨entry, listed, same⟩
      exact ⟨_, entry, listed, rfl, same⟩
  refine ⟨collects, ?_, ?_, ValueType.ascending_declaredTypes _, ?_⟩
  · intro function listed takesValues canonicalType
    rw [isOver.mem_canonicalTypes_iff listed takesValues, collects.alternatives]
  · refine ⟨ReflectionModule.typeFunction m.table m.valueType, ?_, rfl⟩
    exact isOver.isKeyed.function?_fixed (by simp [ReflectionModule.fixedFunctions]) rfl
  · intro functions interpreter
    have gives : ∀ entry ∈ m.table.entries.toList,
        interpreter.typeOf entry.key = .ok entry.leaf.declaredType := by
      intro entry listed
      have known : interpreter.module.table.entryOf? entry.key = some entry :=
        (DispatchTable.entryOf?_eq_some_iff isOver.ascending).mpr ⟨listed, rfl⟩
      rw [Interpreter.typeOf_eq isOver.isKeyed, known]
    constructor
    · intro key isKey
      rcases List.mem_map.mp isKey with ⟨entry, listed, rfl⟩
      exact ⟨_, (declaredTypes _).mpr ⟨entry, listed, rfl⟩, gives entry listed⟩
    · intro name documented
      rcases (declaredTypes name).mp documented with ⟨entry, listed, rfl⟩
      exact ⟨entry.key, List.mem_map_of_mem listed, gives entry listed⟩

/-- A window has an alternative for its width, with a note on the alias, and one for its title without a
note, and both are documented by their declared types. -/
theorem alternatives_spec_window : ∃ m, buildModule Record.window .slashed = .ok m ∧
    (∀ canonicalType, canonicalType ∈ m.valueType.alternatives.keys ↔
      canonicalType = "int" ∨ canonicalType = "std::string") ∧
    m.valueType.aliasNote? "int" ≠ none ∧ m.valueType.aliasNote? "std::string" = none ∧
    "length_t" ∈ m.valueType.declaredTypes := by
  rcases buildModule_window with ⟨m, built⟩
  rcases exists_keyed_of_built built with ⟨keyed, resolved, _, isOver⟩
  cases resolved.symm.trans resolve_eq_windowKeyed
  rcases alternatives_spec built with ⟨collects, _, _, _, types⟩
  have entries : ∀ entry, entry ∈ m.table.entries.toList ↔
      entry = ⟨"size/width", "size.width", ⟨"width", "length_t", "int", true, false, "In pixels.\n"⟩⟩ ∨
      entry = ⟨"title", "title", ⟨"title", "std::string", "std::string", false, false, ""⟩⟩ := by
    intro entry
    rw [isOver.perm.mem_iff, Record.windowKeyed, List.mem_cons, List.mem_singleton]
  have names : ∀ canonicalType, canonicalType ∈ m.valueType.alternatives.keys ↔
      canonicalType = "int" ∨ canonicalType = "std::string" := by
    intro canonicalType
    rw [collects.alternatives]
    simp only [entries, or_and_right, exists_or, exists_eq_left]
    exact or_congr eq_comm eq_comm
  refine ⟨m, built, names, ?_, ?_, ?_⟩
  · intro unnoted
    have plainly := (collects.noted "int" ((names _).mpr (.inl rfl))).mp unnoted _
      ((entries _).mpr (.inl rfl)) rfl
    exact absurd plainly (by decide)
  · refine (collects.noted "std::string" ((names _).mpr (.inr rfl))).mpr ?_
    intro entry listed same
    rcases (entries entry).mp listed with rfl | rfl
    · exact absurd same (by decide)
    · rfl
  · have isKey : "size/width" ∈ m.table.keys :=
      List.mem_map.mpr ⟨_, (entries _).mpr (.inl rfl), rfl⟩
    rcases (types .empty).1 "size/width" isKey with ⟨name, documented, given⟩
    have known := (DispatchTable.entryOf?_eq_some_iff isOver.ascending).mpr
      ⟨(entries _).mpr (.inl rfl), rfl⟩
    rw [Interpreter.typeOf_eq isOver.isKeyed, known] at given
    cases given
    exact documented

end KeyedReflection
