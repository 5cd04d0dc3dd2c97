import KeyedReflection.Generation.Basic
import KeyedReflection.Proofs.Dispatch
import KeyedReflection.Proofs.Key.Levels
import KeyedReflection.Proofs.Results

/-!
# What holds of every module that was built

The functions of a module are read off its table, and the table comes from the resolved keys of a
record (`IsOver`, `exists_keyed_of_built`).  `IsKeyed` collects what running a function on a key relies on:
keys that ascend, and the functions in their fixed order.  `IsWellBuilt` adds one dotted id for each entry,
without which two keys would stand for one field.
-/

namespace KeyedReflection
namespace ReflectionModule

/-- A module whose functions belong to its table, and whose table has no two entries with one key. -/
structure IsKeyed (m : ReflectionModule) : Prop where
  ascending : m.table.IsAscending
  functions : ∃ parsers formatters,
    m.functions = functionsOver m.table m.valueType parsers formatters

/-- A module in whose table, besides, no two entries have one dotted id. -/
structure IsWellBuilt (m : ReflectionModule) : Prop extends m.IsKeyed where
  distinctIds : (m.table.entries.toList.map KeyedLeaf.dottedId).Nodup

/-- An entry is found by its dotted id. -/
theorem IsWellBuilt.find?_dottedId {m : ReflectionModule} (wellBuilt : m.IsWellBuilt)
    {entry : KeyedLeaf} (listed : entry ∈ m.table.entries.toList) :
    (m.table.entries.toList.find? fun other => other.dottedId == entry.dottedId) = some entry :=
  (SortedMap.find?_eq_some_iff_of_distinct wellBuilt.distinctIds).mpr ⟨listed, rfl⟩

/-- A module over the keyed leaves of a record.  Every part is read off the table, apart from the key
constants, which follow the tree of the record. -/
structure IsOver (m : ReflectionModule) (record : Record) (keyed : List KeyedLeaf)
    (options : GenerateOptions) : Prop where
  recordName : m.recordName = record.qualifiedName
  scope : m.scope = record.qualifiedName ++ "_io"
  table : DispatchTable.build keyed = .ok m.table
  valueType : m.valueType = ValueType.ofLeaves m.table.entries.toList
  keys : m.keys = keyItems record.tree keyed
  functions : m.functions = functionsOver m.table m.valueType options.parsers options.formatters

section

variable {m : ReflectionModule} {record : Record} {keyed : List KeyedLeaf} {options : GenerateOptions}

theorem isOver_of_synthesized
    (synthesized : synthesize record keyed options.parsers options.formatters = .ok m) :
    firstTaken? reservedNames (options.parsers ++ options.formatters) = none ∧
      m.IsOver record keyed options := by
  rw [synthesize] at synthesized
  split at synthesized
  · cases synthesized
  · rename_i free
    split at synthesized
    · cases synthesized
    · rename_i table built
      cases synthesized
      exact ⟨free, rfl, rfl, built, rfl, rfl, rfl⟩

theorem IsOver.ascending (isOver : m.IsOver record keyed options) : m.table.IsAscending :=
  (DispatchTable.build_ok isOver.table).1

theorem IsOver.perm (isOver : m.IsOver record keyed options) : m.table.entries.toList.Perm keyed :=
  (DispatchTable.build_ok isOver.table).2

theorem IsOver.isKeyed (isOver : m.IsOver record keyed options) : m.IsKeyed :=
  ⟨isOver.ascending, options.parsers, options.formatters, isOver.functions⟩

/-- Three functions have bodies of their own kind, and every other one has a statement for each key. -/
theorem IsOver.body_cases (isOver : m.IsOver record keyed options) {f : ModuleFunction}
    (listed : f ∈ m.functions) :
    (f.kind = .unset ∧ f.body = (unsetFunction m.table).body) ∨
    (f.kind = .diff ∧ f.body = (diffFunction m.table).body) ∨
    (f.kind = .apply ∧ f.body = .apply) ∨
    (f.kind ≠ .unset ∧ f.kind ≠ .diff ∧ ∃ body, f.body = totalSwitch m.table body) := by
  rw [isOver.functions, functionsOver, List.mem_append, List.mem_append] at listed
  rcases listed with (fixed | parses) | formats
  · simp only [List.mem_cons, List.not_mem_nil, or_false] at fixed
    rcases fixed with rfl | rfl | rfl | rfl | rfl | rfl
    · exact .inr (.inr (.inr ⟨nofun, nofun, _, rfl⟩))
    · exact .inr (.inr (.inr ⟨nofun, nofun, _, rfl⟩))
    · exact .inl ⟨rfl, rfl⟩
    · exact .inr (.inl ⟨rfl, rfl⟩)
    · exact .inr (.inr (.inl ⟨rfl, rfl⟩))
    · exact .inr (.inr (.inr ⟨nofun, nofun, _, rfl⟩))
  · rcases List.mem_map.mp parses with ⟨spec, _, rfl⟩
    exact .inr (.inr (.inr ⟨nofun, nofun, _, rfl⟩))
  · rcases List.mem_map.mp formats with ⟨spec, _, rfl⟩
    exact .inr (.inr (.inr ⟨nofun, nofun, _, rfl⟩))

end

end ReflectionModule

/-- A module is synthesized from the resolved keys of its record. -/
theorem exists_synthesized_of_built {record : Record} {options : GenerateOptions}
    {m : ReflectionModule} (built : buildModule record options = .ok m) :
    ∃ keyed, (keyRulesFor record options.overrides options.separator
        options.keyStyle).resolve record.tree = .ok keyed ∧
      ReflectionModule.synthesize record keyed options.parsers options.formatters = .ok m := by
  rw [buildModule] at built
  split at built
  · cases built
  · rename_i keyed resolved
    exact ⟨keyed, resolved, exists_of_mapError_ok built⟩

/-- A module comes from the resolved keys of its record, and only while the names of the conversions are
free. -/
theorem exists_keyed_of_built {record : Record} {options : GenerateOptions} {m : ReflectionModule}
    (built : buildModule record options = .ok m) :
    ∃ keyed, (keyRulesFor record options.overrides options.separator
        options.keyStyle).resolve record.tree = .ok keyed ∧
      ReflectionModule.firstTaken? ReflectionModule.reservedNames
        (options.parsers ++ options.formatters) = none ∧
      m.IsOver record keyed options := by
  rcases exists_synthesized_of_built built with ⟨keyed, resolved, synthesized⟩
  exact ⟨keyed, resolved, ReflectionModule.isOver_of_synthesized synthesized⟩

/-- The module of a record with plain names is well built. -/
theorem buildModule_wellBuilt {record : Record} {options : GenerateOptions} {m : ReflectionModule}
    (plain : record.tree.HasPlainNames) (built : buildModule record options = .ok m) :
    m.IsWellBuilt := by
  rcases exists_keyed_of_built built with ⟨keyed, resolved, _, isOver⟩
  have distinct := (KeyRules.resolve_distinct plain resolved).2
  exact ⟨isOver.isKeyed, (isOver.perm.map KeyedLeaf.dottedId).nodup_iff.mpr distinct⟩

/-- Resolved keys are a module, unless the name of a conversion is taken. -/
theorem buildModule_of_resolved {record : Record} {options : GenerateOptions}
    {keyed : List KeyedLeaf} (plain : record.tree.HasPlainNames)
    (resolved : (keyRulesFor record options.overrides options.separator
      options.keyStyle).resolve record.tree = .ok keyed)
    (free : ReflectionModule.firstTaken? ReflectionModule.reservedNames
      (options.parsers ++ options.formatters) = none) :
    ∃ m, buildModule record options = .ok m := by
  rcases DispatchTable.build_of_distinct (KeyRules.resolve_distinct plain resolved).1 with
    ⟨table, built⟩
  rw [buildModule, resolved]
  dsimp only
  rw [ReflectionModule.synthesize, free]
  dsimp only
  rw [built]
  exact ⟨_, rfl⟩

/-! ## A record for witnesses -/

/-- A window with an optional width in a sub-record and a title behind it. -/
def Record.window : Record where
  namespaces := ["ui"]
  name := "window"
  origin := .schema
  tree := (((FieldTree.new "window" "A window.").add 0 (.node ⟨"size", "", []⟩)).add 1
    (.leaf ⟨"width", "length_t", "int", true, false, "In pixels.\n"⟩)).add 0
      (.leaf ⟨"title", "std::string", "std::string", false, false, ""⟩)

/-- Keys with slashes, and nothing else asked for. -/
def GenerateOptions.slashed : GenerateOptions where
  separator := "/"
  keyStyle := none
  overrides := .empty
  parsers := []
  formatters := []
  unit := ⟨[], "", []⟩

/-- The leaves of the window with their keys. -/
def Record.windowKeyed : List KeyedLeaf :=
  [⟨"size/width", "size.width", ⟨"width", "length_t", "int", true, false, "In pixels.\n"⟩⟩,
    ⟨"title", "title", ⟨"title", "std::string", "std::string", false, false, ""⟩⟩]

theorem resolve_eq_windowKeyed :
    (keyRulesFor Record.window .empty "/" none).resolve Record.window.tree = .ok Record.windowKeyed := by
  rw [KeyRules.resolve_eq_ok_iff (by decide)]
  decide +kernel

theorem resolve_window : ∃ keyed,
    (keyRulesFor Record.window .empty "/" none).resolve Record.window.tree = .ok keyed :=
  ⟨_, resolve_eq_windowKeyed⟩

theorem buildModule_window : ∃ m, buildModule Record.window .slashed = .ok m := by
  have plain : Record.window.tree.HasPlainNames := by decide
  rcases resolve_window with ⟨keyed, resolved⟩
  exact buildModule_of_resolved plain resolved rfl

/-! ## Finding functions -/

namespace ReflectionModule

/-- The functions that every module over a table has, whatever its conversions. -/
def fixedFunctions (table : DispatchTable) (valueType : ValueType) : List ModuleFunction :=
  [getFunction table, setFunction table, unsetFunction table, diffFunction table, applyFunction,
    typeFunction table valueType]

/-- A fixed function is found by its kind. -/
theorem IsKeyed.function?_fixed {m : ReflectionModule} (isKeyed : m.IsKeyed)
    {function : ModuleFunction} (fixed : function ∈ fixedFunctions m.table m.valueType)
    {kind : FunctionKind} (isOfKind : function.kind = kind) : m.function? kind = some function := by
  subst isOfKind
  rcases isKeyed.functions with ⟨parsers, formatters, functions⟩
  rw [function?, functions]
  simp only [fixedFunctions, List.mem_cons, List.not_mem_nil, or_false] at fixed
  rcases fixed with rfl | rfl | rfl | rfl | rfl | rfl <;> rfl

/-- Besides the fixed functions there is one for each conversion. -/
theorem mem_functionsOver {table : DispatchTable} {valueType : ValueType}
    {parsers formatters : List ConversionSpec} {function : ModuleFunction} :
    function ∈ functionsOver table valueType parsers formatters ↔
      function ∈ fixedFunctions table valueType ∨
      (∃ spec ∈ parsers, parseFunction table spec = function) ∨
      ∃ spec ∈ formatters, formatFunction table spec = function := by
  rw [functionsOver, List.mem_append, List.mem_append, List.mem_map, List.mem_map, or_assoc]
  rfl

/-- No spec is taken when the specs have different names, none of which is in the list. -/
theorem firstTaken?_eq_none_iff {taken : List String} {specs : List ConversionSpec} :
    firstTaken? taken specs = none ↔
      (specs.map ConversionSpec.functionName).Nodup ∧ ∀ spec ∈ specs, spec.functionName ∉ taken := by
  induction specs generalizing taken with
  | nil => simp [firstTaken?]
  | cons spec rest ih =>
      rw [firstTaken?, List.map_cons, List.nodup_cons, List.forall_mem_cons]
      by_cases isTaken : spec.functionName ∈ taken
      · rw [if_pos isTaken]
        exact iff_of_false nofun fun free => free.2.1 isTaken
      · rw [if_neg isTaken, ih]
        have apart : (∀ other ∈ rest, other.functionName ∉ spec.functionName :: taken) ↔
            spec.functionName ∉ rest.map ConversionSpec.functionName ∧
              ∀ other ∈ rest, other.functionName ∉ taken := by
          simp only [List.mem_cons, not_or, List.mem_map, not_exists, not_and, forall_and]
        rw [apart]
        tauto

section

variable {m : ReflectionModule} {record : Record} {keyed : List KeyedLeaf} {options : GenerateOptions}

/-- The functions of a module have different names as long as those of its conversions are free. -/
theorem IsOver.nodup_names (isOver : m.IsOver record keyed options)
    (free : firstTaken? reservedNames (options.parsers ++ options.formatters) = none) :
    (m.functions.map ModuleFunction.name).Nodup := by
  have names : m.functions.map ModuleFunction.name =
      (fixedFunctions m.table m.valueType).map ModuleFunction.name ++
        (options.parsers ++ options.formatters).map ConversionSpec.functionName := by
    rw [isOver.functions, functionsOver, List.append_assoc, List.map_append, List.map_append,
      List.map_map, List.map_map, List.map_append]
    rfl
  have reserved : (fixedFunctions m.table m.valueType).map ModuleFunction.name ⊆ reservedNames := by
    change ["get", "set", "unset", "diff", "apply", "type"] ⊆ reservedNames
    decide
  rcases firstTaken?_eq_none_iff.mp free with ⟨distinct, unreserved⟩
  rw [names, List.nodup_append]
  refine ⟨?_, distinct, ?_⟩
  · change ["get", "set", "unset", "diff", "apply", "type"].Nodup
    decide
  · rintro name isFixed other isGiven rfl
    rcases List.mem_map.mp isGiven with ⟨spec, listed, rfl⟩
    exact unreserved spec listed (reserved isFixed)

/-- Every function is found by its name. -/
theorem IsOver.functionNamed?_of_mem (isOver : m.IsOver record keyed options)
    (free : firstTaken? reservedNames (options.parsers ++ options.formatters) = none)
    {function : ModuleFunction} (listed : function ∈ m.functions) :
    m.functionNamed? function.name = some function :=
  (SortedMap.find?_eq_some_iff_of_distinct (isOver.nodup_names free)).mpr ⟨listed, rfl⟩

end

end ReflectionModule
end KeyedReflection
