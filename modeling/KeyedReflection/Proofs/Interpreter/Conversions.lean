import KeyedReflection.Proofs.Interpreter.Operations

/-!
# Conversions

A parse function and a format function go by the key to the user function for the declared type of the
field.  Fields of different canonical types may share that function, and with it a branch of a parse
function.  Which type a parsed value is tagged with is not a matter of the branch: it is that of the entry,
so that the value can be set under the key and is got back from there (`conversions_spec`).

Conversions are found by their names, which are given by the user.  They cannot be mixed up with other
functions of the module, as all of these have different names.
-/

namespace KeyedReflection
namespace Interpreter

open Json (Value)
open ReflectionModule (parseFunction formatFunction totalSwitch)

variable {interpreter : Interpreter} {spec : ConversionSpec}

/-! ## User functions -/

/-- A user function stands under a name: it was registered there, and no other one since. -/
def HasFunction (interpreter : Interpreter) (name : String) (function : Value → Value) : Prop :=
  interpreter.userFunctions.find? name = some function

theorem hasFunction_register {name other : String} {function called : Value → Value} :
    (interpreter.register name function).HasFunction other called ↔
      if name = other then function = called else interpreter.HasFunction other called := by
  rw [HasFunction, register, SortedMap.find?_insert]
  by_cases same : name = other
  · rw [if_pos same, if_pos same, Option.some.injEq]
  · rw [if_neg same, if_neg same]
    rfl

theorem HasFunction.callUser {name : String} {function : Value → Value}
    (has : interpreter.HasFunction name function) (key : String) (argument : Value) :
    interpreter.callUser key name argument = .ok (function argument) := by
  rw [Interpreter.callUser, has]

/-! ## Running conversions -/

/-- A function that is found by its name and has a statement for every key gives that of the key's entry,
or there is no entry at all. -/
theorem dispatchNamed_total (ascending : interpreter.module.table.IsAscending)
    {function : ModuleFunction} {body : KeyedLeaf → Statement} {name : String}
    (found : interpreter.module.functionNamed? name = some function)
    (total : function.body = totalSwitch interpreter.module.table body) (key : String) :
    (interpreter.module.table.entryOf? key = none ∧
      interpreter.dispatchNamed name key = .error (.key (.unknownKey key))) ∨
    ∃ index entry, interpreter.module.table.entryOf? key = some entry ∧
      interpreter.module.table.entries[index]? = some entry ∧
      interpreter.dispatchNamed name key = .ok (index, body entry) := by
  simp only [dispatchNamed, found, total]
  rcases runBody_total ascending body key with
    ⟨unknown, failed⟩ | ⟨index, entry, known, there, ran⟩
  · exact .inl ⟨unknown, by rw [failed]; rfl⟩
  · exact .inr ⟨index, entry, known, there, by rw [ran]; rfl⟩

/-- Parsing tags what the user function makes of a representation with the canonical type of the entry. -/
theorem parse_eq (ascending : interpreter.module.table.IsAscending)
    (found : interpreter.module.functionNamed? spec.functionName =
      some (parseFunction interpreter.module.table spec)) (key : String) (representation : Value) :
    interpreter.parse spec.functionName key representation =
      match interpreter.module.table.entryOf? key with
      | none => .error (.key (.unknownKey key))
      | some entry =>
        (interpreter.callUser key (spec.userFunctionFor entry.leaf.declaredType) representation).map
          fun value => ⟨entry.leaf.canonicalType, value⟩ := by
  rcases dispatchNamed_total ascending found rfl key with
    ⟨unknown, failed⟩ | ⟨index, entry, known, there, ran⟩
  · rw [parse, failed, unknown]
  · rw [parse, ran, known]
    dsimp only
    rw [canonicalTypeAt_eq there]

/-- Formatting takes a value of the canonical type of the entry to the user function. -/
theorem format_eq (ascending : interpreter.module.table.IsAscending)
    (found : interpreter.module.functionNamed? spec.functionName =
      some (formatFunction interpreter.module.table spec)) (key : String) (value : TaggedValue) :
    interpreter.format spec.functionName key value =
      match interpreter.module.table.entryOf? key with
      | none => .error (.key (.unknownKey key))
      | some entry =>
        (narrow key entry.leaf.canonicalType value).bind
          (interpreter.callUser key (spec.userFunctionFor entry.leaf.declaredType)) := by
  rcases dispatchNamed_total ascending found rfl key with
    ⟨unknown, failed⟩ | ⟨index, entry, known, there, ran⟩
  · rw [format, failed, unknown]
  · rw [format, ran, known]

/-- A value of the canonical type of an entry can be set under its key, and is what is got from there. -/
theorem exists_set_get (isKeyed : interpreter.module.IsKeyed) {key : String} {entry : KeyedLeaf}
    (known : interpreter.module.table.entryOf? key = some entry) (state : RecordState) (value : Value) :
    ∃ next, interpreter.set state key ⟨entry.leaf.canonicalType, value⟩ = .ok next ∧
      interpreter.get next key = .ok (some ⟨entry.leaf.canonicalType, value⟩) := by
  refine ⟨state.insert entry.dottedId (some value), ?_, ?_⟩
  · rw [set_eq isKeyed, known]
    dsimp only
    rw [if_pos rfl]
  · rw [get_eq isKeyed, known]
    dsimp only
    rw [RecordState.field?, SortedMap.find?_insert, if_pos rfl]
    rfl

/-! ## What conversions do -/

/-- Under the key of an entry, a parse function gives what a user function makes of a representation, as a
value that can be set under the key in every record, and is then got back from there. -/
def Parses (interpreter : Interpreter) (spec : ConversionSpec) (entry : KeyedLeaf)
    (function : Value → Value) : Prop :=
  ∀ representation,
    let value : TaggedValue := ⟨entry.leaf.canonicalType, function representation⟩
    interpreter.parse spec.functionName entry.key representation = .ok value ∧
      ∀ state, ∃ next, interpreter.set state entry.key value = .ok next ∧
        interpreter.get next entry.key = .ok (some value)

/-- Under the key of an entry, a format function gives what a user function makes of a value of the
canonical type of the entry, and refuses every other value. -/
def Formats (interpreter : Interpreter) (spec : ConversionSpec) (entry : KeyedLeaf)
    (function : Value → Value) : Prop :=
  ∀ value : TaggedValue, interpreter.format spec.functionName entry.key value =
    if value.canonicalType = entry.leaf.canonicalType then .ok (function value.value)
    else .error (.key (.typeMismatch entry.key entry.leaf.canonicalType value.canonicalType))

/-- A run that never meets a statement of another kind, and says of keys outside of the table that they
are unknown. -/
structure AnswersKey {α : Type} (table : DispatchTable) (key : String) (result : Except RunFault α) :
    Prop where
  matched : ∀ named statement, result ≠ .error (.mismatchedStatement named statement)
  unknown : key ∉ table.keys → result = .error (.key (.unknownKey key))

section

variable {function : Value → Value} {entry : KeyedLeaf}

theorem parses_of_hasFunction (isKeyed : interpreter.module.IsKeyed)
    (found : interpreter.module.functionNamed? spec.functionName =
      some (parseFunction interpreter.module.table spec))
    (listed : entry ∈ interpreter.module.table.entries.toList)
    (has : interpreter.HasFunction (spec.userFunctionFor entry.leaf.declaredType) function) :
    interpreter.Parses spec entry function := by
  intro representation value
  have known := (DispatchTable.entryOf?_eq_some_iff isKeyed.ascending).mpr ⟨listed, rfl⟩
  constructor
  · rw [parse_eq isKeyed.ascending found, known]
    dsimp only
    rw [has.callUser]
    rfl
  · exact fun state => exists_set_get isKeyed known state (function representation)

theorem formats_of_hasFunction (isKeyed : interpreter.module.IsKeyed)
    (found : interpreter.module.functionNamed? spec.functionName =
      some (formatFunction interpreter.module.table spec))
    (listed : entry ∈ interpreter.module.table.entries.toList)
    (has : interpreter.HasFunction (spec.userFunctionFor entry.leaf.declaredType) function) :
    interpreter.Formats spec entry function := by
  intro value
  have known := (DispatchTable.entryOf?_eq_some_iff isKeyed.ascending).mpr ⟨listed, rfl⟩
  rw [format_eq isKeyed.ascending found, known]
  dsimp only
  rw [narrow]
  by_cases same : value.canonicalType = entry.leaf.canonicalType
  · rw [if_pos same, if_pos same]
    exact has.callUser entry.key value.value
  · rw [if_neg same, if_neg same]
    rfl

theorem callUser_ne_mismatched (key name named : String) (argument : Value) (statement : Statement) :
    interpreter.callUser key name argument ≠ .error (.mismatchedStatement named statement) := by
  rw [callUser]
  split
  · nofun
  · nofun

theorem answersKey_parse (ascending : interpreter.module.table.IsAscending)
    (found : interpreter.module.functionNamed? spec.functionName =
      some (parseFunction interpreter.module.table spec)) (key : String) (representation : Value) :
    AnswersKey interpreter.module.table key
      (interpreter.parse spec.functionName key representation) := by
  rw [parse_eq ascending found]
  constructor
  · intro named statement
    cases interpreter.module.table.entryOf? key with
    | none =>
        intro failed
        cases failed
    | some entry =>
        intro failed
        dsimp only at failed
        cases called : interpreter.callUser key (spec.userFunctionFor entry.leaf.declaredType)
            representation with
        | ok value =>
            rw [called] at failed
            cases failed
        | error fault =>
            rw [called] at failed
            cases failed
            exact callUser_ne_mismatched _ _ _ _ _ called
  · intro missing
    rw [DispatchTable.entryOf?_eq_none_iff.mpr missing]

theorem answersKey_format (ascending : interpreter.module.table.IsAscending)
    (found : interpreter.module.functionNamed? spec.functionName =
      some (formatFunction interpreter.module.table spec)) (key : String) (value : TaggedValue) :
    AnswersKey interpreter.module.table key (interpreter.format spec.functionName key value) := by
  rw [format_eq ascending found]
  constructor
  · intro named statement
    cases interpreter.module.table.entryOf? key with
    | none =>
        intro failed
        cases failed
    | some entry =>
        dsimp only
        rw [narrow]
        split
        · exact callUser_ne_mismatched _ _ _ _ _
        · intro failed
          cases failed
  · intro missing
    rw [DispatchTable.entryOf?_eq_none_iff.mpr missing]

end

end Interpreter

namespace ReflectionModule

variable {m : ReflectionModule} {record : Record} {keyed : List KeyedLeaf} {options : GenerateOptions}

theorem IsOver.parseFunction_mem (isOver : m.IsOver record keyed options) {spec : ConversionSpec}
    (listed : spec ∈ options.parsers) : parseFunction m.table spec ∈ m.functions := by
  rw [isOver.functions]
  exact mem_functionsOver.mpr (.inr (.inl ⟨spec, listed, rfl⟩))

theorem IsOver.formatFunction_mem (isOver : m.IsOver record keyed options) {spec : ConversionSpec}
    (listed : spec ∈ options.formatters) : formatFunction m.table spec ∈ m.functions := by
  rw [isOver.functions]
  exact mem_functionsOver.mpr (.inr (.inr ⟨spec, listed, rfl⟩))

/-- The functions of the two kinds of conversions are those of their specs. -/
theorem IsOver.eq_of_kind (isOver : m.IsOver record keyed options) {function : ModuleFunction}
    (listed : function ∈ m.functions) (spec : ConversionSpec) :
    (function.kind = .parse spec → function = parseFunction m.table spec) ∧
      (function.kind = .format spec → function = formatFunction m.table spec) := by
  rw [isOver.functions] at listed
  rcases mem_functionsOver.mp listed with fixed | ⟨other, _, rfl⟩ | ⟨other, _, rfl⟩
  · simp only [fixedFunctions, List.mem_cons, List.not_mem_nil, or_false] at fixed
    rcases fixed with rfl | rfl | rfl | rfl | rfl | rfl <;> constructor <;> intro same <;> cases same
  · constructor <;> intro same <;> cases same
    rfl
  · constructor <;> intro same <;> cases same
    rfl

end ReflectionModule

/-- In every module, the function of a conversion is found by its name.  With a user function under the name
that a spec makes of the declared type of a field, it parses or formats the values of the field, whatever
else is registered.  Nothing else is met under the name of a conversion, and a key that is not in the table
is unknown in any case. -/
theorem conversions_spec {record : Record} {options : GenerateOptions} {m : ReflectionModule}
    (built : buildModule record options = .ok m) :
    (∀ spec ∈ options.parsers,
      m.functionNamed? spec.functionName = some (ReflectionModule.parseFunction m.table spec)) ∧
    (∀ spec ∈ options.formatters,
      m.functionNamed? spec.functionName = some (ReflectionModule.formatFunction m.table spec)) ∧
    ∀ functions,
      let interpreter : Interpreter := ⟨m, functions⟩
      (∀ entry ∈ m.table.entries.toList, ∀ function,
        (∀ spec ∈ options.parsers,
          interpreter.HasFunction (spec.userFunctionFor entry.leaf.declaredType) function →
            interpreter.Parses spec entry function) ∧
        ∀ spec ∈ options.formatters,
          interpreter.HasFunction (spec.userFunctionFor entry.leaf.declaredType) function →
            interpreter.Formats spec entry function) ∧
      ∀ conversion ∈ m.functions, ∀ spec key,
        (conversion.kind = .parse spec → ∀ representation,
          Interpreter.AnswersKey m.table key (interpreter.parse conversion.name key representation)) ∧
        (conversion.kind = .format spec → ∀ value,
          Interpreter.AnswersKey m.table key (interpreter.format conversion.name key value)) := by
  rcases exists_keyed_of_built built with ⟨keyed, _, free, isOver⟩
  have parses : ∀ spec ∈ options.parsers,
      m.functionNamed? spec.functionName = some (ReflectionModule.parseFunction m.table spec) :=
    fun spec listed => isOver.functionNamed?_of_mem free (isOver.parseFunction_mem listed)
  have formats : ∀ spec ∈ options.formatters,
      m.functionNamed? spec.functionName = some (ReflectionModule.formatFunction m.table spec) :=
    fun spec listed => isOver.functionNamed?_of_mem free (isOver.formatFunction_mem listed)
  refine ⟨parses, formats, ?_⟩
  intro functions interpreter
  constructor
  · intro entry inside function
    constructor
    · exact fun spec listed => Interpreter.parses_of_hasFunction isOver.isKeyed (parses spec listed) inside
    · exact fun spec listed => Interpreter.formats_of_hasFunction isOver.isKeyed (formats spec listed) inside
  · intro conversion listed spec key
    have found := isOver.functionNamed?_of_mem free listed
    rcases isOver.eq_of_kind listed spec with ⟨isParse, isFormat⟩
    constructor
    · intro ofKind representation
      rw [isParse ofKind] at found ⊢
      have named : interpreter.module.functionNamed? spec.functionName = _ := found
      exact Interpreter.answersKey_parse isOver.ascending named key representation
    · intro ofKind value
      rw [isFormat ofKind] at found ⊢
      have named : interpreter.module.functionNamed? spec.functionName = _ := found
      exact Interpreter.answersKey_format isOver.ascending named key value

/-- Keys with slashes, and functions that parse values from texts and format values to texts. -/
def GenerateOptions.converting : GenerateOptions :=
  { GenerateOptions.slashed with
    parsers := [⟨"std::string", "from_string", "%_from_string"⟩]
    formatters := [⟨"std::string", "to_string", "%_to_string"⟩] }

/-- The width of a window has the declared type `length_t`, after which its user functions are named, and is
parsed to an integer. -/
theorem conversions_spec_window : ∃ m entry,
    buildModule Record.window .converting = .ok m ∧ entry ∈ m.table.entries.toList ∧
    entry.key = "size/width" ∧ entry.leaf.canonicalType = "int" ∧
    ∀ parsing formatting,
      let interpreter := ((Interpreter.new m).register "length_t_from_string" parsing).register
        "length_t_to_string" formatting
      interpreter.Parses ⟨"std::string", "from_string", "%_from_string"⟩ entry parsing ∧
      interpreter.Formats ⟨"std::string", "to_string", "%_to_string"⟩ entry formatting ∧
      ∀ representation, Interpreter.AnswersKey m.table "size/depth"
        (interpreter.parse "from_string" "size/depth" representation) := by
  have plain : Record.window.tree.HasPlainNames := by decide
  rcases @buildModule_of_resolved _ .converting _ plain resolve_eq_windowKeyed (by rfl) with ⟨m, built⟩
  rcases exists_keyed_of_built built with ⟨keyed, resolved, _, isOver⟩
  cases resolved.symm.trans resolve_eq_windowKeyed
  let entry : KeyedLeaf :=
    ⟨"size/width", "size.width", ⟨"width", "length_t", "int", true, false, "In pixels.\n"⟩⟩
  have listed : entry ∈ m.table.entries.toList := isOver.perm.mem_iff.mpr List.mem_cons_self
  rcases conversions_spec built with ⟨_, _, converts⟩
  refine ⟨m, entry, built, listed, rfl, rfl, ?_⟩
  intro parsing formatting interpreter
  rcases converts interpreter.userFunctions with ⟨each, answers⟩
  have parser : ConversionSpec.userFunctionFor ⟨"std::string", "from_string", "%_from_string"⟩
      entry.leaf.declaredType = "length_t_from_string" := by decide +kernel
  have formatter : ConversionSpec.userFunctionFor ⟨"std::string", "to_string", "%_to_string"⟩
      entry.leaf.declaredType = "length_t_to_string" := by decide +kernel
  refine ⟨?_, ?_, ?_⟩
  · apply (each entry listed parsing).1 _ (List.mem_singleton_self _)
    change interpreter.HasFunction _ _
    rw [parser, Interpreter.hasFunction_register, if_neg (by decide),
      Interpreter.hasFunction_register, if_pos rfl]
  · apply (each entry listed formatting).2 _ (List.mem_singleton_self _)
    change interpreter.HasFunction _ _
    rw [formatter, Interpreter.hasFunction_register, if_pos rfl]
  · exact fun representation => (answers _ (isOver.parseFunction_mem (List.mem_singleton_self _)) _
      "size/depth").1 rfl representation

end KeyedReflection
