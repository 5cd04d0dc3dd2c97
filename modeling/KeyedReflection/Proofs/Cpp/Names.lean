import KeyedReflection.Cpp.Units
import KeyedReflection.Proofs.Module.Building

/-!
# Names that the units declare

Besides its functions a module declares types, constants and classes of failures in its namespace.  The
units are taken apart here into their declarations, each with the name that it declares
(`declarations_eq`, `definitions_eq_join`), so that the names can be listed: there are fifteen that every
module declares, and one for each conversion (`declaredNames_eq`).

A conversion is refused when its function has the name of an earlier one or one of `reservedNames`.  Six
of the fifteen names are not among these, so that the declared names differ exactly as long as no
conversion takes one of the six (`nodup_declaredNames_iff`).
-/

namespace KeyedReflection

namespace Cpp

/-! ## Declarations -/

/-- A declaration, with what is written in front of the name that it declares and behind it. -/
structure NamedDeclaration where
  front : String
  name : String
  back : String

def NamedDeclaration.text (declaration : NamedDeclaration) : String :=
  declaration.front ++ declaration.name ++ declaration.back

/-- What a function gives. -/
def resultType : FunctionKind → String
  | .get => "std::optional<V>"
  | .set => "void"
  | .unset => "void"
  | .diff => "Diff"
  | .apply => "void"
  | .type => "std::string"
  | .parse _ => "V"
  | .format spec => spec.carrierType

/-- What a function is given. -/
def parameters : FunctionKind → String
  | .get => "(const S& s, const K& key)"
  | .set => "(S& s, const K& key, const V& value)"
  | .unset => "(S& s, const K& key)"
  | .diff => "(const S& current, const S& previous)"
  | .apply => "(S& s, const Diff& diff)"
  | .type => "(const K& key)"
  | .parse spec => "(const K& key, const " ++ spec.carrierType ++ "& value)"
  | .format _ => "(const K& key, const V& value)"

/-- The declarations of types and constants with which the header begins. -/
def headDeclarations (m : ReflectionModule) : List NamedDeclaration :=
  [⟨"typedef ::" ++ m.recordName ++ " ", "S", "; // Struct\n"⟩,
    ⟨"typedef std::string ", "K", "; // Key\n"⟩,
    ⟨"typedef std::variant<\n" ++ alternatives m.valueType ++ "> ", "V", "; // Value\n"⟩,
    ⟨"typedef std::map<K, std::optional<V>> ", "Diff", ";\n\n"⟩,
    -- The constants are members of a struct that has no other object; the struct has the same name.
    ⟨"const struct keys \x7b\n" ++ unlines (keyItemsLines 1 m.keys) ++ "\x7d ", "keys", ";\n\n"⟩]

/-- The declaration of a function in the header. -/
def prototype (f : ModuleFunction) : NamedDeclaration :=
  ⟨docComment f ++ resultType f.kind ++ " ", f.name, parameters f.kind ++ ";\n\n"⟩

/-- The declaration of a class of failures. -/
def failureDeclaration (failure : String × String) : NamedDeclaration :=
  ⟨"class ", failure.1, " : public std::out_of_range \x7b\n" ++
    unlines ["public:", "  explicit " ++ failure.1 ++ "(const K& key):",
      "    std::out_of_range(\"" ++ failure.2 ++ "\" + key) \x7b\x7d", "\x7d;", ""]⟩

/-- All declarations of the header. -/
def headerDeclarations (m : ReflectionModule) : List NamedDeclaration :=
  headDeclarations m ++ m.functions.map prototype ++ failureClasses.map failureDeclaration

/-- The declarations of the definitions that the header does not make. -/
def ownDeclarations (m : ReflectionModule) : List NamedDeclaration :=
  [⟨"const std::array<K, " ++ toString m.table.size ++ "> ", "sorted_keys", " = \x7b\n" ++
      unlines (m.table.entries.toList.zipIdx.map (fun (entry, index) => sortedKeyLine entry index) ++
        ["\x7d;", ""])⟩,
    ⟨"inline size_t ", "key_index", "(const K& key) \x7b\n" ++
      unlines [
        "  const auto lower = std::lower_bound(sorted_keys.begin(), sorted_keys.end(), key);",
        "  if (lower == sorted_keys.end() || *lower != key)", "    throw unknown_key(key);", "  else",
        "    return std::distance(sorted_keys.begin(), lower);", "\x7d", ""]⟩]

/-- The definition of a function, which declares its name once more. -/
def functionBody (table : DispatchTable) (f : ModuleFunction) : NamedDeclaration :=
  ⟨resultType f.kind ++ " ", f.name, parameters f.kind ++ " \x7b\n" ++
    unlines ((bodyLines table f).map (fun line => "  " ++ line) ++ ["\x7d", ""])⟩

/-- The names that the units declare in the namespace of the module. -/
def declaredNames (m : ReflectionModule) : List String :=
  (headerDeclarations m ++ ownDeclarations m).map NamedDeclaration.name

/-! ## Units as lists of declarations -/

@[simp] theorem unlines_nil : unlines [] = "" :=
  rfl

theorem unlines_cons (line : String) (lines : List String) :
    unlines (line :: lines) = line ++ "\n" ++ unlines lines := by
  rw [unlines, List.map_cons, String.join_cons]
  rfl

theorem unlines_append (first second : List String) :
    unlines (first ++ second) = unlines first ++ unlines second := by
  rw [unlines, List.map_append, String.join_append]
  rfl

/-- The text of several declarations. -/
def texts (declarations : List NamedDeclaration) : String :=
  String.join (declarations.map NamedDeclaration.text)

@[simp] theorem texts_nil : texts [] = "" :=
  rfl

theorem texts_append (first second : List NamedDeclaration) :
    texts (first ++ second) = texts first ++ texts second := by
  rw [texts, List.map_append, String.join_append]
  rfl

/-- The fixed functions have the names of their kinds. -/
def HasOwnName (f : ModuleFunction) : Prop :=
  match f.kind with
  | .get => f.name = "get"
  | .set => f.name = "set"
  | .unset => f.name = "unset"
  | .diff => f.name = "diff"
  | .apply => f.name = "apply"
  | .type => f.name = "type"
  | .parse spec => f.name = spec.functionName
  | .format spec => f.name = spec.functionName

theorem signature_eq {f : ModuleFunction} (named : HasOwnName f) :
    signature f = resultType f.kind ++ (" " ++ (f.name ++ parameters f.kind)) := by
  unfold HasOwnName at named
  unfold signature
  generalize f.name = name at named ⊢
  cases kind : f.kind with rw [kind] at named
  | parse spec =>
      have gives : "V " = "V" ++ " " := by decide
      dsimp only [resultType, parameters]
      rw [gives, String.append_assoc, String.append_assoc, String.append_assoc, String.append_assoc,
        String.append_assoc]
  | format spec =>
      dsimp only [resultType, parameters]
      rw [String.append_assoc, String.append_assoc]
  | _ =>
      cases named
      decide

theorem text_failure (failure : String × String) :
    (failureDeclaration failure).text = failureClass failure.1 failure.2 := by
  rw [failureClass, failureDeclaration, NamedDeclaration.text]
  simp only [unlines_cons, ← String.toList_inj, String.toList_append]
  simp

theorem text_mk (front name back : String) :
    (NamedDeclaration.mk front name back).text = front ++ (name ++ back) := by
  rw [NamedDeclaration.text, String.append_assoc]

theorem texts_cons (declaration : NamedDeclaration) (rest : List NamedDeclaration) :
    texts (declaration :: rest) = declaration.text ++ texts rest := by
  rw [texts, List.map_cons, String.join_cons]
  rfl

/-- A line in three parts, in front of what follows it. -/
theorem append_parts {front name back line : String} (same : front ++ name ++ back = line ++ "\n")
    (rest : String) : front ++ (name ++ (back ++ rest)) = line ++ ("\n" ++ rest) := by
  rw [← String.append_assoc, ← String.append_assoc, same, String.append_assoc]

theorem texts_head (m : ReflectionModule) : texts (headDeclarations m) =
    unlines ["typedef ::" ++ m.recordName ++ " S; // Struct", "typedef std::string K; // Key",
        "typedef std::variant<"] ++
      alternatives m.valueType ++
      unlines ["> V; // Value", "typedef std::map<K, std::optional<V>> Diff;", ""] ++
      keyBlock m.keys ++ "\n" := by
  have structType := @append_parts " " "S" "; // Struct\n" " S; // Struct" (by decide)
  have keyType := @append_parts "typedef std::string " "K" "; // Key\n"
    "typedef std::string K; // Key" (by decide)
  have valueType := @append_parts "> " "V" "; // Value\n" "> V; // Value" (by decide)
  have diffType := @append_parts "typedef std::map<K, std::optional<V>> " "Diff" ";\n"
    "typedef std::map<K, std::optional<V>> Diff;" (by decide)
  have keys := @append_parts "\x7d " "keys" ";\n" "\x7d keys;" (by decide)
  have variant : "typedef std::variant<\n" = "typedef std::variant<" ++ "\n" := by decide
  have opens : "const struct keys \x7b\n" = "const struct keys \x7b" ++ "\n" := by decide
  have ends : ";\n\n" = ";\n" ++ "\n" := by decide
  simp only [headDeclarations, texts_cons, text_mk]
  rw [variant, opens, ends]
  simp only [String.append_assoc, structType, keyType, valueType, diffType, keys, keyBlock, unlines_cons,
    unlines_append, unlines_nil, texts_nil, String.empty_append, String.append_empty]

theorem text_prototype {f : ModuleFunction} (named : HasOwnName f) :
    (prototype f).text = functionDeclaration f := by
  simp only [prototype, text_mk, functionDeclaration, signature_eq named, String.append_assoc]

theorem text_functionBody (table : DispatchTable) {f : ModuleFunction} (named : HasOwnName f) :
    (functionBody table f).text = functionDefinition table f := by
  have opens : " \x7b\n" = " \x7b" ++ "\n" := by decide
  simp only [functionBody, text_mk, functionDefinition, signature_eq named, unlines_append,
    unlines_cons]
  rw [opens]
  simp only [String.append_assoc, unlines_nil, String.empty_append]

theorem texts_own (m : ReflectionModule) :
    texts (ownDeclarations m) = sortedKeys m.table ++ keyIndexFunction := by
  have keys := @append_parts "> " "sorted_keys" " = \x7b\n" "> sorted_keys = \x7b" (by decide)
  have index := @append_parts "inline size_t " "key_index" "(const K& key) \x7b\n"
    "inline size_t key_index(const K& key) \x7b" (by decide)
  simp only [ownDeclarations, texts_cons, text_mk, sortedKeys, keyIndexFunction_eq, unlines_append,
    unlines_cons, String.append_assoc, keys, index, unlines_nil, texts_nil, String.empty_append,
    String.append_empty]

theorem texts_map {f : ModuleFunction → NamedDeclaration} {write : ModuleFunction → String}
    {functions : List ModuleFunction} (each : ∀ function ∈ functions, (f function).text = write function) :
    texts (functions.map f) = String.join (functions.map write) := by
  rw [texts, List.map_map]
  exact congrArg String.join (List.map_congr_left each)

/-- What the header begins with. -/
def headerOpening (m : ReflectionModule) (options : UnitOptions) : String :=
  unlines (bannerLines options.banner ++ ["#pragma once", ""] ++
    standardHeaders.map (fun header => "#include " ++ header) ++
    (if options.includes.isEmpty then []
      else "" :: options.includes.map fun header => "#include " ++ quoteInclude header) ++
    openingLines m)

/-- What the definitions begin with. -/
def definitionsOpening (m : ReflectionModule) (options : UnitOptions) : String :=
  unlines (bannerLines options.banner ++ ["#include " ++ quoteInclude options.headerInclude] ++
    openingLines m)

section

variable {m : ReflectionModule} (named : ∀ f ∈ m.functions, HasOwnName f) (options : UnitOptions)

include named

/-- The header is made of its declarations. -/
theorem declarations_eq : declarations m options =
    headerOpening m options ++ texts (headerDeclarations m) ++ closingLine m := by
  have failures : texts (failureClasses.map failureDeclaration) =
      String.join (failureClasses.map fun failure => failureClass failure.1 failure.2) := by
    rw [texts, List.map_map]
    exact congrArg String.join (List.map_congr_left fun failure _ => text_failure failure)
  have functions := texts_map fun f listed => text_prototype (named f listed)
  rw [headerDeclarations, texts_append, texts_append, texts_head, functions, failures, declarations,
    headerOpening]
  simp only [unlines_append, String.append_assoc]

/-- The definitions are made of the declarations that are theirs alone and the bodies of functions. -/
theorem definitions_eq_texts : definitions m options = definitionsOpening m options ++
    texts (ownDeclarations m ++ m.functions.map (functionBody m.table)) ++ closingLine m := by
  have functions := texts_map fun f listed => text_functionBody m.table (named f listed)
  rw [texts_append, texts_own, functions, definitions, definitionsOpening]
  simp only [String.append_assoc]

end

/-! ## The declared names -/

/-- The names that every module declares. -/
def fixedNames : List String :=
  ["S", "K", "V", "Diff", "keys", "get", "set", "unset", "diff", "apply", "type", "unknown_key",
    "non_optional_key", "sorted_keys", "key_index"]

/-- The names that every module declares and that the name of a conversion may still be. -/
def unguardedNames : List String :=
  fixedNames.filter fun name => name ∉ ReflectionModule.reservedNames

example : unguardedNames = ["S", "K", "V", "Diff", "unknown_key", "non_optional_key"] := by decide

section

variable {record : Record} {keyed : List KeyedLeaf} {parsers formatters : List ConversionSpec}
  {m : ReflectionModule}

theorem hasOwnName_of_mem {table : DispatchTable} {valueType : ValueType} {f : ModuleFunction}
    (listed : f ∈ ReflectionModule.functionsOver table valueType parsers formatters) : HasOwnName f := by
  rw [ReflectionModule.functionsOver, List.mem_append, List.mem_append] at listed
  rcases listed with (fixed | parses) | formats
  · simp only [List.mem_cons, List.not_mem_nil, or_false] at fixed
    rcases fixed with rfl | rfl | rfl | rfl | rfl | rfl <;> rfl
  · rcases List.mem_map.mp parses with ⟨spec, _, rfl⟩
    rfl
  · rcases List.mem_map.mp formats with ⟨spec, _, rfl⟩
    rfl

/-- A module declares the names that every module declares, and those of its conversions. -/
theorem declaredNames_perm
    (functions : m.functions = ReflectionModule.functionsOver m.table m.valueType parsers formatters) :
    (declaredNames m).Perm
      (fixedNames ++ (parsers ++ formatters).map ConversionSpec.functionName) := by
  have parsed : NamedDeclaration.name ∘ prototype ∘ ReflectionModule.parseFunction m.table =
      ConversionSpec.functionName := rfl
  have formatted : NamedDeclaration.name ∘ prototype ∘ ReflectionModule.formatFunction m.table =
      ConversionSpec.functionName := rfl
  have names : declaredNames m =
      ["S", "K", "V", "Diff", "keys", "get", "set", "unset", "diff", "apply", "type"] ++
        (parsers ++ formatters).map ConversionSpec.functionName ++
        ["unknown_key", "non_optional_key", "sorted_keys", "key_index"] := by
    rw [declaredNames, headerDeclarations, functions, ReflectionModule.functionsOver]
    simp only [List.map_append, List.map_map, parsed, formatted, List.append_assoc]
    rfl
  rw [names, List.append_assoc]
  exact (List.perm_append_comm.append_left _).trans (List.Perm.of_eq (by simp [fixedNames]))

theorem nodup_declaredNames_iff
    (functions : m.functions = ReflectionModule.functionsOver m.table m.valueType parsers formatters)
    (free : ReflectionModule.firstTaken? ReflectionModule.reservedNames (parsers ++ formatters) = none) :
    (declaredNames m).Nodup ↔
      ∀ spec ∈ parsers ++ formatters, spec.functionName ∉ unguardedNames := by
  rcases ReflectionModule.firstTaken?_eq_none_iff.mp free with ⟨distinct, unreserved⟩
  have fixed : fixedNames.Nodup := by decide
  rw [(declaredNames_perm functions).nodup_iff, List.nodup_append]
  constructor
  · rintro ⟨_, _, apart⟩ spec listed inside
    exact apart _ (List.mem_filter.mp inside).1 _ (List.mem_map_of_mem listed) rfl
  · intro unguarded
    refine ⟨fixed, distinct, ?_⟩
    intro name isFixed other isGiven same
    rcases List.mem_map.mp isGiven with ⟨spec, listed, rfl⟩
    apply unguarded spec listed
    rw [unguardedNames, List.mem_filter, ← same]
    exact ⟨isFixed, by simpa [same] using unreserved spec listed⟩

/-- Both units of a module that was synthesized are made of declarations, of which each name is that of one:
the names that every module has, and one for each conversion.  They differ exactly when no conversion has
one of the names that are declared and not reserved. -/
theorem declarations_distinct_iff
    (synthesized : ReflectionModule.synthesize record keyed parsers formatters = .ok m) :
    (∀ options, declarations m options =
        headerOpening m options ++ texts (headerDeclarations m) ++ closingLine m ∧
      definitions m options = definitionsOpening m options ++
        texts (ownDeclarations m ++ m.functions.map (functionBody m.table)) ++ closingLine m) ∧
    (declaredNames m).Perm (fixedNames ++ (parsers ++ formatters).map ConversionSpec.functionName) ∧
    ((declaredNames m).Nodup ↔
      ∀ spec ∈ parsers ++ formatters, spec.functionName ∉ unguardedNames) := by
  have isOver := @ReflectionModule.isOver_of_synthesized m record keyed
    { GenerateOptions.slashed with parsers, formatters } synthesized
  have functions : m.functions = _ := isOver.2.functions
  have named : ∀ f ∈ m.functions, HasOwnName f := by
    rw [functions]
    exact fun f => hasOwnName_of_mem
  exact ⟨fun options => ⟨declarations_eq named options, definitions_eq_texts named options⟩,
    declaredNames_perm functions, nodup_declaredNames_iff functions isOver.1⟩

end

/-- A spec that parses values from texts, in a function of a given name. -/
def fromText (name : String) : ConversionSpec :=
  ⟨"std::string", name, "parse_%"⟩

theorem synthesize_window {name : String} (free : name ∉ ReflectionModule.reservedNames) :
    ∃ keyed m, ReflectionModule.synthesize Record.window keyed [fromText name] [] = .ok m := by
  have untaken : ReflectionModule.firstTaken? ReflectionModule.reservedNames ([fromText name] ++ []) =
      none := by
    rw [ReflectionModule.firstTaken?_eq_none_iff]
    simpa [fromText] using free
  rcases resolve_window with ⟨keyed, resolved⟩
  rcases @buildModule_of_resolved _ { GenerateOptions.slashed with parsers := [fromText name] } _
    (by decide) resolved untaken with ⟨m, built⟩
  rcases exists_synthesized_of_built built with ⟨keyed, _, synthesized⟩
  exact ⟨keyed, m, synthesized⟩

/-- With a function to parse texts the names of the window's module still differ. -/
theorem declarations_distinct_iff_window : ∃ keyed m,
    ReflectionModule.synthesize Record.window keyed [fromText "from_text"] [] = .ok m ∧
    (∀ options, declarations m options =
        headerOpening m options ++ texts (headerDeclarations m) ++ closingLine m ∧
      definitions m options = definitionsOpening m options ++
        texts (ownDeclarations m ++ m.functions.map (functionBody m.table)) ++ closingLine m) ∧
    (declaredNames m).Perm
      (fixedNames ++ ([fromText "from_text"] ++ []).map ConversionSpec.functionName) ∧
    (declaredNames m).Nodup := by
  rcases synthesize_window (by decide : "from_text" ∉ _) with ⟨keyed, m, synthesized⟩
  rcases declarations_distinct_iff synthesized with ⟨units, names, distinct⟩
  exact ⟨keyed, m, synthesized, units, names, distinct.mpr (by decide)⟩

/-- A conversion whose function is named like the type of the record is accepted, and the module declares
the name twice. -/
theorem synthesize_named_like_type : ConversionSpec.parse "std::string;S;parse_%" = .ok (fromText "S") ∧
    ∃ keyed m, ReflectionModule.synthesize Record.window keyed [fromText "S"] [] = .ok m ∧
      ¬ (declaredNames m).Nodup := by
  refine ⟨by rfl, ?_⟩
  rcases synthesize_window (by decide : "S" ∉ _) with ⟨keyed, m, synthesized⟩
  have isOver := (@ReflectionModule.isOver_of_synthesized m _ keyed
    { GenerateOptions.slashed with parsers := [fromText "S"] } synthesized).2
  refine ⟨keyed, m, synthesized, ?_⟩
  rw [(declaredNames_perm isOver.functions).nodup_iff]
  decide

end Cpp
end KeyedReflection
