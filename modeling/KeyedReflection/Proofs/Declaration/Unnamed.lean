import KeyedReflection.Proofs.Declaration.Lookup
import KeyedReflection.Proofs.Declaration.Members
import KeyedReflection.Proofs.Declaration.Scopes

/-!
# Fields of unnamed structs

A struct without a name cannot be meant by name.  A field of its type is bound by place: to the nearest
unnamed struct or class in front of it in the same record, which is told from the others by its identity.

Which fields are bound in this way is decided by two marks, one of which has to occur anywhere in the
spelling of the type.  The spelling of an unnamed struct or class has one of them
(`FieldType.isUnnamed_of_isUnnamedRecord`), but so has that of an unnamed union, of a pointer to an unnamed
struct, or of a type in an unnamed namespace.  A field of such a type stays a leaf only as long as no
unnamed struct is in front of it (`findRecords_unnamed`).
-/

namespace KeyedReflection

open Json (Value)

/-! ## Spellings of unnamed structs -/

namespace FieldType

/-- How the compiler begins the spelling of a struct or class without a name.  The keyword is left out
where it stands in front of the type. -/
def unnamedOpenings : List String :=
  ["(unnamed struct at ", "(unnamed class at ", "(unnamed at ", "(anonymous struct at ",
    "(anonymous class at ", "(anonymous at "]

/-- Whether the last character closes the first bracket that is open, when some are open before. -/
def closesAtEnd : Nat → List Char → Bool
  | _, [] => false
  | opened, c :: cs =>
    if c = '(' then closesAtEnd (opened + 1) cs
    else if c = ')' then if opened ≤ 1 then cs.isEmpty else closesAtEnd (opened - 1) cs
    else closesAtEnd opened cs

/-- Whether a spelling is that of an unnamed struct or class, with or without the scopes around it. -/
def isUnnamedRecord (spelling : String) : Bool :=
  match (Text.Characters.splitScopes spelling.toList).getLast? with
  | none => false
  | some piece =>
    unnamedOpenings.any (fun opening => opening.toList.isPrefixOf piece) && closesAtEnd 0 piece

theorem prefix_of_mem_unnamedOpenings : ∀ opening ∈ unnamedOpenings,
    "(unnamed ".toList <+: opening.toList ∨ "(anonymous ".toList <+: opening.toList := by
  decide +kernel

/-- The spelling of an unnamed struct or class has the mark of unnamed types. -/
theorem isUnnamed_of_isUnnamedRecord {spelling : String} (isRecord : isUnnamedRecord spelling = true) :
    isUnnamed spelling = true := by
  rw [isUnnamedRecord] at isRecord
  split at isRecord
  · cases isRecord
  · rename_i piece last
    rw [Bool.and_eq_true, List.any_eq_true] at isRecord
    rcases isRecord.1 with ⟨opening, listed, begins⟩
    have marked : "(unnamed ".toList <+: opening.toList ∨ "(anonymous ".toList <+: opening.toList :=
      prefix_of_mem_unnamedOpenings opening listed
    have occurs : ∀ {mark : List Char}, mark <+: opening.toList → mark <:+: spelling.toList := by
      intro mark marks
      exact (marks.trans (List.isPrefixOf_iff_prefix.mp begins)).isInfix.trans
        (Text.Characters.suffix_of_getLast?_splitScopes last).isInfix
    rw [isUnnamed, Bool.or_eq_true]
    rcases marked with unnamed | anonymous
    · exact .inl (Text.Characters.contains_of_infix (occurs unnamed))
    · exact .inr (Text.Characters.contains_of_infix (occurs anonymous))

end FieldType

namespace Declaration

/-- The type of a field, without qualifiers and keywords in front, is written in a way that a test
accepts. -/
def IsWrittenAs (field : Declaration) (test : String → Bool) : Prop :=
  ∃ spelling, field.attributes.writtenType = some spelling ∧
    test (FieldType.dropElaborations spelling) = true

/-- The definition of a struct or class without a name. -/
def IsUnnamedDefinition (declaration : Declaration) : Prop :=
  declaration.IsDefinition ∧ declaration.attributes.hasNameEntry = false

instance (declaration : Declaration) : Decidable declaration.IsUnnamedDefinition :=
  inferInstanceAs (Decidable (_ ∧ _))

/-- The last unnamed struct or class among some children. -/
def IsNearestUnnamed (children : List Declaration) (nearest : Declaration) : Prop :=
  ∃ front behind, children = front ++ nearest :: behind ∧ nearest.IsUnnamedDefinition ∧
    ∀ later ∈ behind, ¬later.IsUnnamedDefinition

/-- Every definition in a tree has an identity, and no two have the same. -/
structure HasIdentities (root : Declaration) : Prop where
  identified : ∀ part ∈ root.parts, part.IsDefinition → part.attributes.id.isSome = true
  distinct : ((root.parts.filter fun part => part.IsDefinition).map fun part =>
    part.attributes.id).Nodup

theorem not_isNearestUnnamed_nil {nearest : Declaration} : ¬IsNearestUnnamed [] nearest := by
  rintro ⟨front, behind, none, _⟩
  exact List.append_ne_nil_of_right_ne_nil _ (List.cons_ne_nil _ _) none.symm

theorem isNearestUnnamed_snoc {children : List Declaration} {child nearest : Declaration} :
    IsNearestUnnamed (children ++ [child]) nearest ↔
      if child.IsUnnamedDefinition then nearest = child else IsNearestUnnamed children nearest := by
  by_cases unnamed : child.IsUnnamedDefinition
  · rw [if_pos unnamed]
    constructor
    · rintro ⟨front, behind, same, _, others⟩
      rcases List.eq_nil_or_concat behind with rfl | ⟨behind, last, rfl⟩
      · exact (List.append_singleton_inj.mp same).2.symm
      · rw [List.concat_eq_append, ← List.cons_append, ← List.append_assoc] at same
        have isLast := (List.append_singleton_inj.mp same).2
        exact absurd (isLast ▸ unnamed) (others last (by simp))
    · rintro rfl
      exact ⟨children, [], rfl, unnamed, fun _ none => absurd none List.not_mem_nil⟩
  · rw [if_neg unnamed]
    constructor
    · rintro ⟨front, behind, same, own, others⟩
      rcases List.eq_nil_or_concat behind with rfl | ⟨behind, last, rfl⟩
      · rw [(List.append_singleton_inj.mp same).2] at unnamed
        exact absurd own unnamed
      · rw [List.concat_eq_append] at same others
        rw [← List.cons_append, ← List.append_assoc] at same
        exact ⟨front, behind, (List.append_singleton_inj.mp same).1, own,
          fun later listed => others later (List.mem_append_left _ listed)⟩
    · rintro ⟨front, behind, rfl, own, others⟩
      refine ⟨front, behind ++ [child], ?_, own, ?_⟩
      · rw [List.append_assoc, List.cons_append]
      · exact List.forall_mem_append.mpr ⟨others, List.forall_mem_singleton.mpr unnamed⟩

end Declaration

open Declaration (IsNearestUnnamed)

namespace RecordIndex

/-! ## Definitions by identity -/

/-- A definition has an identity that none behind it has. -/
def IsLast (index : RecordIndex) (id : String) (position : Nat) : Prop :=
  ∃ definition, index.definitions[position]? = some definition ∧
    definition.declaration.attributes.id = some id ∧
    ∀ later, position < later → ∀ other, index.definitions[later]? = some other →
      other.declaration.attributes.id ≠ some id

theorem isLast_add {index : RecordIndex} {definition : RecordDefinition} {id : String}
    {position : Nat} :
    (index.add definition).IsLast id position ↔
      if definition.declaration.attributes.id = some id then position = index.definitions.size
      else index.IsLast id position := by
  have grown : (index.add definition).definitions = index.definitions.push definition := rfl
  simp only [IsLast, grown, Array.getElem?_push]
  by_cases own : definition.declaration.attributes.id = some id
  · rw [if_pos own]
    constructor
    · rintro ⟨found, there, _, none⟩
      by_cases isNew : position = index.definitions.size
      · exact isNew
      · rw [if_neg isNew] at there
        have inside := (Array.getElem?_eq_some_iff.mp there).1
        exact absurd own (none _ inside definition (if_pos rfl))
    · rintro rfl
      refine ⟨definition, if_pos rfl, own, ?_⟩
      intro later behind other there
      rw [if_neg (Nat.ne_of_gt behind), Array.getElem?_eq_none (Nat.le_of_lt behind)] at there
      cases there
  · rw [if_neg own]
    constructor
    · rintro ⟨found, there, same, none⟩
      have old : position ≠ index.definitions.size := by
        intro isNew
        rw [if_pos isNew] at there
        cases there
        exact own same
      rw [if_neg old] at there
      refine ⟨found, there, same, ?_⟩
      intro later behind other otherThere
      have inside := (Array.getElem?_eq_some_iff.mp otherThere).1
      exact none later behind other ((if_neg (Nat.ne_of_lt inside)).trans otherThere)
    · rintro ⟨found, there, same, none⟩
      have inside := (Array.getElem?_eq_some_iff.mp there).1
      refine ⟨found, (if_neg (Nat.ne_of_lt inside)).trans there, same, ?_⟩
      intro later behind other otherThere
      by_cases isNew : later = index.definitions.size
      · rw [if_pos isNew] at otherThere
        cases otherThere
        exact own
      · rw [if_neg isNew] at otherThere
        exact none later behind other otherThere

/-- Under an identity is the last definition that has it. -/
theorem find?_byId_eq_some_iff {root : Declaration} {id : String} {position : Nat} :
    (build root).byId.find? id = some position ↔ (build root).IsLast id position := by
  refine build_induction (motive := fun index => ∀ id position,
    index.byId.find? id = some position ↔ index.IsLast id position) ?_ ?_ root id position
  · intro id position
    rw [empty, SortedMap.find?_empty]
    apply iff_of_false
    · intro impossible
      cases impossible
    · rintro ⟨definition, there, _⟩
      cases there
  · intro index definition before id position
    rw [isLast_add, ← before]
    cases own : definition.declaration.attributes.id with
    | none => simp [add, own]
    | some other =>
        have found : (index.add definition).byId.find? id =
            if other = id then some index.definitions.size else index.byId.find? id := by
          rw [add, own]
          exact SortedMap.find?_insert _ _ _ _
        rw [found]
        by_cases same : other = id
        · rw [if_pos same, if_pos (congrArg some same), Option.some.injEq, eq_comm]
        · rw [if_neg same, if_neg (fun equal => same (Option.some.inj equal))]

/-! ## The unnamed definition in front of a field -/

theorem unnamedDefinition?_eq (index : RecordIndex) (child : Declaration) :
    index.unnamedDefinition? child =
      if child.IsUnnamedDefinition then some (child.attributes.id.bind index.byId.find?) else none := by
  have same : (child.attributes.kind = .recordDeclaration ∧ isDefinition child.attributes = true ∧
      (!child.attributes.hasNameEntry) = true) ↔ child.IsUnnamedDefinition := by
    rw [Declaration.IsUnnamedDefinition, Declaration.IsDefinition, Declaration.kind, Bool.not_eq_true',
      and_assoc]
  rw [unnamedDefinition?]
  exact if_congr same rfl rfl

/-- Behind some children, the last unnamed definition is what the identity of the nearest one finds. -/
theorem unnamedBehind_eq_some_iff {index : RecordIndex} {children : List Declaration}
    {position : Nat} :
    index.unnamedBehind none children = some position ↔
      ∃ nearest, IsNearestUnnamed children nearest ∧
        nearest.attributes.id.bind index.byId.find? = some position := by
  -- The last child decides, or what is in front of it does.
  induction children using List.reverseRecOn with
  | nil =>
      apply iff_of_false
      · intro impossible
        cases impossible
      · rintro ⟨nearest, isNearest, _⟩
        exact Declaration.not_isNearestUnnamed_nil isNearest
  | append_singleton children child ih =>
      rw [unnamedBehind, List.foldl_append, List.foldl_cons, List.foldl_nil, unnamedDefinition?_eq]
      simp only [Declaration.isNearestUnnamed_snoc]
      by_cases unnamed : child.IsUnnamedDefinition
      · simp only [if_pos unnamed, Option.getD_some, exists_eq_left]
      · simp only [if_neg unnamed, Option.getD_none]
        exact ih

/-! ## What the type of a field means -/

section

variable {index : RecordIndex} {definition nested : RecordDefinition} {field : Declaration}
  {unnamed : Option Nat} {position : Nat}

/-- A field whose type has the mark of unnamed types means the unnamed definition in front of it. -/
theorem nestedDefinition?_of_isUnnamed (marked : field.IsWrittenAs FieldType.isUnnamed) :
    index.nestedDefinition? definition field unnamed = some (position, nested) ↔
      unnamed = some position ∧ index.definitions[position]? = some nested := by
  rcases marked with ⟨spelling, written, isUnnamed⟩
  rw [nestedDefinition?_eq_some_iff, written, resolve?]
  simp only [isUnnamed, if_true]

theorem ne_empty_of_lookupName? {name qualified : String} {scopes : List Scope}
    (named : lookupName? name scopes = some qualified) : name ≠ "" := by
  rintro rfl
  rw [lookupName?, if_pos (.inl rfl)] at named
  cases named

/-- Under a qualified name there is a definition with a name. -/
theorem IsFirst.name_ne_empty {qualified : String} (isFirst : index.IsFirst qualified position)
    (there : index.definitions[position]? = some nested) : nested.name ≠ "" := by
  rcases isFirst with ⟨found, foundThere, named, _⟩
  rw [there] at foundThere
  cases foundThere
  exact ne_empty_of_lookupName? named

end

/-- Every other field means a definition with a name, if any. -/
theorem name_ne_empty_of_nestedDefinition? {root : Declaration} {definition nested : RecordDefinition}
    {field : Declaration} {unnamed : Option Nat} {position : Nat}
    (unmarked : ¬field.IsWrittenAs FieldType.isUnnamed)
    (meant : (build root).nestedDefinition? definition field unnamed = some (position, nested)) :
    nested.name ≠ "" := by
  rcases nestedDefinition?_eq_some_iff.mp meant with ⟨resolved, there⟩
  cases written : field.attributes.writtenType with
  | none =>
      rw [written] at resolved
      cases resolved
  | some spelling =>
      have named : ¬FieldType.isUnnamed (FieldType.dropElaborations spelling) = true :=
        fun isUnnamed => unmarked ⟨spelling, written, isUnnamed⟩
      rw [written, resolve?] at resolved
      rw [if_neg named] at resolved
      split at resolved
      · exact (find?_byName_eq_some_iff.mp resolved).name_ne_empty there
      · rcases lookUp?_eq_some_iff.mp resolved with ⟨_, _, isFirst, _⟩
        exact isFirst.name_ne_empty there

/-- In a tree with identities, the definition with the identity of a part is that part. -/
theorem declaration_eq_of_id {root part : Declaration} (identities : root.HasIdentities)
    (isPart : part ∈ root.parts) (defined : part.IsDefinition) {definition : RecordDefinition}
    (listed : definition ∈ (build root).definitions)
    (same : definition.declaration.attributes.id = part.attributes.id) :
    definition.declaration = part := by
  have isFrom := isFrom_build root definition listed
  apply List.inj_on_of_nodup_map identities.distinct _ _ same
  · exact List.mem_filter.mpr ⟨isFrom.isPart, decide_eq_true isFrom.isDefinition⟩
  · exact List.mem_filter.mpr ⟨isPart, decide_eq_true defined⟩

/-- In a tree with identities, the identity of a definition finds it. -/
theorem exists_of_isPart {root part : Declaration} (identities : root.HasIdentities)
    (isPart : part ∈ root.parts) (defined : part.IsDefinition) :
    ∃ position definition, part.attributes.id.bind (build root).byId.find? = some position ∧
      (build root).definitions[position]? = some definition ∧ definition.declaration = part := by
  have declarations := declarations_build root
  have distinct := identities.distinct
  rw [← declarations, List.map_map] at distinct
  have listed : part ∈ (build root).definitions.toList.map fun definition => definition.declaration := by
    rw [declarations]
    exact List.mem_filter.mpr ⟨isPart, decide_eq_true defined⟩
  rcases List.mem_map.mp listed with ⟨definition, inside, rfl⟩
  rcases List.getElem?_of_mem inside with ⟨position, there⟩
  rcases Option.isSome_iff_exists.mp (identities.identified _ isPart defined) with ⟨id, own⟩
  have held : (build root).definitions[position]? = some definition := by
    rw [← Array.getElem?_toList, there]
  have isLast : (build root).IsLast id position := by
    refine ⟨definition, held, own, ?_⟩
    intro later behind other otherThere same
    rw [← Array.getElem?_toList] at otherThere
    have within : position < (build root).definitions.toList.length :=
      (List.getElem?_eq_some_iff.mp there).1
    refine absurd ((List.getElem?_inj (by rwa [List.length_map]) distinct).mp ?_) (Nat.ne_of_lt behind)
    rw [List.getElem?_map, List.getElem?_map, there, otherThere, Option.map_some, Option.map_some,
      Function.comp_apply, Function.comp_apply, own, same]
  refine ⟨position, definition, ?_, held, rfl⟩
  rw [own, Option.bind_some]
  exact find?_byId_eq_some_iff.mpr isLast

/-! ## Bound as written -/

/-- A field behind some children of its record is bound to an unnamed struct or class only if its type is
written as one, and then to the nearest among those children. -/
structure BindsAsWritten (index : RecordIndex) (definition : RecordDefinition)
    (before : List Declaration) (field : Declaration) : Prop where
  onlyNearest : ∀ position nested, index.nestedDefinition? definition field
    (index.unnamedBehind none before) = some (position, nested) →
    nested.declaration.IsUnnamedDefinition →
    field.IsWrittenAs FieldType.isUnnamedRecord ∧ IsNearestUnnamed before nested.declaration
  nearest : field.IsWrittenAs FieldType.isUnnamedRecord → ∀ nearest, IsNearestUnnamed before nearest →
    ∃ position nested, index.nestedDefinition? definition field
      (index.unnamedBehind none before) = some (position, nested) ∧ nested.declaration = nearest

end RecordIndex

/-- A node of a dump without an entry for its name has no name. -/
theorem Declaration.name_ofValue {value : Value}
    (unnamed : (ofValue value).attributes.hasNameEntry = false) :
    (ofValue value).attributes.name = none := by
  have ofMembers : ∀ members, (NodeAttributes.ofMembers members).hasNameEntry = false →
      (NodeAttributes.ofMembers members).name = none := by
    intro members missing
    have absent : Json.findMember "name" members = none :=
      Option.isNone_iff_eq_none.mp (Option.isSome_eq_false_iff.mp missing)
    change textMember "name" members = none
    rw [textMember, absent, Option.bind_none]
  cases value with
  | object members =>
      rw [ofValue] at unnamed ⊢
      exact ofMembers members unnamed
  | _ => rfl

namespace RecordIndex

section

variable {root : Value} {outer : Nat} {definition : RecordDefinition} {before after : List Declaration}
  {field : Declaration}

theorem name_eq_empty_of_isUnnamedDefinition
    (there : (build (.ofValue root)).definitions[outer]? = some definition)
    (unnamed : definition.declaration.IsUnnamedDefinition) : definition.name = "" := by
  have isFrom := isFrom_build (.ofValue root) definition (Array.mem_of_getElem? there)
  rcases Dump.exists_of_getElem? there with ⟨_, node, _, same, _⟩
  rw [isFrom.name_eq]
  rw [same] at unnamed ⊢
  rw [Declaration.name_ofValue unnamed.2]
  rfl

/-- A field whose type has the mark of unnamed types is bound to what the identity of the nearest unnamed
definition in front of it finds. -/
theorem nestedDefinition?_unnamedBehind_iff (marked : field.IsWrittenAs FieldType.isUnnamed)
    {position : Nat} {nested : RecordDefinition} :
    (build (.ofValue root)).nestedDefinition? definition field
        ((build (.ofValue root)).unnamedBehind none before) = some (position, nested) ↔
      ∃ nearest id, IsNearestUnnamed before nearest ∧ nearest.attributes.id = some id ∧
        (build (.ofValue root)).IsLast id position ∧
        (build (.ofValue root)).definitions[position]? = some nested := by
  rw [nestedDefinition?_of_isUnnamed marked, unnamedBehind_eq_some_iff]
  simp only [Option.bind_eq_some_iff, find?_byId_eq_some_iff]
  constructor
  · rintro ⟨⟨nearest, isNearest, id, own, isLast⟩, there⟩
    exact ⟨nearest, id, isNearest, own, isLast, there⟩
  · rintro ⟨nearest, id, isNearest, own, isLast, there⟩
    exact ⟨⟨nearest, isNearest, id, own, isLast⟩, there⟩

/-- Where definitions have identities, a field whose type has the mark of unnamed types is bound to the
nearest unnamed definition in front of it. -/
theorem nestedDefinition?_eq_nearest_iff (identities : (Declaration.ofValue root).HasIdentities)
    (there : (build (.ofValue root)).definitions[outer]? = some definition)
    (placed : definition.declaration.children = before ++ field :: after)
    (marked : field.IsWrittenAs FieldType.isUnnamed) {nearest : Declaration} :
    (∃ position nested, (build (.ofValue root)).nestedDefinition? definition field
        ((build (.ofValue root)).unnamedBehind none before) = some (position, nested) ∧
        nested.declaration = nearest) ↔ IsNearestUnnamed before nearest := by
  have outerIsPart := (isFrom_build (.ofValue root) definition (Array.mem_of_getElem? there)).isPart
  have isPart : ∀ child, IsNearestUnnamed before child → child ∈ (Declaration.ofValue root).parts := by
    rintro child ⟨front, behind, rfl, _⟩
    have isChild : child ∈ definition.declaration.children := by
      rw [placed]
      exact List.mem_append_left _ (List.mem_append_right _ List.mem_cons_self)
    exact Declaration.mem_parts_trans (Declaration.mem_parts_of_child isChild child.mem_parts_self)
      outerIsPart
  have defined : ∀ child, IsNearestUnnamed before child → child.IsDefinition := by
    rintro child ⟨_, _, _, unnamed, _⟩
    exact unnamed.1
  constructor
  · rintro ⟨position, nested, meant, rfl⟩
    rcases (nestedDefinition?_unnamedBehind_iff marked).mp meant with
      ⟨child, id, isNearest, own, ⟨found, foundThere, same, _⟩, nestedThere⟩
    rw [nestedThere] at foundThere
    cases foundThere
    rw [declaration_eq_of_id identities (isPart child isNearest) (defined child isNearest)
      (Array.mem_of_getElem? nestedThere) (same.trans own.symm)]
    exact isNearest
  · intro isNearest
    rcases exists_of_isPart identities (isPart nearest isNearest) (defined nearest isNearest) with
      ⟨position, nested, found, nestedThere, same⟩
    refine ⟨position, nested, ?_, same⟩
    rw [nestedDefinition?_of_isUnnamed marked, unnamedBehind_eq_some_iff]
    exact ⟨⟨nearest, isNearest, found⟩, nestedThere⟩

/-- A field is bound as written exactly when its type has the mark of unnamed types only as the spelling
of an unnamed struct or class, or no unnamed definition is in front of it. -/
theorem bindsAsWritten_iff (identities : (Declaration.ofValue root).HasIdentities)
    (there : (build (.ofValue root)).definitions[outer]? = some definition)
    (placed : definition.declaration.children = before ++ field :: after) :
    (build (.ofValue root)).BindsAsWritten definition before field ↔
      (field.IsWrittenAs FieldType.isUnnamed → (∃ nearest, IsNearestUnnamed before nearest) →
        field.IsWrittenAs FieldType.isUnnamedRecord) := by
  constructor
  · rintro binds marked ⟨nearest, isNearest⟩
    rcases (nestedDefinition?_eq_nearest_iff identities there placed marked).mpr isNearest with
      ⟨position, nested, meant, rfl⟩
    have ⟨_, _, _, unnamed, _⟩ := isNearest
    exact (binds.onlyNearest position nested meant unnamed).1
  · intro onlyRecords
    constructor
    · intro position nested meant unnamed
      have nestedThere := (nestedDefinition?_eq_some_iff.mp meant).2
      have marked : field.IsWrittenAs FieldType.isUnnamed := by
        by_contra unmarked
        exact name_ne_empty_of_nestedDefinition? unmarked meant
          (name_eq_empty_of_isUnnamedDefinition nestedThere unnamed)
      have isNearest := (nestedDefinition?_eq_nearest_iff identities there placed marked).mp
        ⟨position, nested, meant, rfl⟩
      exact ⟨onlyRecords marked ⟨_, isNearest⟩, isNearest⟩
    · rintro ⟨spelling, written, isRecord⟩ nearest isNearest
      have marked : field.IsWrittenAs FieldType.isUnnamed :=
        ⟨spelling, written, FieldType.isUnnamed_of_isUnnamedRecord isRecord⟩
      exact (nestedDefinition?_eq_nearest_iff identities there placed marked).mpr isNearest

end

end RecordIndex

/-- The records that are found are laid out field by field, and a named field is a sub-record exactly when
its type means a definition.  A field whose type has no mark of unnamed types is bound to a definition with
a name, if any.  A field whose type has such a mark is bound to the definition with the identity of the
nearest unnamed one in front of it, if there is one.  Where definitions have identities, this is as the
type is written exactly when the type is that of an unnamed struct or class, has no mark, or has no unnamed
definition in front of it. -/
theorem findRecords_unnamed (root : Value) (mainFile : Option String) (pattern : String) :
    let index := RecordIndex.build (.ofValue root)
    (∀ records,
      (RecordSource.declarations ⟨.ofValue root, mainFile⟩).findRecords pattern = .ok records →
      ∀ record ∈ records, ∃ (position : Nat) (definition : RecordDefinition) (outline : Outline),
        index.definitions[position]? = some definition ∧
        index.IsOutline definition none definition.declaration.children outline ∧
        record = ⟨definition.namespaces, definition.name, .source, .ofOutline definition.name
          (Documentation.ofDeclaration definition.declaration definition.column) outline⟩ ∧
        ∀ before field after name, definition.declaration.children = before ++ field :: after →
          RecordIndex.fieldName? field = some name →
          outline.kinds[(before.filterMap RecordIndex.fieldName?).length]? = some (name,
            (index.nestedDefinition? definition field (index.unnamedBehind none before)).isSome)) ∧
    ∀ (outer : Nat) definition before field after, index.definitions[outer]? = some definition →
      definition.declaration.children = before ++ field :: after →
      (¬field.IsWrittenAs FieldType.isUnnamed → ∀ position nested,
        index.nestedDefinition? definition field (index.unnamedBehind none before) =
          some (position, nested) → ¬nested.declaration.IsUnnamedDefinition) ∧
      (field.IsWrittenAs FieldType.isUnnamed → ∀ position nested,
        index.nestedDefinition? definition field (index.unnamedBehind none before) =
            some (position, nested) ↔
          ∃ nearest id, IsNearestUnnamed before nearest ∧ nearest.attributes.id = some id ∧
            index.IsLast id position ∧ index.definitions[position]? = some nested) ∧
      ((Declaration.ofValue root).HasIdentities →
        (index.BindsAsWritten definition before field ↔
          (field.IsWrittenAs FieldType.isUnnamed → (∃ nearest, IsNearestUnnamed before nearest) →
            field.IsWrittenAs FieldType.isUnnamedRecord))) := by
  intro index
  constructor
  · intro records found record listed
    rcases DeclarationTree.exists_of_mem_findRecords found listed with
      ⟨position, definition, there, _, taken⟩
    rcases RecordIndex.recordOf_isOutline there taken with ⟨outline, isOutline, same⟩
    refine ⟨position, definition, outline, there, isOutline, same, ?_⟩
    intro before field after name placed named
    rw [placed] at isOutline
    exact isOutline.getElem?_kinds named
  · intro outer definition before field after there placed
    refine ⟨?_, ?_, ?_⟩
    · intro unmarked position nested meant unnamed
      have nestedThere := (RecordIndex.nestedDefinition?_eq_some_iff.mp meant).2
      exact RecordIndex.name_ne_empty_of_nestedDefinition? unmarked meant
        (RecordIndex.name_eq_empty_of_isUnnamedDefinition nestedThere unnamed)
    · intro marked position nested
      exact RecordIndex.nestedDefinition?_unnamedBehind_iff marked
    · exact fun identities => RecordIndex.bindsAsWritten_iff identities there placed

/-- A class, struct or union without a name. -/
def Dump.unnamedRecord (id tag : String) (children : List Value) : Value :=
  Dump.node "CXXRecordDecl" [("id", .string id), ("tagUsed", .string tag),
    ("completeDefinition", .bool true)] children

/-- The types of the fields of a struct: an unnamed struct, a pointer to it, an unnamed union and a type in
an unnamed namespace. -/
def Dump.besideTypes : List (String × String) :=
  [("inner", "Holder::(unnamed struct at window.h:2:3)"),
    ("next", "Holder::(unnamed struct at window.h:2:3) *"),
    ("either", "Holder::(unnamed union at window.h:4:3)"),
    ("hidden", "(anonymous namespace)::Size")]

/-- A struct that begins with an unnamed struct and has fields of types with the mark of unnamed types. -/
def Dump.beside : Value :=
  Dump.node "TranslationUnitDecl" []
    [Dump.node "CXXRecordDecl" [("id", .string "0x1"), ("name", .string "Holder"),
        ("tagUsed", .string "struct"), ("completeDefinition", .bool true)]
      (Dump.unnamedRecord "0x2" "struct" [Dump.field "width" "int"] ::
        Dump.unnamedRecord "0x3" "union" [Dump.field "raw" "int"] ::
        Dump.besideTypes.map fun field => Dump.field field.1 field.2)]

/-- Only the first field has the type of an unnamed struct, but every field is a sub-record with what the
unnamed struct has. -/
theorem findRecords_beside :
    (Declaration.ofValue Dump.beside).HasIdentities ∧
    Dump.besideTypes.map (fun field => FieldType.isUnnamedRecord
      (FieldType.dropElaborations field.2)) = [true, false, false, false] ∧
    ((RecordSource.declarations ⟨.ofValue Dump.beside, none⟩).findRecords "*").map
      (List.map fun record => (record.name, record.tree.leaves.map (·.dottedId record.tree))) =
      .ok [("Holder", ["inner.width", "next.width", "either.width", "hidden.width"])] ∧
    ∃ definition before field after,
      (RecordIndex.build (.ofValue Dump.beside)).definitions[0]? = some definition ∧
      definition.declaration.children = before ++ field :: after ∧
      ¬(RecordIndex.build (.ofValue Dump.beside)).BindsAsWritten definition before field := by
  have identities : (Declaration.ofValue Dump.beside).HasIdentities :=
    ⟨by decide +kernel, by decide +kernel⟩
  refine ⟨identities, by decide +kernel, by decide +kernel, ?_⟩
  -- The pointer stands behind the unnamed struct, the unnamed union and the field of the struct.
  let children := Declaration.ofItems
    (Dump.unnamedRecord "0x2" "struct" [Dump.field "width" "int"] ::
      Dump.unnamedRecord "0x3" "union" [Dump.field "raw" "int"] ::
      Dump.besideTypes.map fun field => Dump.field field.1 field.2)
  refine ⟨_, children.take 3, children[3], children.drop 4, rfl, rfl, ?_⟩
  rw [RecordIndex.bindsAsWritten_iff identities (show
    (RecordIndex.build (.ofValue Dump.beside)).definitions[0]? = some _ from rfl) rfl]
  intro onlyRecords
  have marked : children[3].IsWrittenAs FieldType.isUnnamed := ⟨_, rfl, by decide +kernel⟩
  have nearest : IsNearestUnnamed (children.take 3) children[0] :=
    ⟨[], children.tail.take 2, rfl, by decide +kernel, by decide +kernel⟩
  rcases onlyRecords marked ⟨_, nearest⟩ with ⟨spelling, written, isRecord⟩
  cases written
  revert isRecord
  decide +kernel

end KeyedReflection
