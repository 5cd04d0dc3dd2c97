import KeyedReflection.Proofs.Declaration.Lookup
import KeyedReflection.Proofs.Declaration.Members
import KeyedReflection.Proofs.Declaration.Scopes

/-!
# Names that are declared further in

A name means what the innermost scope around it declares under the name, be it a class, an enumeration or an
alias (`Dump.IsMeant`).  The index knows nothing but the structs and classes that are defined, and it knows
scopes by their names alone.  So what a name reaches can stand further out than another declaration of the
name, or in a scope without a name that is not one of those around (`Dump.IsReached`).

Everywhere else a name reaches what it means: exactly when whatever it reaches stands in the innermost scope
that declares the name (`findRecords_isMeant_iff`).
-/

namespace KeyedReflection

open Json (Value)

/-! ## Plain type names -/

/-- A type name without qualification, of a type that has a name. -/
structure FieldType.IsUnqualified (name : String) : Prop where
  ne_empty : name ≠ ""
  free : ':' ∉ name.toList
  isNamed : FieldType.isUnnamed name = false

theorem Text.dropMark_scope_of_free {text : String} (free : ':' ∉ text.toList) :
    Text.dropMark "::" text = none := by
  rw [Text.dropMark, Option.map_eq_none_iff]
  cases dropped : Text.Characters.dropMark "::".toList text.toList with
  | none => rfl
  | some rest =>
      rw [Text.Characters.eq_append_of_dropMark dropped] at free
      exact absurd List.mem_cons_self free

/-- A type that is written as a plain name is looked up. -/
theorem RecordIndex.resolve?_of_isUnqualified {spelling : String}
    (plain : FieldType.IsUnqualified (FieldType.dropElaborations spelling)) (index : RecordIndex)
    (scope : List String) (unnamed : Option Nat) :
    index.resolve? (some spelling) scope unnamed =
      index.lookUp? scope (FieldType.dropElaborations spelling) := by
  rw [resolve?, plain.isNamed, Text.dropMark_scope_of_free plain.free]
  rfl

/-! ## What a name means -/

namespace Dump

/-- The scope that a node opens, together with the node if that is what the scope is known by.  A class is
known by its name, under which it may be declared before it is defined, and a namespace by its name or by
having none, since it can be opened again. -/
def region? (node : Value) : Option (Scope × Option Value) :=
  (RecordIndex.scopeOf? (attributes node)).map fun scope =>
    (scope, if scope.isNamespace ∨ scope.name?.isSome then none else some node)

/-- The scopes that some nodes open, outermost first. -/
def regions (around : List Value) : List (Scope × Option Value) :=
  around.filterMap region?

/-- The kinds of declarations of types: classes and unions, enumerations, and aliases of both forms. -/
def typeKinds : List String :=
  classKinds ++ ["EnumDecl", "TypedefDecl", "TypeAliasDecl"]

/-- A node declares a type under a name. -/
structure DeclaresType (name : String) (node : Value) : Prop where
  isType : ∃ kind, kind? node = some kind ∧ kind ∈ typeKinds
  isExplicit : (attributes node).isImplicit = false
  named : (attributes node).name = some name

/-- A scope of a dump declares a type under a name. -/
def Declares (root : Value) (name : String) (region : List (Scope × Option Value)) : Prop :=
  ∃ entry ∈ nodes [] root, DeclaresType name entry.2 ∧ regions entry.1 = region

/-- A scope is the innermost one of those around a place that declares a type under a name. -/
structure IsInnermost (root : Value) (name : String) (place region : List (Scope × Option Value)) :
    Prop where
  encloses : region <+: place
  declares : Declares root name region
  innermost : ∀ other, other <+: place → Declares root name other → other.length ≤ region.length

/-- What a name means at a place is a definition: the first one of the name in the innermost scope that
declares it, which is not inside a function or a template. -/
structure IsMeant (root : Value) (place : List (Scope × Option Value)) (name : String)
    (position : Nat) : Prop where
  defined : ∃ around node, (definitions root)[position]? = some (around, node) ∧
    (attributes node).name = some name ∧ IsInnermost root name place (regions around) ∧
    .opaqueScope ∉ scopes around ∧
    ∀ earlier < position, ∀ others other, (definitions root)[earlier]? = some (others, other) →
      (attributes other).name = some name → regions others ≠ regions around

/-- A definition has a name and stands in the innermost scope around a place that declares a type under the
name. -/
def StandsInnermost (root : Value) (place : List (Scope × Option Value)) (name : String)
    (position : Nat) : Prop :=
  ∃ around node, (definitions root)[position]? = some (around, node) ∧
    (attributes node).name = some name ∧ IsInnermost root name place (regions around)

/-! ## What a name reaches -/

/-- The names of the scopes around a place, without those that have none. -/
def scopeNames (place : List (Scope × Option Value)) : List String :=
  (place.map Prod.fst).filterMap Scope.name?

/-- The qualified name of a node inside others, if it can be named from outside. -/
def qualifiedName? (around : List Value) (node : Value) : Option String :=
  RecordIndex.lookupName? ((attributes node).name.getD "") (scopes around)

/-- A definition has a qualified name that none in front of it has. -/
def IsFirst (root : Value) (qualified : String) (position : Nat) : Prop :=
  ∃ around node, (definitions root)[position]? = some (around, node) ∧
    qualifiedName? around node = some qualified ∧
    ∀ earlier < position, ∀ others other, (definitions root)[earlier]? = some (others, other) →
      qualifiedName? others other ≠ some qualified

/-- What a name reaches at a place by the names of scopes alone: the first definition of the longest
qualified name that any definition has, out of those that the name has behind the scope names around the
place or the outer ones of them. -/
def IsReached (root : Value) (place : List (Scope × Option Value)) (name : String)
    (position : Nat) : Prop :=
  ∃ depth ≤ (scopeNames place).length,
    IsFirst root (Text.join "::" ((scopeNames place).take depth ++ [name])) position ∧
    ∀ deeper, depth < deeper → deeper ≤ (scopeNames place).length →
      ∀ entry ∈ definitions root, qualifiedName? entry.1 entry.2 ≠
        some (Text.join "::" ((scopeNames place).take deeper ++ [name]))

theorem map_regions (around : List Value) : (regions around).map Prod.fst = scopes around := by
  rw [regions, scopes, List.map_filterMap]
  apply List.filterMap_congr
  intro outer _
  rw [region?, Option.map_map]
  exact Option.map_id'

section

variable {root : Value} {name : String} {place region other : List (Scope × Option Value)}

/-- There is one innermost scope. -/
theorem IsInnermost.unique (isInnermost : IsInnermost root name place region)
    (otherIsInnermost : IsInnermost root name place other) : region = other := by
  have lengths : region.length = other.length :=
    Nat.le_antisymm (otherIsInnermost.innermost region isInnermost.encloses isInnermost.declares)
      (isInnermost.innermost other otherIsInnermost.encloses otherIsInnermost.declares)
  rw [List.prefix_iff_eq_take.mp isInnermost.encloses,
    List.prefix_iff_eq_take.mp otherIsInnermost.encloses, lengths]

/-- A name means one definition at most. -/
theorem IsMeant.unique {first second : Nat} (isMeant : IsMeant root place name first)
    (otherIsMeant : IsMeant root place name second) : first = second := by
  rcases isMeant.defined with ⟨around, node, held, named, innermost, _, before⟩
  rcases otherIsMeant.defined with ⟨others, other, otherHeld, otherNamed, otherInnermost, _, otherBefore⟩
  have same : regions around = regions others := innermost.unique otherInnermost
  rcases Nat.lt_trichotomy first second with less | equal | greater
  · exact absurd same (otherBefore first less around node held named)
  · exact equal
  · exact absurd same.symm (before second greater others other otherHeld otherNamed)

end

/-! ## Definitions of the index -/

/-- A definition of an index is that of a node, which stands inside others. -/
structure IsDefinedBy (definition : RecordDefinition) (around : List Value) (node : Value) : Prop where
  declaration : definition.declaration = .ofValue node
  isDefinition : (Declaration.ofValue node).IsDefinition
  name : definition.name = (attributes node).name.getD ""
  scopes : definition.scopes = scopes around

section

variable {root : Value} {position : Nat} {definition : RecordDefinition} {around : List Value}
  {node : Value}

theorem exists_isDefinedBy
    (there : (RecordIndex.build (.ofValue root)).definitions[position]? = some definition) :
    ∃ around node, (definitions root)[position]? = some (around, node) ∧
      IsDefinedBy definition around node := by
  rcases exists_of_getElem? there with ⟨around, node, held, declaration, scopes⟩
  have origin := RecordIndex.isFrom_build (.ofValue root) definition (Array.mem_of_getElem? there)
  refine ⟨around, node, held, declaration, ?_, ?_, scopes⟩
  · rw [← declaration]
    exact origin.isDefinition
  · rw [origin.name_eq, declaration]
    rfl

theorem exists_definition (held : (definitions root)[position]? = some (around, node)) :
    ∃ definition, (RecordIndex.build (.ofValue root)).definitions[position]? = some definition ∧
      IsDefinedBy definition around node := by
  have sizes := congrArg List.length (inScopes_build root)
  rw [RecordIndex.inScopes, List.length_map, List.length_map, Array.length_toList] at sizes
  have inside := (List.getElem?_eq_some_iff.mp held).1
  rw [← sizes] at inside
  have there := Array.getElem?_eq_getElem inside
  rcases exists_isDefinedBy there with ⟨others, other, otherHeld, isDefinedBy⟩
  rw [held, Option.some.injEq, Prod.mk.injEq] at otherHeld
  rcases otherHeld with ⟨rfl, rfl⟩
  exact ⟨_, there, isDefinedBy⟩

theorem IsDefinedBy.lookupName? (isDefinedBy : IsDefinedBy definition around node) :
    RecordIndex.lookupName? definition.name definition.scopes = qualifiedName? around node := by
  rw [isDefinedBy.name, isDefinedBy.scopes, qualifiedName?]

/-- The names in which a definition looks names up are those of the scopes around it and its own. -/
theorem IsDefinedBy.lookupScope (isDefinedBy : IsDefinedBy definition around node) :
    definition.lookupScope = scopeNames (regions (around ++ [node])) := by
  have own : Dump.scopes [node] = [.record definition.name] := by
    have kind : (attributes node).kind = .recordDeclaration := isDefinedBy.isDefinition.1
    have opens : RecordIndex.scopeOf? (attributes node) = some (.record definition.name) := by
      rw [RecordIndex.scopeOf?, kind, isDefinedBy.name]
    exact List.filterMap_cons_some opens
  have joined : Dump.scopes (around ++ [node]) = Dump.scopes around ++ Dump.scopes [node] :=
    List.filterMap_append
  rw [scopeNames, map_regions, RecordDefinition.lookupScope, isDefinedBy.scopes, joined, own,
    List.filterMap_append]
  by_cases unnamed : definition.name = "" <;> simp [Scope.name?, unnamed]

theorem isFirst_iff {qualified : String} :
    (RecordIndex.build (.ofValue root)).IsFirst qualified position ↔
      IsFirst root qualified position := by
  constructor
  · rintro ⟨definition, there, own, before⟩
    rcases exists_isDefinedBy there with ⟨around, node, held, isDefinedBy⟩
    refine ⟨around, node, held, isDefinedBy.lookupName?.symm.trans own, ?_⟩
    intro earlier less others other earlierHeld
    rcases exists_definition earlierHeld with ⟨previous, previousThere, previousIsDefinedBy⟩
    rw [← previousIsDefinedBy.lookupName?]
    exact before earlier less previous previousThere
  · rintro ⟨around, node, held, own, before⟩
    rcases exists_definition held with ⟨definition, there, isDefinedBy⟩
    refine ⟨definition, there, isDefinedBy.lookupName?.trans own, ?_⟩
    intro earlier less previous previousThere
    rcases exists_isDefinedBy previousThere with ⟨others, other, earlierHeld, previousIsDefinedBy⟩
    rw [previousIsDefinedBy.lookupName?]
    exact before earlier less others other earlierHeld

theorem forall_definitions_iff {qualified : String} :
    (∀ definition ∈ (RecordIndex.build (.ofValue root)).definitions,
        RecordIndex.lookupName? definition.name definition.scopes ≠ some qualified) ↔
      ∀ entry ∈ definitions root, qualifiedName? entry.1 entry.2 ≠ some qualified := by
  constructor
  · intro none entry listed
    rcases List.getElem?_of_mem listed with ⟨position, held⟩
    rcases exists_definition held with ⟨definition, there, isDefinedBy⟩
    rw [← isDefinedBy.lookupName?]
    exact none definition (Array.mem_of_getElem? there)
  · intro none definition listed
    rcases Array.getElem?_of_mem listed with ⟨position, there⟩
    rcases exists_isDefinedBy there with ⟨around, node, held, isDefinedBy⟩
    rw [isDefinedBy.lookupName?]
    exact none _ (List.mem_of_getElem? held)

/-- Looking a name up finds what it reaches. -/
theorem lookUp?_eq_some_iff_isReached {place : List (Scope × Option Value)} {name : String} :
    (RecordIndex.build (.ofValue root)).lookUp? (scopeNames place) name = some position ↔
      IsReached root place name position := by
  rw [RecordIndex.lookUp?_eq_some_iff]
  simp only [isFirst_iff, forall_definitions_iff]
  rfl

end

/-! ## What is reached and what is meant -/

section

variable {root : Value} {place : List (Scope × Option Value)} {name : String} {position : Nat}

theorem qualifiedName?_of_named {around : List Value} {node : Value}
    (named : (attributes node).name = some name) :
    qualifiedName? around node = RecordIndex.lookupName? name (scopes around) := by
  rw [qualifiedName?, named]
  rfl

/-- Where a name means something, it reaches something. -/
theorem IsMeant.exists_isReached (nonempty : name ≠ "") (isMeant : IsMeant root place name position) :
    ∃ reached, IsReached root place name reached := by
  rcases isMeant.defined with ⟨around, node, held, named, isInnermost, isOutside, _⟩
  -- The names of the scopes around what is meant begin those in which the name is looked up.
  have begins : (scopes around).filterMap Scope.name? <+: scopeNames place := by
    have prefixes := (isInnermost.encloses.map Prod.fst).filterMap Scope.name?
    rw [map_regions] at prefixes
    exact prefixes
  have qualified : qualifiedName? around node =
      some (Text.join "::" ((scopes around).filterMap Scope.name? ++ [name])) := by
    rw [qualifiedName?_of_named named, RecordIndex.lookupName?]
    exact if_neg (not_or.mpr ⟨nonempty, isOutside⟩)
  have found : (RecordIndex.build (.ofValue root)).lookUp? (scopeNames place) name ≠ none := by
    intro missing
    rw [RecordIndex.lookUp?, List.findSome?_eq_none_iff] at missing
    have depth := List.mem_range.mpr (Nat.lt_succ_of_le begins.length_le)
    have none := missing _ (List.mem_reverse.mpr depth)
    rw [← List.prefix_iff_eq_take.mp begins, RecordIndex.find?_byName_eq_none_iff,
      forall_definitions_iff] at none
    exact none _ (List.mem_of_getElem? held) qualified
  rcases Option.ne_none_iff_exists'.mp found with ⟨reached, found⟩
  exact ⟨reached, lookUp?_eq_some_iff_isReached.mp found⟩

/-- What is reached is meant, if it has the name and stands in the innermost scope that declares it. -/
theorem IsReached.isMeant (isReached : IsReached root place name position)
    (innermost : StandsInnermost root place name position) : IsMeant root place name position := by
  rcases isReached with ⟨depth, _, ⟨around, node, held, qualified, before⟩, _⟩
  rcases innermost with ⟨same, sameNode, sameHeld, named, isInnermost⟩
  rw [held, Option.some.injEq, Prod.mk.injEq] at sameHeld
  rcases sameHeld with ⟨rfl, rfl⟩
  rw [qualifiedName?_of_named named] at qualified
  refine ⟨around, node, held, named, isInnermost, ?_, ?_⟩
  · intro isInside
    rw [RecordIndex.lookupName?, if_pos (.inr isInside)] at qualified
    cases qualified
  · intro earlier less others other earlierHeld earlierNamed sameRegion
    apply before earlier less others other earlierHeld
    rw [qualifiedName?_of_named earlierNamed, ← map_regions, sameRegion, map_regions, qualified]

theorem IsMeant.standsInnermost (isMeant : IsMeant root place name position) :
    StandsInnermost root place name position := by
  rcases isMeant.defined with ⟨around, node, held, named, isInnermost, _⟩
  exact ⟨around, node, held, named, isInnermost⟩

/-- A name reaches what it means exactly when whatever it reaches stands in the innermost scope that
declares the name. -/
theorem isReached_iff_isMeant (nonempty : name ≠ "") :
    (∀ position, IsReached root place name position ↔ IsMeant root place name position) ↔
      ∀ position, IsReached root place name position → StandsInnermost root place name position := by
  constructor
  · intro agrees position isReached
    exact ((agrees position).mp isReached).standsInnermost
  · intro innermost position
    constructor
    · exact fun isReached => isReached.isMeant (innermost position isReached)
    · intro isMeant
      rcases isMeant.exists_isReached nonempty with ⟨reached, isReached⟩
      rw [isMeant.unique (isReached.isMeant (innermost reached isReached))]
      exact isReached

/-- A field whose type is written as a plain name is a sub-record of the definition that the name reaches
from inside the definition with the field. -/
theorem nestedDefinition?_iff_isReached {definition : RecordDefinition} {around : List Value}
    {node : Value} (isDefinedBy : IsDefinedBy definition around node) {field : Declaration}
    {spelling : String} (written : field.attributes.writtenType = some spelling)
    (plain : FieldType.IsUnqualified (FieldType.dropElaborations spelling)) {unnamed : Option Nat} :
    (∃ nested, (RecordIndex.build (.ofValue root)).nestedDefinition? definition field unnamed =
        some (position, nested)) ↔
      IsReached root (regions (around ++ [node])) (FieldType.dropElaborations spelling) position := by
  simp only [RecordIndex.nestedDefinition?_eq_some_iff, written,
    RecordIndex.resolve?_of_isUnqualified plain, isDefinedBy.lookupScope, lookUp?_eq_some_iff_isReached]
  constructor
  · rintro ⟨_, isReached, _⟩
    exact isReached
  · intro isReached
    have ⟨_, _, ⟨around, node, held, _⟩, _⟩ := isReached
    rcases exists_definition held with ⟨nested, there, _⟩
    exact ⟨nested, isReached, there⟩

end

end Dump

/-- The records that are found are laid out field by field.  A field whose type is written as a plain name is
a sub-record of the definition that the name reaches, and a leaf if it reaches none.  The name reaches what
it means where the field stands, unless it reaches a definition that is not in the innermost scope that
declares the name; and only then. -/
theorem findRecords_isMeant_iff (root : Value) (mainFile : Option String) (pattern : String) :
    (∀ records,
      (RecordSource.declarations ⟨.ofValue root, mainFile⟩).findRecords pattern = .ok records →
      ∀ record ∈ records, ∃ (position : Nat) (definition : RecordDefinition) (outline : Outline),
        (RecordIndex.build (.ofValue root)).definitions[position]? = some definition ∧
        (RecordIndex.build (.ofValue root)).IsOutline definition none definition.declaration.children
          outline ∧
        record = ⟨definition.namespaces, definition.name, .source, .ofOutline definition.name
          (Documentation.ofDeclaration definition.declaration definition.column) outline⟩) ∧
    ∀ (outer : Nat) (definition : RecordDefinition),
      (RecordIndex.build (.ofValue root)).definitions[outer]? = some definition →
      ∃ around node, (Dump.definitions root)[outer]? = some (around, node) ∧
        Dump.IsDefinedBy definition around node ∧
        ∀ field spelling unnamed, field.attributes.writtenType = some spelling →
          let name := FieldType.dropElaborations spelling
          let place := Dump.regions (around ++ [node])
          FieldType.IsUnqualified name →
          (∀ inner, (∃ nested, (RecordIndex.build (.ofValue root)).nestedDefinition? definition field
              unnamed = some (inner, nested)) ↔ Dump.IsReached root place name inner) ∧
          ((∀ inner, Dump.IsReached root place name inner ↔ Dump.IsMeant root place name inner) ↔
            ∀ inner, Dump.IsReached root place name inner →
              Dump.StandsInnermost root place name inner) := by
  constructor
  · intro records found record listed
    rcases DeclarationTree.exists_of_mem_findRecords found listed with
      ⟨position, definition, there, _, taken⟩
    rcases RecordIndex.recordOf_isOutline there taken with ⟨outline, isOutline, same⟩
    exact ⟨position, definition, outline, there, isOutline, same⟩
  · intro outer definition there
    rcases Dump.exists_isDefinedBy there with ⟨around, node, held, isDefinedBy⟩
    refine ⟨around, node, held, isDefinedBy, ?_⟩
    intro field spelling unnamed written name place plain
    exact ⟨fun inner => Dump.nestedDefinition?_iff_isReached isDefinedBy written plain,
      Dump.isReached_iff_isMeant plain.ne_empty⟩

/-- The declaration of an alias. -/
def Dump.alias (name type : String) : Value :=
  Dump.node "TypeAliasDecl" [("name", .string name), ("type", .object [("qualType", .string type)])] []

/-- A struct with an alias inside it and a field of the type. -/
def Dump.holder : Value :=
  Dump.struct "Holder" [Dump.alias "Mode" "int", Dump.field "mode" "Mode"]

/-- A struct with the name of the alias, in front of the struct with the alias. -/
def Dump.shadowed : Value :=
  Dump.node "TranslationUnitDecl" [] [Dump.struct "Mode" [Dump.field "level" "int"], Dump.holder]

theorem Dump.nodes_shadowed : Dump.nodes [] Dump.shadowed =
    [([], Dump.shadowed),
      ([Dump.shadowed], Dump.struct "Mode" [Dump.field "level" "int"]),
      ([Dump.shadowed, Dump.struct "Mode" [Dump.field "level" "int"]], Dump.field "level" "int"),
      ([Dump.shadowed], Dump.holder),
      ([Dump.shadowed, Dump.holder], Dump.alias "Mode" "int"),
      ([Dump.shadowed, Dump.holder], Dump.field "mode" "Mode")] := by
  cbv

/-- Inside the struct the name means no definition, for the struct declares it as an alias.  Still the
definition further out is taken, and its fields come in the place of the field. -/
theorem findRecords_shadowed :
    ([Dump.shadowed], Dump.holder) ∈ Dump.definitions Dump.shadowed ∧
    (∀ inner, ¬ Dump.IsMeant Dump.shadowed (Dump.regions [Dump.shadowed, Dump.holder]) "Mode" inner) ∧
    (RecordIndex.build (.ofValue Dump.shadowed)).resolve? (some "Mode") ["Holder"] none = some 0 ∧
    ((RecordSource.declarations ⟨.ofValue Dump.shadowed, none⟩).findRecords "*").map
      (List.map fun record => (record.name, record.tree.leaves.map (·.dottedId record.tree))) =
      .ok [("Mode", ["level"]), ("Holder", ["mode.level"])] := by
  refine ⟨?_, ?_, ?_, ?_⟩
  · refine List.mem_filter.mpr ⟨?_, by decide +kernel⟩
    rw [Dump.nodes_shadowed]
    simp
  · intro inner isMeant
    rcases isMeant.defined with ⟨around, node, held, named, isInnermost, _⟩
    have shadows : Dump.Declares Dump.shadowed "Mode"
        (Dump.regions [Dump.shadowed, Dump.holder]) := by
      refine ⟨([Dump.shadowed, Dump.holder], Dump.alias "Mode" "int"), ?_, ?_, rfl⟩
      · rw [Dump.nodes_shadowed]
        simp
      · exact ⟨⟨"TypeAliasDecl", by decide +kernel, by decide⟩, by decide +kernel, by decide +kernel⟩
    -- A definition inside the struct would have to stand further in than the alias.
    have inside := isInnermost.innermost _ (List.prefix_refl _) shadows
    rcases List.mem_filter.mp (List.mem_of_getElem? held) with ⟨listed, defines⟩
    simp only [Dump.nodes_shadowed, List.mem_cons, List.not_mem_nil, or_false, Prod.mk.injEq] at listed
    rcases listed with ⟨rfl, rfl⟩ | ⟨rfl, rfl⟩ | ⟨rfl, rfl⟩ | ⟨rfl, rfl⟩ | ⟨rfl, rfl⟩ | ⟨rfl, rfl⟩
    · exact absurd inside (by decide +kernel)
    · exact absurd inside (by decide +kernel)
    · exact absurd named (by decide +kernel)
    · exact absurd inside (by decide +kernel)
    · exact absurd defines (by decide +kernel)
    · exact absurd named (by decide +kernel)
  · decide +kernel
  · decide +kernel

end KeyedReflection
