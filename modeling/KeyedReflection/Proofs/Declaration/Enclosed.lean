import KeyedReflection.Proofs.Declaration.Lawful
import KeyedReflection.Proofs.SortedMap

/-!
# The definitions of a tree

The index of a tree is built along the way through the tree, with the scopes that are open at the time.
What it holds can be read off the tree itself: the definitions among its parts, in document order, each
with the scopes that the declarations around it open.
-/

namespace KeyedReflection

namespace Declaration

mutual

/-- A declaration and everything inside it, in document order, each part with what is known of the
declarations around it, outermost first. -/
def enclosed (around : List NodeAttributes) : Declaration → List (List NodeAttributes × Declaration)
  | .node attributes children =>
    (around, .node attributes children) :: enclosedAll (around ++ [attributes]) children

/-- Several declarations and everything inside them. -/
def enclosedAll (around : List NodeAttributes) :
    List Declaration → List (List NodeAttributes × Declaration)
  | [] => []
  | declaration :: rest => declaration.enclosed around ++ enclosedAll around rest

end

theorem map_enclosedAll {around : List NodeAttributes} {declarations : List Declaration}
    (each : ∀ declaration ∈ declarations,
      (declaration.enclosed around).map Prod.snd = declaration.parts) :
    (enclosedAll around declarations).map Prod.snd = partsOf declarations := by
  induction declarations with
  | nil => rfl
  | cons declaration rest ih =>
      rcases List.forall_mem_cons.mp each with ⟨first, others⟩
      rw [enclosedAll, partsOf, List.map_append, first, ih others]

/-- Without what is around them these are the parts of the declaration. -/
theorem map_enclosed (declaration : Declaration) (around : List NodeAttributes) :
    (declaration.enclosed around).map Prod.snd = declaration.parts := by
  induction declaration using Declaration.induction generalizing around with
  | node attributes children ih =>
      rw [enclosed, parts, List.map_cons, map_enclosedAll fun child listed => ih child listed _]

end Declaration

namespace RecordIndex

/-- The definitions of an index, each with its scopes. -/
def inScopes (index : RecordIndex) : List (List Scope × Declaration) :=
  index.definitions.toList.map fun definition => (definition.scopes, definition.declaration)

/-- The definitions among some parts of a tree, each with the scopes that are open inside given ones. -/
def definedAmong (parts : List (List NodeAttributes × Declaration)) : List (List Scope × Declaration) :=
  (parts.filter fun part => part.2.IsDefinition).map fun part => (part.1.filterMap scopeOf?, part.2)

theorem definedAmong_append (parts others : List (List NodeAttributes × Declaration)) :
    definedAmong (parts ++ others) = definedAmong parts ++ definedAmong others := by
  rw [definedAmong, List.filter_append, List.map_append]
  rfl

theorem definedAmong_singleton (around : List NodeAttributes) (declaration : Declaration) :
    definedAmong [(around, declaration)] =
      if declaration.IsDefinition then [(around.filterMap scopeOf?, declaration)] else [] := by
  by_cases defined : declaration.IsDefinition <;> simp [definedAmong, defined]

/-- A declaration itself adds its own definition, if it is one. -/
theorem inScopes_enter (progress : Progress) (around : List NodeAttributes) (declaration : Declaration) :
    (enter progress (around.filterMap scopeOf?) declaration).index.inScopes =
      progress.index.inScopes ++ definedAmong [(around, declaration)] := by
  rw [enter]
  dsimp only
  rw [definedAmong_singleton]
  split
  · rename_i defined
    have isDefinition : declaration.IsDefinition := defined
    rw [if_pos isDefinition, inScopes, add]
    dsimp only
    rw [Array.toList_push, List.map_append]
    rfl
  · rename_i undefined
    have noDefinition : ¬ declaration.IsDefinition := undefined
    rw [if_neg noDefinition, List.append_nil]

theorem inScopes_visitAll {around : List NodeAttributes} {declarations : List Declaration}
    (each : ∀ declaration ∈ declarations, ∀ progress : Progress,
      (visit progress (around.filterMap scopeOf?) declaration).index.inScopes =
        progress.index.inScopes ++ definedAmong (declaration.enclosed around)) (progress : Progress) :
    (visitAll progress (around.filterMap scopeOf?) declarations).index.inScopes =
      progress.index.inScopes ++ definedAmong (Declaration.enclosedAll around declarations) := by
  induction declarations generalizing progress with
  | nil => exact (List.append_nil _).symm
  | cons declaration rest ih =>
      rcases List.forall_mem_cons.mp each with ⟨first, others⟩
      rw [visitAll, Declaration.enclosedAll, definedAmong_append, ih others, first, List.append_assoc]

theorem inScopes_visit (declaration : Declaration) (around : List NodeAttributes) (progress : Progress) :
    (visit progress (around.filterMap scopeOf?) declaration).index.inScopes =
      progress.index.inScopes ++ definedAmong (declaration.enclosed around) := by
  -- Going down, the scopes that are open are those that the declarations passed open.
  induction declaration using Declaration.induction generalizing around progress with
  | node attributes children ih =>
      have inside : around.filterMap scopeOf? ++ (scopeOf? attributes).toList =
          (around ++ [attributes]).filterMap scopeOf? := by
        rw [List.filterMap_append]
        cases opened : scopeOf? attributes with
        | none => rw [List.filterMap_cons_none opened]; rfl
        | some scope => rw [List.filterMap_cons_some opened]; rfl
      rw [visit, inside, inScopes_visitAll fun child listed progress => ih child listed _ progress,
        inScopes_enter, Declaration.enclosed, List.append_assoc, ← definedAmong_append]
      rfl

/-- The index holds the definitions of a tree in document order, with the scopes around them. -/
theorem inScopes_build (root : Declaration) : (build root).inScopes = definedAmong (root.enclosed []) :=
  inScopes_visit root [] ⟨empty, none⟩

/-- The index holds the definitions among the parts of a tree, in document order. -/
theorem declarations_build (root : Declaration) :
    (build root).definitions.toList.map (fun definition => definition.declaration) =
      root.parts.filter fun part => part.IsDefinition := by
  have held := congrArg (List.map Prod.snd) (inScopes_build root)
  rw [inScopes, definedAmong, List.map_map, List.map_map] at held
  rw [← root.map_enclosed [], List.filter_map]
  exact held

/-! ## What holds of an index -/

section

variable {motive : RecordIndex → Prop}

theorem visitAll_induction {declarations : List Declaration}
    (each : ∀ declaration ∈ declarations, ∀ progress scopes, motive progress.index →
      motive (visit progress scopes declaration).index) {progress : Progress} {scopes : List Scope}
    (before : motive progress.index) : motive (visitAll progress scopes declarations).index := by
  induction declarations generalizing progress with
  | nil => exact before
  | cons declaration rest ih =>
      rcases List.forall_mem_cons.mp each with ⟨first, others⟩
      rw [visitAll]
      exact ih others (first progress scopes before)

theorem visit_induction
    (add : ∀ index definition, motive index → motive (index.add definition))
    (declaration : Declaration) (progress : Progress) (scopes : List Scope)
    (before : motive progress.index) : motive (visit progress scopes declaration).index := by
  induction declaration using Declaration.induction generalizing progress scopes with
  | node attributes children ih =>
      rw [visit]
      apply visitAll_induction ih
      rw [enter]
      dsimp only
      split
      · exact add _ _ before
      · exact before

/-- What holds of the empty index and is kept when a definition is added holds of every index. -/
theorem build_induction (empty : motive empty)
    (add : ∀ index definition, motive index → motive (index.add definition)) (root : Declaration) :
    motive (build root) :=
  visit_induction add root ⟨_, none⟩ [] empty

end

/-- Only definitions outside of functions and templates have names to be found by. -/
def IsNamedOutside (index : RecordIndex) : Prop :=
  ∀ name position, index.byName.find? name = some position →
    ∃ definition, index.definitions[position]? = some definition ∧ .opaqueScope ∉ definition.scopes

theorem IsNamedOutside.add {index : RecordIndex} (outside : index.IsNamedOutside)
    (definition : RecordDefinition) : (index.add definition).IsNamedOutside := by
  -- The definitions that were there keep their positions.
  have stays : ∀ name position, index.byName.find? name = some position →
      ∃ other, (index.add definition).definitions[position]? = some other ∧
        .opaqueScope ∉ other.scopes := by
    intro name position found
    rcases outside name position found with ⟨other, there, isOutside⟩
    have inside := (Array.getElem?_eq_some_iff.mp there).1
    refine ⟨other, ?_, isOutside⟩
    rw [RecordIndex.add, Array.getElem?_push, if_neg (Nat.ne_of_lt inside)]
    exact there
  intro name position found
  rw [RecordIndex.add] at found
  dsimp only at found
  split at found
  · rename_i own named
    split at found
    · exact stays name position found
    · rw [SortedMap.find?_insert] at found
      split at found
      · cases found
        refine ⟨definition, ?_, ?_⟩
        · rw [RecordIndex.add, Array.getElem?_push, if_pos rfl]
        · rw [lookupName?] at named
          split at named
          · cases named
          · rename_i isOutside
            exact (not_or.mp isOutside).2
      · exact stays name position found
  · exact stays name position found

theorem isNamedOutside_build (root : Declaration) : (build root).IsNamedOutside := by
  apply build_induction _ fun index definition outside => outside.add definition
  intro name position found
  rw [empty, SortedMap.find?_empty] at found
  cases found

/-- A type that is looked up by name means a definition outside of functions and templates. -/
theorem IsNamedOutside.of_resolve? {index : RecordIndex} (outside : index.IsNamedOutside)
    {writtenType : Option String} {scope : List String} {position : Nat}
    (meant : index.resolve? writtenType scope none = some position) :
    ∃ definition, index.definitions[position]? = some definition ∧ .opaqueScope ∉ definition.scopes := by
  cases writtenType with
  | none => cases meant
  | some spelling =>
      rw [resolve?] at meant
      split at meant
      · cases meant
      · split at meant
        · exact outside _ _ meant
        · rw [lookUp?, List.findSome?_eq_some_iff] at meant
          rcases meant with ⟨_, _, _, _, found, _⟩
          exact outside _ _ found

end RecordIndex
end KeyedReflection
