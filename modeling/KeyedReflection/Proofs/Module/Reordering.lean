import KeyedReflection.Proofs.Key.Levels
import KeyedReflection.Proofs.Module.Building

/-!
# Records with the same leaves

The table of a module, the type of its values, its functions and the unit of definitions follow from the
set of the leaves alone, each leaf taken with its dotted id, its two types and whether it is optional
(`LeafShape`).  The order in which members are declared, documentation, defaults and sub-records without
leaves show in the key constants and nowhere else (`buildModule_of_same_leaves`).

There are two steps.  Sorting by key makes one table of the leaves in any order, up to what is not in their
shapes (`DispatchTable.bare_eq_of_perm`).  And what is read off a table is read off the table without these
parts as well, statement by statement and line by line.
-/

namespace KeyedReflection

open Text (IsPlainName)

/-! ## Leaves without documentation and defaults -/

/-- A leaf without documentation, and without a word on its default. -/
def Leaf.bare (leaf : Leaf) : Leaf :=
  { leaf with hasDefault := false, doc := "" }

/-- A keyed leaf without documentation, and without a word on its default. -/
def KeyedLeaf.bare (keyed : KeyedLeaf) : KeyedLeaf :=
  { keyed with leaf := keyed.leaf.bare }

theorem KeyedLeaf.map_key_bare (keyed : List KeyedLeaf) :
    (keyed.map KeyedLeaf.bare).map KeyedLeaf.key = keyed.map KeyedLeaf.key := by
  rw [List.map_map]
  rfl

namespace DispatchTable

/-- A table of leaves without documentation, and without a word on their defaults. -/
def bare (table : DispatchTable) : DispatchTable :=
  ⟨table.entries.map KeyedLeaf.bare⟩

theorem toList_bare (table : DispatchTable) :
    table.bare.entries.toList = table.entries.toList.map KeyedLeaf.bare :=
  Array.toList_map

theorem zipIdx_bare (table : DispatchTable) : table.bare.entries.toList.zipIdx =
    table.entries.toList.zipIdx.map (Prod.map KeyedLeaf.bare id) := by
  rw [toList_bare, List.zipIdx_map]

/-- Of leaves in any order there is one ascending table. -/
theorem bare_eq_of_perm {left right : DispatchTable} (leftAscending : left.IsAscending)
    (rightAscending : right.IsAscending)
    (permuted : (left.entries.toList.map KeyedLeaf.bare).Perm
      (right.entries.toList.map KeyedLeaf.bare)) : left.bare = right.bare := by
  have ascending : ∀ {table : DispatchTable}, table.IsAscending →
      (table.entries.toList.map KeyedLeaf.bare).Pairwise fun first second =>
        first.key < second.key :=
    fun ascends => List.pairwise_map.mpr ascends
  have same : left.bare.entries.toList = right.bare.entries.toList := by
    rw [toList_bare, toList_bare]
    refine permuted.eq_of_pairwise ?_ (ascending leftAscending) (ascending rightAscending)
    intro first second _ _ before after
    exact absurd after (String.lt_asymm before)
  exact congrArg DispatchTable.mk (Array.toList_inj.mp same)

private theorem mergeEntries_bare (subset : Subset) {body : KeyedLeaf → Statement}
    (plain : ∀ entry : KeyedLeaf, body entry.bare = body entry) (merging : Merging Statement)
    (entries : List (KeyedLeaf × Nat)) :
    mergeEntries subset body merging (entries.map (Prod.map KeyedLeaf.bare id)) =
      mergeEntries subset body merging entries := by
  induction entries generalizing merging with
  | nil => rfl
  | cons place rest ih =>
      have included : subset.includes place.1.bare = subset.includes place.1 := by
        cases subset <;> rfl
      rw [List.map_cons, Prod.map, mergeEntries, mergeEntries, ih, included, plain]
      rfl

/-- A switch whose statements do not depend on documentation and defaults is read off the table without
them. -/
theorem switch_bare (table : DispatchTable) (subset : Subset) (default : DefaultBranch)
    {body : KeyedLeaf → Statement} (plain : ∀ entry : KeyedLeaf, body entry.bare = body entry) :
    table.bare.switch subset default body = table.switch subset default body := by
  rw [switch, switch, zipIdx_bare, mergeEntries_bare subset plain]

end DispatchTable

namespace ReflectionModule

theorem ofLeaves_bare (table : DispatchTable) :
    ValueType.ofLeaves table.bare.entries.toList = ValueType.ofLeaves table.entries.toList := by
  rw [ValueType.ofLeaves, DispatchTable.toList_bare, List.foldl_map]
  rfl

/-- The functions of a module are those over the table without documentation and defaults. -/
theorem functionsOver_bare (table : DispatchTable) (valueType : ValueType)
    (parsers formatters : List ConversionSpec) :
    functionsOver table.bare valueType parsers formatters =
      functionsOver table valueType parsers formatters := by
  have total : ∀ {body : KeyedLeaf → Statement}, (∀ entry : KeyedLeaf, body entry.bare = body entry) →
      totalSwitch table.bare body = totalSwitch table body := by
    intro body plain
    rw [totalSwitch, totalSwitch, table.switch_bare _ _ plain]
  have gets : getFunction table.bare = getFunction table := by
    rw [getFunction, getFunction, total fun _ => rfl]
  have sets : setFunction table.bare = setFunction table := by
    rw [setFunction, setFunction, total fun _ => rfl]
  have unsets : unsetFunction table.bare = unsetFunction table := by
    rw [unsetFunction, unsetFunction, table.switch_bare _ _ fun _ => rfl]
  have differs : diffFunction table.bare = diffFunction table := by
    rw [diffFunction, diffFunction, table.toList_bare, List.map_map]
    rfl
  have types : typeFunction table.bare valueType = typeFunction table valueType := by
    rw [typeFunction, typeFunction, total fun _ => rfl]
  have parses : parseFunction table.bare = parseFunction table := by
    funext spec
    rw [parseFunction, parseFunction, total fun _ => rfl]
  have formats : formatFunction table.bare = formatFunction table := by
    funext spec
    rw [formatFunction, formatFunction, total fun _ => rfl]
  rw [functionsOver, functionsOver, gets, sets, unsets, differs, types, parses, formats]

end ReflectionModule

namespace Cpp

theorem sortedKeys_bare (table : DispatchTable) : sortedKeys table.bare = sortedKeys table := by
  have size : table.bare.size = table.size := Array.size_map
  rw [sortedKeys, sortedKeys, table.zipIdx_bare, List.map_map, size]
  rfl

theorem caseLine_bare (table : DispatchTable) : caseLine table.bare = caseLine table := by
  funext index
  have entry : table.bare.entries[index]? = table.entries[index]?.map KeyedLeaf.bare :=
    Array.getElem?_map
  unfold caseLine
  rw [entry]
  cases table.entries[index]? <;> rfl

theorem functionDefinition_bare (table : DispatchTable) :
    functionDefinition table.bare = functionDefinition table := by
  have branches : branchLines table.bare = branchLines table := by
    funext branch
    rw [branchLines, branchLines, caseLine_bare]
  have switches : switchLines table.bare = switchLines table := by
    funext switch
    rw [switchLines, switchLines, branches]
  have bodies : bodyLines table.bare = bodyLines table := by
    funext f
    unfold bodyLines
    rw [switches]
  funext f
  rw [functionDefinition, functionDefinition, bodies]

/-- The unit of definitions shows nothing of the documentation and the defaults. -/
theorem definitions_eq {left right : ReflectionModule} (scope : left.scope = right.scope)
    (tables : left.table.bare = right.table.bare) (functions : left.functions = right.functions)
    (unit : UnitOptions) : definitions left unit = definitions right unit := by
  have keys : sortedKeys left.table = sortedKeys right.table := by
    rw [← sortedKeys_bare, tables, sortedKeys_bare]
  have written : functionDefinition left.table = functionDefinition right.table := by
    rw [← functionDefinition_bare, tables, functionDefinition_bare]
  unfold definitions openingLines closingLine
  rw [scope, keys, functions, written]

end Cpp

/-! ## Shapes of leaves -/

/-- What of a leaf shows in the definitions. -/
structure LeafShape where
  dottedId : String
  declaredType : String
  canonicalType : String
  isOptional : Bool
  deriving DecidableEq

/-- A leaf of this shape without documentation, under the key of its path. -/
def LeafShape.keyedLeaf (keyOf : List String → String) (shape : LeafShape) : KeyedLeaf :=
  let names := Text.splitOn '.' shape.dottedId
  ⟨keyOf names, shape.dottedId,
    ⟨names.getLastD "", shape.declaredType, shape.canonicalType, shape.isOptional, false, ""⟩⟩

namespace FieldTree

/-- The shape of the leaf that a path ends in. -/
def leafShape (tree : FieldTree) (path : LeafPath) : LeafShape :=
  let leaf := (tree.leaf? path.leaf).getD default
  ⟨path.dottedId tree, leaf.declaredType, leaf.canonicalType, leaf.isOptional⟩

/-- The shapes of the leaves, in declaration order. -/
def leafShapes (tree : FieldTree) : List LeafShape :=
  tree.leaves.map tree.leafShape

variable {tree : FieldTree}

theorem identifier_of_leaf? {id : FieldId} {leaf : Leaf} (found : tree.leaf? id = some leaf) :
    tree.identifier id = leaf.identifier := by
  rw [leaf?] at found
  split at found
  · rename_i field
    rw [identifier, field, ← Option.some.inj found]
    rfl
  · cases found

/-- No shape occurs twice. -/
theorem nodup_leafShapes (plain : tree.HasPlainNames) (distinct : tree.HasDistinctSiblings) :
    tree.leafShapes.Nodup := by
  have ids : (tree.leafShapes.map LeafShape.dottedId).Nodup := by
    rw [leafShapes, List.map_map]
    exact nodup_dottedId_leaves plain distinct
  exact ids.of_map

theorem bare_keyedLeafAs (plain : tree.HasPlainNames) (keyOf : List String → String)
    {path : LeafPath} (listed : path ∈ tree.leaves) :
    (KeyRules.keyedLeafAs keyOf tree path).bare = (tree.leafShape path).keyedLeaf keyOf := by
  rcases leaf?_of_mem_leaves listed with ⟨leaf, found⟩
  have segments : path.segments tree = path.ancestors.map tree.identifier ++ [leaf.identifier] := by
    rw [← identifier_of_leaf? found]
    exact List.map_append
  have last : (path.segments tree).getLastD "" = leaf.identifier := by
    rw [segments, List.getLastD_concat]
  rw [KeyRules.keyedLeafAs, leafShape, LeafShape.keyedLeaf, found]
  dsimp only [KeyedLeaf.bare, Leaf.bare, Option.getD_some]
  rw [splitOn_dottedId plain listed, last]

/-- The keyed leaves of a tree follow from the shapes, up to documentation and defaults. -/
theorem map_bare_levelKeyed (plain : tree.HasPlainNames) (rules : KeyRules) :
    (rules.levelKeyed tree).map KeyedLeaf.bare =
      tree.leafShapes.map (LeafShape.keyedLeaf rules.levelKey) := by
  rw [KeyRules.levelKeyed, leafShapes, List.map_map, List.map_map]
  exact List.map_congr_left fun _ listed => bare_keyedLeafAs plain rules.levelKey listed

end FieldTree

/-! ## Modules of records with the same leaves -/

/-- Two records of one name whose leaves have the same shapes.  The order of the members, their
documentation, defaults and sub-records without leaves may differ. -/
structure Record.HaveSameLeaves (left right : Record) : Prop where
  named : left.qualifiedName = right.qualifiedName
  shapes : ∀ shape, shape ∈ left.tree.leafShapes ↔ shape ∈ right.tree.leafShapes

section

variable {left right : Record} {options : GenerateOptions}

theorem Record.HaveSameLeaves.symm (same : left.HaveSameLeaves right) : right.HaveSameLeaves left :=
  ⟨same.named.symm, fun shape => (same.shapes shape).symm⟩

theorem Record.HaveSameLeaves.perm (same : left.HaveSameLeaves right)
    (leftPlain : left.tree.HasPlainNames) (leftDistinct : left.tree.HasDistinctSiblings)
    (rightPlain : right.tree.HasPlainNames) (rightDistinct : right.tree.HasDistinctSiblings)
    (rules : KeyRules) :
    ((rules.levelKeyed left.tree).map KeyedLeaf.bare).Perm
      ((rules.levelKeyed right.tree).map KeyedLeaf.bare) := by
  have shapes : left.tree.leafShapes.Perm right.tree.leafShapes :=
    (List.perm_ext_iff_of_nodup (FieldTree.nodup_leafShapes leftPlain leftDistinct)
      (FieldTree.nodup_leafShapes rightPlain rightDistinct)).mpr same.shapes
  rw [FieldTree.map_bare_levelKeyed leftPlain, FieldTree.map_bare_levelKeyed rightPlain]
  exact shapes.map _

/-- A style that is asked for goes before that of the origin. -/
theorem keyRulesFor_eq_of_styled (left right : Record) (overrides : KeyOverrides) (separator : String)
    {keyStyle : Option KeyStyle} (styled : keyStyle.isSome = true) :
    keyRulesFor left overrides separator keyStyle =
      keyRulesFor right overrides separator keyStyle := by
  rcases Option.isSome_iff_exists.mp styled with ⟨style, rfl⟩
  rfl

/-- The keys of the one record are different when those of the other one are. -/
theorem Record.HaveSameLeaves.exists_built (same : left.HaveSameLeaves right)
    (leftPlain : left.tree.HasPlainNames) (leftDistinct : left.tree.HasDistinctSiblings)
    (rightPlain : right.tree.HasPlainNames) (rightDistinct : right.tree.HasDistinctSiblings)
    (styled : options.keyStyle.isSome = true) (built : ∃ m, buildModule left options = .ok m) :
    ∃ m, buildModule right options = .ok m := by
  rcases built with ⟨m, built⟩
  rcases exists_keyed_of_built built with ⟨keyed, resolved, free, _⟩
  rw [keyRulesFor_eq_of_styled left right _ _ styled] at resolved
  rcases (KeyRules.resolve_eq_ok_iff leftPlain).mp resolved with ⟨rfl, distinct⟩
  have permuted := same.perm leftPlain leftDistinct rightPlain rightDistinct
    (keyRulesFor right options.overrides options.separator options.keyStyle)
  refine buildModule_of_resolved rightPlain ((KeyRules.resolve_eq_ok_iff rightPlain).mpr ⟨rfl, ?_⟩) free
  rw [← KeyedLeaf.map_key_bare] at distinct ⊢
  exact (permuted.map KeyedLeaf.key).nodup_iff.mp distinct

/-- Two records of one name with the same leaves, in whatever order and with whatever documentation, defaults
and sub-records without leaves: under a style that is asked for, both have a module or neither has, and two
such modules have one table up to documentation and defaults, one type of values, the same functions, and one
unit of definitions. -/
theorem buildModule_of_same_leaves (same : left.HaveSameLeaves right)
    (leftPlain : left.tree.HasPlainNames) (leftDistinct : left.tree.HasDistinctSiblings)
    (rightPlain : right.tree.HasPlainNames) (rightDistinct : right.tree.HasDistinctSiblings)
    (styled : options.keyStyle.isSome = true) :
    ((∃ m, buildModule left options = .ok m) ↔ ∃ m, buildModule right options = .ok m) ∧
    ∀ leftModule rightModule, buildModule left options = .ok leftModule →
      buildModule right options = .ok rightModule →
        leftModule.table.bare = rightModule.table.bare ∧
        leftModule.valueType = rightModule.valueType ∧
        leftModule.functions = rightModule.functions ∧
        ∀ unit, Cpp.definitions leftModule unit = Cpp.definitions rightModule unit := by
  constructor
  · constructor
    · exact same.exists_built leftPlain leftDistinct rightPlain rightDistinct styled
    · exact same.symm.exists_built rightPlain rightDistinct leftPlain leftDistinct styled
  · intro leftModule rightModule leftBuilt rightBuilt
    rcases exists_keyed_of_built leftBuilt with ⟨leftKeyed, leftResolved, _, leftOver⟩
    rcases exists_keyed_of_built rightBuilt with ⟨rightKeyed, rightResolved, _, rightOver⟩
    rw [keyRulesFor_eq_of_styled left right _ _ styled] at leftResolved
    rcases (KeyRules.resolve_eq_ok_iff leftPlain).mp leftResolved with ⟨rfl, _⟩
    rcases (KeyRules.resolve_eq_ok_iff rightPlain).mp rightResolved with ⟨rfl, _⟩
    have permuted := same.perm leftPlain leftDistinct rightPlain rightDistinct
      (keyRulesFor right options.overrides options.separator options.keyStyle)
    have tables : leftModule.table.bare = rightModule.table.bare :=
      DispatchTable.bare_eq_of_perm leftOver.ascending rightOver.ascending
        ((leftOver.perm.map KeyedLeaf.bare).trans
          (permuted.trans (rightOver.perm.map KeyedLeaf.bare).symm))
    have values : leftModule.valueType = rightModule.valueType := by
      rw [leftOver.valueType, ← ReflectionModule.ofLeaves_bare, tables,
        ReflectionModule.ofLeaves_bare, ← rightOver.valueType]
    have functions : leftModule.functions = rightModule.functions := by
      rw [leftOver.functions, ← ReflectionModule.functionsOver_bare, tables, values,
        ReflectionModule.functionsOver_bare, ← rightOver.functions]
    have scope : leftModule.scope = rightModule.scope := by
      rw [leftOver.scope, rightOver.scope, same.named]
    exact ⟨tables, values, functions, Cpp.definitions_eq scope tables functions⟩

end

/-- The window from a source file, with its title in front, other documentation, and a border that has no
members. -/
def Record.rearrangedWindow : Record where
  namespaces := ["ui"]
  name := "window"
  origin := .source
  tree := ((((FieldTree.new "window" "").add 0
    (.leaf ⟨"title", "std::string", "std::string", false, true, "On top.\n"⟩)).add 0
      (.node ⟨"border", "Not drawn.\n", []⟩)).add 0 (.node ⟨"size", "", []⟩)).add 3
        (.leaf ⟨"width", "length_t", "int", true, true, ""⟩)

/-- Keys with slashes, in which identifiers stay as they are. -/
def GenerateOptions.verbatim : GenerateOptions :=
  { GenerateOptions.slashed with keyStyle := some .verbatim }

theorem buildModule_of_same_leaves_window :
    let left := Record.window
    let right := Record.rearrangedWindow
    let options := GenerateOptions.verbatim
    left.HaveSameLeaves right ∧ left.tree.HasPlainNames ∧ left.tree.HasDistinctSiblings ∧
      right.tree.HasPlainNames ∧ right.tree.HasDistinctSiblings ∧
      options.keyStyle.isSome = true ∧ (∃ m, buildModule left options = .ok m) ∧
      ((∃ m, buildModule left options = .ok m) ↔ ∃ m, buildModule right options = .ok m) ∧
      ∀ leftModule rightModule, buildModule left options = .ok leftModule →
        buildModule right options = .ok rightModule →
          leftModule.table.bare = rightModule.table.bare ∧
          leftModule.valueType = rightModule.valueType ∧
          leftModule.functions = rightModule.functions ∧
          ∀ unit, Cpp.definitions leftModule unit = Cpp.definitions rightModule unit := by
  have shapes : Record.window.tree.leafShapes.Perm Record.rearrangedWindow.tree.leafShapes := by
    decide +kernel
  have same : Record.window.HaveSameLeaves Record.rearrangedWindow :=
    ⟨rfl, fun _ => shapes.mem_iff⟩
  have leftPlain : Record.window.tree.HasPlainNames := by decide
  have leftDistinct : Record.window.tree.HasDistinctSiblings := by decide
  have rightPlain : Record.rearrangedWindow.tree.HasPlainNames := by decide
  have rightDistinct : Record.rearrangedWindow.tree.HasDistinctSiblings := by decide
  have styled : GenerateOptions.verbatim.keyStyle.isSome = true := rfl
  rcases resolve_window with ⟨keyed, resolved⟩
  have built : ∃ m, buildModule Record.window .verbatim = .ok m :=
    buildModule_of_resolved leftPlain resolved rfl
  exact ⟨same, leftPlain, leftDistinct, rightPlain, rightDistinct, styled, built,
    buildModule_of_same_leaves same leftPlain leftDistinct rightPlain rightDistinct styled⟩

end KeyedReflection
