import KeyedReflection.Proofs.Field.Layout
import KeyedReflection.Proofs.Key.Levels
import KeyedReflection.Proofs.Module.Building
import Mathlib.Data.List.Flatten

/-!
# Key constants and the table

The key constants of a module are made from the tree of the record, in declaration order, and its table from
the resolved keys, in key order.  Still the two agree (`constants_agree`): the names in the dotted id of an
entry lead through the groups to one constant, which has the key of the entry, and there are no other
constants.  What the definitions write as `keys` with a dotted id behind it is therefore the key that the
table has there.

`KeyItem.walk` lists the constants and groups as `FieldTree.walk` lists fields.  Following names finds what
the walk has under these names (`reached_eq`), and the constants that the walk passes are the leaves of the
tree with their keys (`constants_keyItemsBelow`).
-/

namespace KeyedReflection

open Text (IsPlainName)

/-! ## Walks through constants and groups -/

mutual

/-- An item and all that is in it, each with the names on the way to it. -/
def KeyItem.walk (above : List String) : KeyItem → List (List String × KeyItem)
  | .constant name key doc => [(above ++ [name], .constant name key doc)]
  | .group name doc items =>
    (above ++ [name], .group name doc items) :: KeyItem.walkAll (above ++ [name]) items

/-- Some items and all that is in them, each with the names on the way to it. -/
def KeyItem.walkAll (above : List String) : List KeyItem → List (List String × KeyItem)
  | [] => []
  | item :: items => item.walk above ++ KeyItem.walkAll above items

end

mutual

/-- The keys to which names lead from an item: to its own, when it is a constant of this name, and from the
items of a group by the names behind its own. -/
def KeyItem.reached : KeyItem → List String → List String
  | .constant name key _, [last] => if name = last then [key] else []
  | .group name _ items, first :: rest => if name = first then KeyItem.reachedAmong items rest else []
  | _, _ => []

/-- The keys to which names lead from some items. -/
def KeyItem.reachedAmong : List KeyItem → List String → List String
  | [], _ => []
  | item :: items, names => item.reached names ++ KeyItem.reachedAmong items names

end

namespace KeyItem

/-- Items by induction, with what holds of all items of a group at hand. -/
theorem induction {motive : KeyItem → Prop}
    (constant : ∀ name key doc, motive (.constant name key doc))
    (group : ∀ name doc items, (∀ item ∈ items, motive item) → motive (.group name doc items)) :
    ∀ item, motive item
  | .constant name key doc => constant name key doc
  | .group name doc items => group name doc items fun item listed =>
      have := List.sizeOf_lt_of_mem listed
      KeyItem.induction constant group item
termination_by item => sizeOf item
decreasing_by
  simp only [KeyItem.group.sizeOf_spec]
  omega

theorem walkAll_eq (above : List String) (items : List KeyItem) :
    walkAll above items = items.flatMap (walk above) := by
  induction items with
  | nil => rfl
  | cons item items ih => rw [walkAll, ih, List.flatMap_cons]

theorem reachedAmong_eq (items : List KeyItem) (names : List String) :
    reachedAmong items names = items.flatMap fun item => item.reached names := by
  induction items with
  | nil => rfl
  | cons item items ih => rw [reachedAmong, ih, List.flatMap_cons]

/-- The way to what is in an item goes on with some name. -/
theorem path_of_mem_walk {item : KeyItem} {above : List String} {place : List String × KeyItem}
    (listed : place ∈ item.walk above) : ∃ name rest, place.1 = above ++ name :: rest := by
  induction item using KeyItem.induction generalizing above with
  | constant name key doc =>
      rw [walk] at listed
      rw [List.mem_singleton.mp listed]
      exact ⟨name, [], rfl⟩
  | group name doc items ih =>
      rw [walk, walkAll_eq] at listed
      rcases List.mem_cons.mp listed with rfl | inside
      · exact ⟨name, [], rfl⟩
      · rcases List.mem_flatMap.mp inside with ⟨item, among, listed⟩
        rcases ih item among listed with ⟨next, rest, path⟩
        refine ⟨name, next :: rest, ?_⟩
        rw [path, List.append_assoc]
        rfl

/-- The names on the way to a constant, with its key. -/
def constant? : List String × KeyItem → Option (List String × String)
  | (path, .constant _ key _) => some (path, key)
  | (_, .group _ _ _) => none

/-- The key of a constant that stands under certain names. -/
def keyUnder? (names : List String) (place : List String × KeyItem) : Option String :=
  (constant? place).bind fun constant => if constant.1 = names then some constant.2 else none

theorem keyUnder?_eq_none {names : List String} {place : List String × KeyItem}
    (elsewhere : place.1 ≠ names) : keyUnder? names place = none := by
  rcases place with ⟨path, item⟩
  cases item with
  | constant name key doc => exact if_neg elsewhere
  | group name doc items => rfl

/-- Names that do not begin with that of a group lead to nothing in it. -/
theorem keyUnder?_walkAll_of_ne {above names : List String} {name : String}
    (different : ∀ rest, names ≠ name :: rest) (items : List KeyItem) :
    (walkAll (above ++ [name]) items).filterMap (keyUnder? (above ++ names)) = [] := by
  rw [List.filterMap_eq_nil_iff, walkAll_eq]
  intro place listed
  rcases List.mem_flatMap.mp listed with ⟨item, _, inItem⟩
  rcases path_of_mem_walk inItem with ⟨next, rest, path⟩
  apply keyUnder?_eq_none
  intro same
  rw [path, List.append_assoc] at same
  exact different _ (List.append_cancel_left same).symm

/-- Following names finds the constants that the walk has under these names. -/
theorem reached_eq (item : KeyItem) (above names : List String) :
    item.reached names = (item.walk above).filterMap (keyUnder? (above ++ names)) := by
  induction item using KeyItem.induction generalizing above names with
  | constant name key doc =>
      have own : ([(above ++ [name], constant name key doc)].filterMap (keyUnder? (above ++ names))) =
          if [name] = names then [key] else [] := by
        by_cases same : [name] = names
        · simp [keyUnder?, constant?, same]
        · simp [keyUnder?, constant?, same]
      rw [walk, own]
      rcases names with _ | ⟨first, _ | ⟨second, rest⟩⟩ <;> simp [reached]
  | group name doc items ih =>
      have inside : (walk above (group name doc items)).filterMap (keyUnder? (above ++ names)) =
          (walkAll (above ++ [name]) items).filterMap (keyUnder? (above ++ names)) := by
        rw [walk]
        exact List.filterMap_cons_none rfl
      rw [inside]
      cases names with
      | nil =>
          rw [keyUnder?_walkAll_of_ne fun _ => (List.cons_ne_nil _ _).symm]
          rfl
      | cons first rest =>
          rw [reached]
          by_cases same : name = first
          · subst same
            have each : ∀ item ∈ items, item.reached rest =
                (item.walk (above ++ [name])).filterMap (keyUnder? (above ++ name :: rest)) := by
              intro item listed
              rw [ih item listed (above ++ [name]) rest, List.append_assoc, List.singleton_append]
            rw [if_pos rfl, reachedAmong_eq, walkAll_eq, List.filterMap_flatMap,
              List.flatMap_congr each]
          · have different : ∀ others, first :: rest ≠ name :: others :=
              fun others equal => same (List.cons.inj equal).1.symm
            rw [if_neg same, keyUnder?_walkAll_of_ne different]

/-- Following names finds the constants under these names, among all that the walk passes. -/
theorem reachedAmong_eq_filterMap (items : List KeyItem) (names : List String) :
    reachedAmong items names = ((walkAll [] items).filterMap constant?).filterMap fun constant =>
      if constant.1 = names then some constant.2 else none := by
  have each : (fun item : KeyItem => item.reached names) =
      fun item => (item.walk []).filterMap (keyUnder? names) := by
    funext item
    exact item.reached_eq [] names
  rw [reachedAmong_eq, each, ← List.filterMap_flatMap, ← walkAll_eq, List.filterMap_filterMap]
  rfl

/-- Where all constants have different names on the way to them, names lead to one constant alone. -/
theorem reachedAmong_eq_singleton {items : List KeyItem}
    (distinct : (((walkAll [] items).filterMap constant?).map Prod.fst).Nodup) {names : List String}
    {key : String} (listed : (names, key) ∈ (walkAll [] items).filterMap constant?) :
    reachedAmong items names = [key] := by
  rw [reachedAmong_eq_filterMap]
  generalize (walkAll [] items).filterMap constant? = constants at distinct listed
  induction constants with
  | nil => cases listed
  | cons constant rest ih =>
      rcases List.nodup_cons.mp distinct with ⟨alone, others⟩
      rcases List.mem_cons.mp listed with rfl | later
      · have others : (rest.filterMap fun constant : List String × String =>
            if constant.1 = names then some constant.2 else none) = [] := by
          rw [List.filterMap_eq_nil_iff]
          intro other inside
          exact if_neg fun same => alone (List.mem_map.mpr ⟨other, inside, same⟩)
        simp [others]
      · have different : constant.1 ≠ names :=
          fun same => alone (List.mem_map.mpr ⟨(names, key), later, same.symm⟩)
        simp [different, ih others later]

end KeyItem

/-! ## Items of a tree -/

namespace ReflectionModule

variable {tree : FieldTree} {keyOf : SortedMap String} {levels : Nat} {names : List String}

/-- The item for a member of a field. -/
def itemFrom? (tree : FieldTree) (keyOf : SortedMap String) (levels : Nat) (above : String)
    (member : FieldId) : Option KeyItem :=
  let dotted := Text.joinAfter "." above (tree.identifier member)
  match tree.field? member with
  | some (.leaf leaf) => (keyOf.find? dotted).map fun key => .constant leaf.identifier key leaf.doc
  | some (.node node) =>
    match keyItemsBelow tree keyOf levels dotted member with
    | [] => none
    | items => some (.group node.identifier node.doc items)
  | none => none

theorem keyItemsBelow_succ (tree : FieldTree) (keyOf : SortedMap String) (levels : Nat)
    (above : String) (id : FieldId) : keyItemsBelow tree keyOf (levels + 1) above id =
      (tree.members id).filterMap (itemFrom? tree keyOf levels above) :=
  rfl

/-- The walk through the item for a member, when there is one. -/
def walkFrom (tree : FieldTree) (keyOf : SortedMap String) (levels : Nat) (names : List String)
    (member : FieldId) : List (List String × KeyItem) :=
  (itemFrom? tree keyOf levels (Text.join "." names) member).toList.flatMap (KeyItem.walk names)

theorem walkAll_keyItemsBelow_succ (tree : FieldTree) (keyOf : SortedMap String) (levels : Nat)
    (names : List String) (id : FieldId) :
    KeyItem.walkAll names (keyItemsBelow tree keyOf (levels + 1) (Text.join "." names) id) =
      (tree.members id).flatMap (walkFrom tree keyOf levels names) := by
  rw [keyItemsBelow_succ, KeyItem.walkAll_eq, List.filterMap_eq_flatMap_toList, List.flatMap_assoc]
  rfl

theorem walkFrom_none {member : FieldId} (missing : tree.field? member = none) :
    walkFrom tree keyOf levels names member = [] := by
  rw [walkFrom, itemFrom?, missing]
  rfl

section

variable {member : FieldId} (namesPlain : ∀ name ∈ names, IsPlainName name)

include namesPlain

/-- A leaf has a constant when it has a key. -/
theorem walkFrom_leaf {leaf : Leaf} (found : tree.field? member = some (.leaf leaf)) :
    walkFrom tree keyOf levels names member =
      ((keyOf.find? (Text.join "." (names ++ [leaf.identifier]))).map fun key =>
        (names ++ [leaf.identifier], KeyItem.constant leaf.identifier key leaf.doc)).toList := by
  have identifier : tree.identifier member = leaf.identifier := FieldTree.identifier_of_field? found
  rw [walkFrom, itemFrom?, found, identifier, Text.joinAfter_join namesPlain]
  dsimp only
  cases keyOf.find? (Text.join "." (names ++ [leaf.identifier])) with
  | none => rfl
  | some key =>
      dsimp only [Option.map_some, Option.toList_some]
      rw [List.flatMap_singleton, KeyItem.walk]

/-- A sub-record has a group when there are items in it. -/
theorem walkFrom_node (keyOf : SortedMap String) (levels : Nat) {node : Node}
    (found : tree.field? member = some (.node node)) :
    let path := names ++ [node.identifier]
    let items := keyItemsBelow tree keyOf levels (Text.join "." path) member
    (items = [] ∧ walkFrom tree keyOf levels names member = []) ∨
      (items ≠ [] ∧ walkFrom tree keyOf levels names member =
        (path, KeyItem.group node.identifier node.doc items) :: KeyItem.walkAll path items) := by
  have identifier : tree.identifier member = node.identifier := FieldTree.identifier_of_field? found
  intro path items
  have item : itemFrom? tree keyOf levels (Text.join "." names) member =
      match items with
      | [] => none
      | items => some (.group node.identifier node.doc items) := by
    rw [itemFrom?, found, identifier, Text.joinAfter_join namesPlain]
  rw [walkFrom, item]
  clear_value items
  cases items with
  | nil => exact .inl ⟨rfl, rfl⟩
  | cons first rest =>
      refine .inr ⟨List.cons_ne_nil _ _, ?_⟩
      dsimp only [Option.toList_some]
      rw [List.flatMap_singleton, KeyItem.walk]

end

/-! ## Order, groups, constants -/

/-- Constants and groups come in declaration order: the walk through them passes what the walk through the
tree passes, apart from some fields. -/
theorem walkAll_keyItemsBelow_sublist (plain : tree.HasPlainNames) (levels : Nat) {names : List String}
    (namesPlain : ∀ name ∈ names, IsPlainName name) (id : FieldId) :
    ((KeyItem.walkAll names (keyItemsBelow tree keyOf levels (Text.join "." names) id)).map fun place =>
      Text.join "." place.1).Sublist ((tree.walkBelow levels names id).map Prod.fst) := by
  induction levels generalizing names id with
  | zero => exact List.Sublist.refl _
  | succ levels ih =>
      rw [walkAll_keyItemsBelow_succ, FieldTree.walkBelow, List.map_flatMap, List.map_flatMap]
      apply List.Sublist.flatMap_right
      intro member inside
      have named := plain id member inside
      have extended := Outline.plain_snoc namesPlain named
      rw [List.map_cons]
      cases found : tree.field? member with
      | none =>
          rw [walkFrom_none found]
          exact List.nil_sublist _
      | some field =>
          rw [FieldTree.identifier_of_field? found] at extended ⊢
          cases field with
          | leaf leaf =>
              rw [walkFrom_leaf namesPlain found]
              cases keyOf.find? (Text.join "." (names ++ [leaf.identifier])) with
              | none => exact List.nil_sublist _
              | some key => exact (List.nil_sublist _).cons_cons _
          | node node =>
              rcases walkFrom_node namesPlain keyOf levels found with
                ⟨_, nothing⟩ | ⟨_, group⟩
              · rw [nothing]
                exact List.nil_sublist _
              · rw [group, List.map_cons]
                exact (ih extended member).cons_cons _

/-- No group is empty. -/
theorem ne_nil_of_group (plain : tree.HasPlainNames) {levels : Nat} {names : List String}
    (namesPlain : ∀ name ∈ names, IsPlainName name) {id : FieldId} {path : List String}
    {name doc : String} {items : List KeyItem}
    (listed : (path, KeyItem.group name doc items) ∈
      KeyItem.walkAll names (keyItemsBelow tree keyOf levels (Text.join "." names) id)) :
    items ≠ [] := by
  induction levels generalizing names id with
  | zero => cases listed
  | succ levels ih =>
      rw [walkAll_keyItemsBelow_succ] at listed
      rcases List.mem_flatMap.mp listed with ⟨member, inside, fromMember⟩
      have extended := Outline.plain_snoc namesPlain (plain id member inside)
      cases found : tree.field? member with
      | none =>
          rw [walkFrom_none found] at fromMember
          cases fromMember
      | some field =>
          rw [FieldTree.identifier_of_field? found] at extended
          cases field with
          | leaf leaf =>
              rw [walkFrom_leaf namesPlain found, Option.mem_toList,
                Option.map_eq_some_iff] at fromMember
              rcases fromMember with ⟨key, _, impossible⟩
              cases impossible
          | node node =>
              rcases walkFrom_node namesPlain keyOf levels found with ⟨_, nothing⟩ | ⟨nonempty, group⟩
              · rw [nothing] at fromMember
                cases fromMember
              · rw [group] at fromMember
                rcases List.mem_cons.mp fromMember with same | deeper
                · cases same
                  exact nonempty
                · exact ih extended deeper

/-- When every leaf has a key, the walk passes one constant for each leaf, in declaration order. -/
theorem constants_keyItemsBelow (plain : tree.HasPlainNames) {levels : Nat} (ancestors : List FieldId)
    (ancestorsPlain : ∀ name ∈ ancestors.map tree.identifier, IsPlainName name) {id : FieldId}
    {key : List String → String}
    (keyed : ∀ path ∈ tree.leavesBelow levels ancestors id,
      keyOf.find? (path.dottedId tree) = some (key (path.segments tree))) :
    let names := ancestors.map tree.identifier
    (KeyItem.walkAll names (keyItemsBelow tree keyOf levels (Text.join "." names) id)).filterMap
        KeyItem.constant? =
      (tree.leavesBelow levels ancestors id).map fun path =>
        (path.segments tree, key (path.segments tree)) := by
  induction levels generalizing ancestors id with
  | zero => rfl
  | succ levels ih =>
      intro names
      rw [FieldTree.leavesBelow_succ] at keyed ⊢
      rw [walkAll_keyItemsBelow_succ, List.filterMap_flatMap, List.map_flatMap]
      apply List.flatMap_congr
      intro member inside
      replace keyed : ∀ path ∈ tree.leavesFrom levels ancestors member,
          keyOf.find? (path.dottedId tree) = some (key (path.segments tree)) :=
        fun path listed => keyed path (List.mem_flatMap.mpr ⟨member, inside, listed⟩)
      have extended := Outline.plain_snoc ancestorsPlain (plain id member inside)
      rw [FieldTree.leavesFrom] at keyed ⊢
      cases found : tree.field? member with
      | none =>
          rw [walkFrom_none found]
          rfl
      | some field =>
          have identifier := FieldTree.identifier_of_field? found
          have path : (ancestors ++ [member]).map tree.identifier = names ++ [field.identifier] := by
            rw [List.map_append, List.map_singleton, identifier]
          rw [found] at keyed
          cases field with
          | leaf leaf =>
              have own := keyed ⟨ancestors, member⟩ (List.mem_singleton.mpr rfl)
              have segments : LeafPath.segments ⟨ancestors, member⟩ tree = names ++ [leaf.identifier] := path
              rw [LeafPath.dottedId, segments] at own
              rw [walkFrom_leaf ancestorsPlain found, own]
              dsimp only
              rw [List.map_singleton, segments]
              rfl
          | node node =>
              rw [← List.map_singleton, ← List.map_append] at extended
              have below := ih (ancestors ++ [member]) extended keyed
              rw [path] at below
              dsimp only at below ⊢
              rw [← below]
              rcases walkFrom_node ancestorsPlain keyOf levels found with
                ⟨nothing, walk⟩ | ⟨_, walk⟩
              · rw [walk, Field.identifier, nothing]
                rfl
              · rw [walk]
                exact List.filterMap_cons_none rfl

/-- The constants of a module are the leaves of its record, each with the key of its path. -/
theorem constants_keyItems (rules : KeyRules) (plain : tree.HasPlainNames)
    (distinct : tree.HasDistinctSiblings) :
    (KeyItem.walkAll [] (keyItems tree (rules.levelKeyed tree))).filterMap KeyItem.constant? =
      tree.leaves.map fun path => (path.segments tree, rules.levelKey (path.segments tree)) := by
  have ids : (((rules.levelKeyed tree).map fun leaf => (leaf.dottedId, leaf.key)).map Prod.fst).Nodup := by
    rw [KeyRules.levelKeyed, List.map_map, List.map_map]
    exact FieldTree.nodup_dottedId_leaves plain distinct
  have keyed : ∀ path ∈ tree.leaves,
      (SortedMap.ofList ((rules.levelKeyed tree).map fun leaf => (leaf.dottedId, leaf.key))).find?
        (path.dottedId tree) = some (rules.levelKey (path.segments tree)) := by
    intro path listed
    have leaf : KeyRules.keyedLeafAs rules.levelKey tree path ∈ rules.levelKeyed tree :=
      List.mem_map_of_mem listed
    exact SortedMap.find?_ofList_of_distinct ids (List.mem_map_of_mem leaf)
  exact constants_keyItemsBelow plain [] (by simp) keyed

end ReflectionModule

/-! ## Expressions -/

/-- The keys that an expression denotes: those to which the names behind `keys` lead. -/
def KeyItem.denoted (items : List KeyItem) (expression : String) : List String :=
  match Text.splitOn '.' expression with
  | [] => []
  | first :: names => if first = "keys" then KeyItem.reachedAmong items names else []

theorem KeyItem.denoted_keys (items : List KeyItem) {names : List String} (nonempty : names ≠ [])
    (plain : ∀ name ∈ names, IsPlainName name) :
    KeyItem.denoted items ("keys." ++ Text.join "." names) = KeyItem.reachedAmong items names := by
  have joined : "keys." ++ Text.join "." names = Text.join "." ("keys" :: names) := by
    rw [Text.join, Text.join, String.intercalate_cons_of_ne_nil nonempty]
    rfl
  have allPlain : ∀ name ∈ "keys" :: names, IsPlainName name :=
    List.forall_mem_cons.mpr ⟨by decide, plain⟩
  rw [KeyItem.denoted, joined, Text.splitOn_join_dot (List.cons_ne_nil _ _) allPlain]
  exact if_pos rfl

namespace Cpp

/-- The expression for the key of an entry. -/
def keyExpression (entry : KeyedLeaf) : String :=
  "keys." ++ entry.dottedId

/-- A line of the sorted keys: an expression, and its place and its key as a comment. -/
def sortedKeyRow (expression key : String) (index : Nat) : String :=
  "  " ++ expression ++ ", // " ++ toString index ++ " " ++ stringLiteral key

/-- A line that compares a field, and stores the difference under an expression. -/
def diffRow (id expression : String) : String :=
  "if(current." ++ id ++ " != previous." ++ id ++ ") d[" ++ expression ++ "] = current." ++ id ++ ";"

theorem sortedKeyLine_eq (entry : KeyedLeaf) (index : Nat) :
    sortedKeyLine entry index = sortedKeyRow (keyExpression entry) entry.key index := by
  have words : "  keys." = "  " ++ "keys." := rfl
  simp only [sortedKeyLine, sortedKeyRow, keyExpression, words, String.append_assoc]

theorem diffLine_eq (entry : KeyedLeaf) :
    diffLine ⟨entry.dottedId, entry.key⟩ = diffRow entry.dottedId (keyExpression entry) := by
  have words : ") d[keys." = ") d[" ++ "keys." := rfl
  unfold diffLine diffRow keyExpression
  dsimp only
  generalize entry.dottedId = id
  simp only [String.append_assoc, words]

/-- The sorted keys are expressions for the keys of the table, in its order. -/
theorem sortedKeys_eq (table : DispatchTable) : sortedKeys table =
    unlines (["const std::array<K, " ++ toString table.size ++ "> sorted_keys = \x7b"] ++
      (((table.entries.toList.map keyExpression).zip table.keys).zipIdx.map fun place =>
        sortedKeyRow place.1.1 place.1.2 place.2) ++ ["\x7d;", ""]) := by
  have rows : (fun place : KeyedLeaf × Nat => sortedKeyLine place.1 place.2) =
      fun place => sortedKeyRow (keyExpression place.1) place.1.key place.2 := by
    funext place
    exact sortedKeyLine_eq place.1 place.2
  rw [DispatchTable.keys, List.zip_map', List.zipIdx_map, List.map_map, sortedKeys, rows]
  rfl

end Cpp

/-! ## Modules -/

section

variable {record : Record} {options : GenerateOptions} {m : ReflectionModule}

/-- The function that takes differences compares the fields in the order of the table. -/
theorem ReflectionModule.IsOver.bodyLines_diff {keyed : List KeyedLeaf}
    (isOver : m.IsOver record keyed options) {f : ModuleFunction} (listed : f ∈ m.functions)
    (differs : f.kind = .diff) : Cpp.bodyLines m.table f =
      ["Diff d;"] ++ (((m.table.entries.toList.map KeyedLeaf.dottedId).zip
        (m.table.entries.toList.map Cpp.keyExpression)).map fun place =>
          Cpp.diffRow place.1 place.2) ++ ["return d;"] := by
  have rows : (Cpp.diffLine ∘ fun entry : KeyedLeaf => ⟨entry.dottedId, entry.key⟩) =
      fun entry => Cpp.diffRow entry.dottedId (Cpp.keyExpression entry) := by
    funext entry
    exact Cpp.diffLine_eq entry
  rcases isOver.body_cases listed with ⟨other, _⟩ | ⟨_, body⟩ | ⟨other, _⟩ | ⟨_, other, _⟩
  · cases differs.symm.trans other
  · unfold Cpp.bodyLines
    rw [body]
    unfold diffFunction
    dsimp only
    rw [List.zip_map', List.map_map, List.map_map, rows]
    rfl
  · cases differs.symm.trans other
  · exact absurd differs other

/-- Each entry of the table belongs to a leaf of the tree, and there is no leaf without an entry. -/
theorem exists_rules_of_built (plain : record.tree.HasPlainNames)
    (built : buildModule record options = .ok m) : ∃ rules : KeyRules,
      m.IsOver record (rules.levelKeyed record.tree) options ∧
      ∀ entry, entry ∈ m.table.entries.toList ↔
        ∃ path ∈ record.tree.leaves, KeyRules.keyedLeafAs rules.levelKey record.tree path = entry := by
  rcases exists_keyed_of_built built with ⟨keyed, resolved, _, isOver⟩
  rcases (KeyRules.resolve_eq_ok_iff plain).mp resolved with ⟨rfl, _⟩
  refine ⟨_, isOver, fun entry => ?_⟩
  rw [isOver.perm.mem_iff, KeyRules.levelKeyed, List.mem_map]

/-- The names of a leaf lead to its constant, which has the key of its path. -/
theorem reachedAmong_of_leaf (rules : KeyRules) (plain : record.tree.HasPlainNames)
    (distinct : record.tree.HasDistinctSiblings)
    (isOver : m.IsOver record (rules.levelKeyed record.tree) options) {path : LeafPath}
    (listed : path ∈ record.tree.leaves) :
    KeyItem.reachedAmong m.keys (path.segments record.tree) =
      [rules.levelKey (path.segments record.tree)] := by
  have constants := ReflectionModule.constants_keyItems rules plain distinct
  rw [← isOver.keys] at constants
  apply KeyItem.reachedAmong_eq_singleton
  · rw [constants, List.map_map]
    exact FieldTree.nodup_segments_leaves distinct
  · rw [constants]
    exact List.mem_map.mpr ⟨path, listed, rfl⟩

/-- The expression for an entry denotes the key of the entry alone. -/
theorem denoted_keyExpression (plain : record.tree.HasPlainNames)
    (distinct : record.tree.HasDistinctSiblings) (built : buildModule record options = .ok m)
    {entry : KeyedLeaf} (listed : entry ∈ m.table.entries.toList) :
    KeyItem.denoted m.keys (Cpp.keyExpression entry) = [entry.key] := by
  rcases exists_rules_of_built plain built with ⟨rules, isOver, entries⟩
  rcases (entries entry).mp listed with ⟨path, leaf, rfl⟩
  have denoted := KeyItem.denoted_keys m.keys (path.segments_ne_nil record.tree)
    (FieldTree.segments_plain plain leaf)
  exact denoted.trans (reachedAmong_of_leaf rules plain distinct isOver leaf)

/-- The key constants and the table agree.  The names in the dotted id of an entry lead to one constant alone,
which has the key of the entry, and every constant is reached in this way.  Constants and groups come in
declaration order, and no group is empty.  So what the definitions write as `keys` with the dotted id of an
entry behind it, in the list of sorted keys and where differences are taken, denotes the key of the entry. -/
theorem constants_agree (plain : record.tree.HasPlainNames)
    (distinct : record.tree.HasDistinctSiblings) (built : buildModule record options = .ok m) :
    let places := KeyItem.walkAll [] m.keys
    (∀ entry ∈ m.table.entries.toList,
      KeyItem.reachedAmong m.keys (Text.splitOn '.' entry.dottedId) = [entry.key]) ∧
    (∀ path name key doc, (path, KeyItem.constant name key doc) ∈ places →
      ∃ entry ∈ m.table.entries.toList, Text.splitOn '.' entry.dottedId = path ∧ entry.key = key) ∧
    (places.map fun place => Text.join "." place.1).Sublist (record.tree.walk.map Prod.fst) ∧
    (∀ path name doc items, (path, KeyItem.group name doc items) ∈ places → items ≠ []) ∧
    let ids := m.table.entries.toList.map KeyedLeaf.dottedId
    let expressions := m.table.entries.toList.map Cpp.keyExpression
    expressions.map (KeyItem.denoted m.keys) = m.table.keys.map (fun key => [key]) ∧
    Cpp.sortedKeys m.table =
      Cpp.unlines (["const std::array<K, " ++ toString m.table.size ++ "> sorted_keys = \x7b"] ++
        ((expressions.zip m.table.keys).zipIdx.map fun place =>
          Cpp.sortedKeyRow place.1.1 place.1.2 place.2) ++ ["\x7d;", ""]) ∧
    ∀ f ∈ m.functions, f.kind = .diff → Cpp.bodyLines m.table f = ["Diff d;"] ++
      ((ids.zip expressions).map fun place => Cpp.diffRow place.1 place.2) ++ ["return d;"] := by
  rcases exists_rules_of_built plain built with ⟨rules, isOver, entries⟩
  have constants := ReflectionModule.constants_keyItems rules plain distinct
  rw [← isOver.keys] at constants
  have topPlain : ∀ name ∈ ([] : List String), IsPlainName name := by simp
  have names : ∀ path ∈ record.tree.leaves,
      Text.splitOn '.' (path.dottedId record.tree) = path.segments record.tree :=
    fun path => FieldTree.splitOn_dottedId plain
  refine ⟨?_, ?_, ?_, ?_, ?_, Cpp.sortedKeys_eq m.table, fun f => isOver.bodyLines_diff⟩
  · intro entry listed
    rcases (entries entry).mp listed with ⟨path, leaf, rfl⟩
    rw [KeyRules.keyedLeafAs, names path leaf]
    exact reachedAmong_of_leaf rules plain distinct isOver leaf
  · intro path name key doc listed
    have constant : (path, key) ∈ (KeyItem.walkAll [] m.keys).filterMap KeyItem.constant? :=
      List.mem_filterMap.mpr ⟨_, listed, rfl⟩
    rw [constants] at constant
    rcases List.mem_map.mp constant with ⟨leafPath, leaf, same⟩
    cases same
    exact ⟨_, (entries _).mpr ⟨leafPath, leaf, rfl⟩, names leafPath leaf, rfl⟩
  · rw [isOver.keys]
    exact ReflectionModule.walkAll_keyItemsBelow_sublist plain _ topPlain _
  · intro path name doc items listed
    rw [isOver.keys] at listed
    exact ReflectionModule.ne_nil_of_group plain topPlain listed
  · rw [DispatchTable.keys, List.map_map, List.map_map]
    exact List.map_congr_left fun entry listed => denoted_keyExpression plain distinct built listed

end

theorem constants_agree_window : ∃ m, Record.window.tree.HasPlainNames ∧
    Record.window.tree.HasDistinctSiblings ∧ buildModule Record.window .slashed = .ok m ∧
    let places := KeyItem.walkAll [] m.keys
    (∀ entry ∈ m.table.entries.toList,
      KeyItem.reachedAmong m.keys (Text.splitOn '.' entry.dottedId) = [entry.key]) ∧
    (∀ path name key doc, (path, KeyItem.constant name key doc) ∈ places →
      ∃ entry ∈ m.table.entries.toList, Text.splitOn '.' entry.dottedId = path ∧ entry.key = key) ∧
    (places.map fun place => Text.join "." place.1).Sublist (Record.window.tree.walk.map Prod.fst) ∧
    (∀ path name doc items, (path, KeyItem.group name doc items) ∈ places → items ≠ []) ∧
    let ids := m.table.entries.toList.map KeyedLeaf.dottedId
    let expressions := m.table.entries.toList.map Cpp.keyExpression
    expressions.map (KeyItem.denoted m.keys) = m.table.keys.map (fun key => [key]) ∧
    Cpp.sortedKeys m.table =
      Cpp.unlines (["const std::array<K, " ++ toString m.table.size ++ "> sorted_keys = \x7b"] ++
        ((expressions.zip m.table.keys).zipIdx.map fun place =>
          Cpp.sortedKeyRow place.1.1 place.1.2 place.2) ++ ["\x7d;", ""]) ∧
    ∀ f ∈ m.functions, f.kind = .diff → Cpp.bodyLines m.table f = ["Diff d;"] ++
      ((ids.zip expressions).map fun place => Cpp.diffRow place.1 place.2) ++ ["return d;"] := by
  rcases buildModule_window with ⟨m, built⟩
  have plain : Record.window.tree.HasPlainNames := by decide
  have distinct : Record.window.tree.HasDistinctSiblings := by decide
  exact ⟨m, plain, distinct, built, constants_agree plain distinct built⟩

end KeyedReflection
