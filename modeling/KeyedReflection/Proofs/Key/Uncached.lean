import KeyedReflection.Proofs.Key.Levels
import KeyedReflection.Proofs.Module.Building

/-!
# Keys without a memory

Where no override is empty, the key of a path is simply its parts with the separator in between
(`KeyRules.pathKey`).  A resolver goes down a path by way of the keys that it remembers, of whatever trees
these are, and gives the same keys.  Resolving a tree therefore keys its leaves as if nothing were remembered.
It stops at the first leaf whose key was given before, and only there (`KeyRules.resolveFrom_eq_iff`).
-/

namespace KeyedReflection

open Text (IsPlainName)

/-- Overrides that put something in the place of a segment. -/
def KeyOverrides.HaveSegments (overrides : KeyOverrides) : Prop :=
  ∀ dotted segment, overrides.find? dotted = some segment → segment ≠ ""

theorem KeyStyle.segment_ne_empty (style : KeyStyle) {identifier : String} (named : identifier ≠ "") :
    style.segment identifier ≠ "" := by
  cases style with
  | hyphenated =>
      intro empty
      rw [segment, ← String.toList_eq_nil_iff, String.toList_ofList, List.map_eq_nil_iff] at empty
      exact named (String.toList_eq_nil_iff.mp empty)
  | verbatim => exact named

namespace KeyRules

variable {rules : KeyRules} {cache : KeyCache}

/-! ## Keys of paths -/

/-- What the levels of a path add to the key, from a level on. -/
def parts (rules : KeyRules) : List String → List String → List String
  | _, [] => []
  | above, name :: rest => rules.part above name :: rules.parts (above ++ [name]) rest

/-- The key of a path. -/
def pathKey (rules : KeyRules) (names : List String) : String :=
  Text.join rules.separator (rules.parts [] names)

theorem parts_concat (rules : KeyRules) (above names : List String) (name : String) :
    rules.parts above (names ++ [name]) =
      rules.parts above names ++ [rules.part (above ++ names) name] := by
  induction names generalizing above with
  | nil => rw [List.append_nil]; rfl
  | cons first rest ih =>
      rw [List.cons_append, parts, parts, ih, List.append_assoc]
      rfl

theorem part_ne_empty (replaces : rules.overrides.HaveSegments) (above : List String) {name : String}
    (named : name ≠ "") : rules.part above name ≠ "" := by
  rw [part]
  cases replaced : rules.overrides.find? (Text.join "." (above ++ [name])) with
  | none => exact rules.style.segment_ne_empty named
  | some segment => exact replaces _ segment replaced

theorem parts_ne_empty (replaces : rules.overrides.HaveSegments) {above names : List String}
    (plain : ∀ name ∈ names, IsPlainName name) : ∀ part ∈ rules.parts above names, part ≠ "" := by
  induction names generalizing above with
  | nil =>
      intro part listed
      cases listed
  | cons name rest ih =>
      rcases List.forall_mem_cons.mp plain with ⟨first, others⟩
      rw [parts]
      exact List.forall_mem_cons.mpr ⟨part_ne_empty replaces above first.1, ih others⟩

/-- The key of a path comes from that of the path above. -/
theorem spells_pathKey (replaces : rules.overrides.HaveSegments) : rules.Spells rules.pathKey where
  top := rfl
  next := by
    intro names plain name
    rw [pathKey, pathKey, parts_concat, List.nil_append,
      Text.joinAfter_join_of_pieces rules.separator (parts_ne_empty replaces plain)]

/-! ## What a resolver remembers -/

/-- Everything that is remembered under the dotted form of a path is the key of the path. -/
def Recalls (rules : KeyRules) (cache : KeyCache) : Prop :=
  ∀ names, (∀ name ∈ names, IsPlainName name) → ∀ key,
    cache.find? (Text.join "." names) = some key → key = rules.pathKey names

theorem recalls_empty (rules : KeyRules) : rules.Recalls .empty :=
  recallsAs_empty rules.pathKey

/-- A path gets its own key, whatever is remembered. -/
theorem Recalls.keyFor (recalls : rules.Recalls cache) (replaces : rules.overrides.HaveSegments)
    {segments : List String} (plain : ∀ segment ∈ segments, IsPlainName segment) :
    (rules.keyFor cache segments).1 = rules.pathKey segments ∧
      rules.Recalls (rules.keyFor cache segments).2 :=
  RecallsAs.keyFor recalls (spells_pathKey replaces) plain

/-! ## Keys of trees -/

/-- The leaf at a path with its key and its dotted id. -/
def keyedLeafAt (rules : KeyRules) (tree : FieldTree) (path : LeafPath) : KeyedLeaf :=
  ⟨rules.pathKey (path.segments tree), path.dottedId tree, (tree.leaf? path.leaf).getD default⟩

/-- All leaves of a tree in declaration order, each with its key. -/
def keyedLeaves (rules : KeyRules) (tree : FieldTree) : List KeyedLeaf :=
  tree.leaves.map (rules.keyedLeafAt tree)

/-- Resolving a tree gives its leaves their own keys, or names the first clash, and what is remembered
afterwards are keys of paths again. -/
theorem Recalls.resolveFrom (recalls : rules.Recalls cache) (replaces : rules.overrides.HaveSegments)
    {tree : FieldTree} (plain : tree.HasPlainNames) :
    rules.Recalls (rules.resolveFrom cache tree).2 ∧
      (((rules.resolveFrom cache tree).1 = .ok (rules.keyedLeaves tree) ∧
          ((rules.keyedLeaves tree).map KeyedLeaf.key).Nodup) ∨
        ∃ clash, (rules.resolveFrom cache tree).1 = .error clash ∧
          clash.IsFirstAmong (rules.keyedLeaves tree)) :=
  RecallsAs.resolveFrom recalls (spells_pathKey replaces) plain

/-! ## Resolvers in use -/

/-- What a resolver can remember: nothing at first, and later what keying paths and trees has left behind,
whether they were refused or not. -/
inductive Remembers (rules : KeyRules) : KeyCache → Prop where
  | nothing : rules.Remembers .empty
  | path {cache : KeyCache} {segments : List String} (before : rules.Remembers cache)
      (plain : ∀ segment ∈ segments, IsPlainName segment) :
      rules.Remembers (rules.keyFor cache segments).2
  | tree {cache : KeyCache} {tree : FieldTree} (before : rules.Remembers cache)
      (plain : tree.HasPlainNames) : rules.Remembers (rules.resolveFrom cache tree).2

theorem Remembers.recalls (remembers : rules.Remembers cache)
    (replaces : rules.overrides.HaveSegments) : rules.Recalls cache := by
  induction remembers with
  | nothing => exact rules.recalls_empty
  | path _ plain ih => exact (ih.keyFor replaces plain).2
  | tree _ plain ih => exact (ih.resolveFrom replaces plain).1

/-- Whatever a resolver was used for before, it keys the leaves of a tree in declaration order, each by its
own path, when these keys are different.  Otherwise it names the first leaf whose key was given before, and
the leaf that had it. -/
theorem resolveFrom_eq_iff (replaces : rules.overrides.HaveSegments)
    (remembers : rules.Remembers cache) {tree : FieldTree} (plain : tree.HasPlainNames) :
    (∀ path ∈ tree.leaves, tree.leaf? path.leaf = some (rules.keyedLeafAt tree path).leaf) ∧
    (∀ keyed, (rules.resolveFrom cache tree).1 = .ok keyed ↔
      keyed = rules.keyedLeaves tree ∧ ((rules.keyedLeaves tree).map KeyedLeaf.key).Nodup) ∧
    ∀ clash, (rules.resolveFrom cache tree).1 = .error clash ↔
      clash.IsFirstAmong (rules.keyedLeaves tree) := by
  have verdict := ((remembers.recalls replaces).resolveFrom replaces plain).2
  refine ⟨?_, ?_, ?_⟩
  · intro path listed
    rcases FieldTree.leaf?_of_mem_leaves listed with ⟨leaf, found⟩
    rw [keyedLeafAt, found]
    rfl
  · intro keyed
    rcases verdict with ⟨resolved, distinct⟩ | ⟨clash, failed, isFirst⟩
    · rw [resolved, Except.ok.injEq]
      exact ⟨fun same => ⟨same.symm, distinct⟩, fun same => same.1.symm⟩
    · rw [failed]
      exact iff_of_false nofun fun same => isFirst.not_nodup same.2
  · intro clash
    rcases verdict with ⟨resolved, distinct⟩ | ⟨other, failed, isFirst⟩
    · rw [resolved]
      exact iff_of_false nofun fun isFirst => isFirst.not_nodup distinct
    · rw [failed, Except.error.injEq]
      exact ⟨fun same => same ▸ isFirst, isFirst.unique⟩

/-- Keys with slashes and hyphens, in which the size of a window has another name. -/
def resized : KeyRules where
  overrides := .insert .empty "size" "extent"
  separator := "/"
  style := .hyphenated

theorem resolveFrom_eq_iff_window :
    let tree := Record.window.tree
    let cache := (resized.resolveFrom .empty tree).2
    resized.overrides.HaveSegments ∧ resized.Remembers cache ∧ tree.HasPlainNames ∧
      (∀ path ∈ tree.leaves, tree.leaf? path.leaf = some (resized.keyedLeafAt tree path).leaf) ∧
      (∀ keyed, (resized.resolveFrom cache tree).1 = .ok keyed ↔
        keyed = resized.keyedLeaves tree ∧ ((resized.keyedLeaves tree).map KeyedLeaf.key).Nodup) ∧
      ∀ clash, (resized.resolveFrom cache tree).1 = .error clash ↔
        clash.IsFirstAmong (resized.keyedLeaves tree) := by
  have replaces : resized.overrides.HaveSegments := by
    intro dotted segment found
    rw [resized, SortedMap.find?_insert, SortedMap.find?_empty] at found
    split at found
    · cases found
      decide
    · cases found
  have plain : Record.window.tree.HasPlainNames := by decide
  have remembers : resized.Remembers (resized.resolveFrom .empty Record.window.tree).2 :=
    .tree .nothing plain
  exact ⟨replaces, remembers, plain, resolveFrom_eq_iff replaces remembers plain⟩

end KeyRules
end KeyedReflection
