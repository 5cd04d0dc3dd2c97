import KeyedReflection.Key
import KeyedReflection.Proofs.Field.Leaves

/-!
# Keys level by level

One level of a path adds a part to the key of the path above, and a part depends on nothing but the path
down to its level (`KeyRules.part`).  Keys of paths that follow each other so (`KeyRules.Spells`) are what a
resolver gives, in whatever order it goes down them, because a dotted path can be taken apart in one way
only: what is remembered under a dotted path is the key of that path (`KeyRules.RecallsAs`), and going down
another path keeps it so.

Resolving a tree therefore keys its leaves as if nothing were remembered.  It stops at the first leaf whose
key was given before, and only there (`KeyRules.RecallsAs.resolveFrom`).  That no two leaves of a resolved
tree have one dotted id follows, also where siblings share a name (`KeyRules.resolve_distinct`).
-/

namespace KeyedReflection

open Text (IsPlainName)

/-! ## The first clash -/

/-- A clash is the first one among keyed leaves: the leaves in front of its second leaf have different keys,
and its first leaf is one of them. -/
def KeyClash.IsFirstAmong (clash : KeyClash) (keyed : List KeyedLeaf) : Prop :=
  ∃ earlier second later first, keyed = earlier ++ second :: later ∧
    (earlier.map KeyedLeaf.key).Nodup ∧ first ∈ earlier ∧ first.key = second.key ∧
    clash = ⟨second.key, first.dottedId, second.dottedId⟩

namespace KeyClash

variable {keyed earlier later : List KeyedLeaf} {first second : KeyedLeaf} {clash other : KeyClash}

theorem not_nodup_of_key_eq (listed : first ∈ earlier) (same : first.key = second.key)
    (later : List KeyedLeaf) : ¬ ((earlier ++ second :: later).map KeyedLeaf.key).Nodup := by
  intro distinct
  rw [List.map_append, List.map_cons, List.nodup_append] at distinct
  exact distinct.2.2 _ (List.mem_map_of_mem listed) _ List.mem_cons_self same

theorem IsFirstAmong.not_nodup (isFirst : clash.IsFirstAmong keyed) :
    ¬ (keyed.map KeyedLeaf.key).Nodup := by
  rcases isFirst with ⟨earlier, second, later, first, rfl, _, listed, same, _⟩
  exact not_nodup_of_key_eq listed same later

/-- There is at most one first clash. -/
theorem IsFirstAmong.unique (isFirst : clash.IsFirstAmong keyed)
    (otherIsFirst : other.IsFirstAmong keyed) : clash = other := by
  rcases isFirst with ⟨earlier, second, later, first, split, distinct, listed, same, rfl⟩
  rcases otherIsFirst with ⟨otherEarlier, otherSecond, otherLater, otherFirst, otherSplit,
    otherDistinct, otherListed, otherSame, rfl⟩
  -- Neither second leaf can be in front of the other one.
  have places : earlier = otherEarlier ∧ second = otherSecond := by
    rw [split] at otherSplit
    rcases List.append_eq_append_iff.mp otherSplit with
      ⟨more, rfl, remaining⟩ | ⟨more, rfl, remaining⟩
    · cases more with
      | nil => exact ⟨(List.append_nil _).symm, (List.cons.inj remaining).1⟩
      | cons next more =>
          rw [← (List.cons.inj remaining).1] at otherDistinct
          exact absurd otherDistinct (not_nodup_of_key_eq listed same more)
    · cases more with
      | nil => exact ⟨List.append_nil _, (List.cons.inj remaining).1.symm⟩
      | cons next more =>
          rw [← (List.cons.inj remaining).1] at distinct
          exact absurd distinct (not_nodup_of_key_eq otherListed otherSame more)
  rcases places with ⟨rfl, rfl⟩
  rw [List.inj_on_of_nodup_map distinct listed otherListed (same.trans otherSame.symm)]

end KeyClash

namespace KeyRules

variable {rules : KeyRules} {cache : KeyCache} {keyOf : List String → String}

/-! ## Keys of paths -/

/-- What one level of a path adds to the key: the override for the path down to the level, or else the name
as it is spelled in keys. -/
def part (rules : KeyRules) (above : List String) (name : String) : String :=
  (rules.overrides.find? (Text.join "." (above ++ [name]))).getD (rules.style.segment name)

/-- Keys of paths that come each from the key of the path above. -/
structure Spells (rules : KeyRules) (keyOf : List String → String) : Prop where
  top : keyOf [] = ""
  next : ∀ {names : List String}, (∀ name ∈ names, IsPlainName name) → ∀ name,
    keyOf (names ++ [name]) =
      Text.joinAfter rules.separator (keyOf names) (rules.part names name)

/-- The key of the names behind a path that has a key. -/
def keyBelow (rules : KeyRules) : List String → String → List String → String
  | _, key, [] => key
  | above, key, name :: rest =>
    rules.keyBelow (above ++ [name])
      (Text.joinAfter rules.separator key (rules.part above name)) rest

/-- The key of a path, one level after the other. -/
def levelKey (rules : KeyRules) (names : List String) : String :=
  rules.keyBelow [] "" names

theorem keyBelow_concat (rules : KeyRules) (above : List String) (key : String)
    (names : List String) (name : String) :
    rules.keyBelow above key (names ++ [name]) =
      Text.joinAfter rules.separator (rules.keyBelow above key names)
        (rules.part (above ++ names) name) := by
  induction names generalizing above key with
  | nil => simp [keyBelow]
  | cons first rest ih => simp [keyBelow, ih]

/-- Keys of paths can be spelled under all rules, also where an override is empty. -/
theorem spells_levelKey (rules : KeyRules) : rules.Spells rules.levelKey where
  top := rfl
  next := fun {names} _ name => rules.keyBelow_concat [] "" names name

/-! ## What a resolver remembers -/

/-- Everything that is remembered under the dotted form of a path is the key of the path. -/
def RecallsAs (keyOf : List String → String) (cache : KeyCache) : Prop :=
  ∀ names, (∀ name ∈ names, IsPlainName name) → ∀ key,
    cache.find? (Text.join "." names) = some key → key = keyOf names

theorem recallsAs_empty (keyOf : List String → String) : RecallsAs keyOf .empty := by
  intro names _ key found
  rw [SortedMap.find?_empty] at found
  cases found

theorem RecallsAs.insert (recalls : RecallsAs keyOf cache) {names : List String}
    (plain : ∀ name ∈ names, IsPlainName name) :
    RecallsAs keyOf (cache.insert (Text.join "." names) (keyOf names)) := by
  intro others othersPlain key found
  rw [SortedMap.find?_insert] at found
  by_cases same : Text.join "." names = Text.join "." others
  · rw [if_pos same] at found
    rw [← Text.join_dot_injective plain othersPlain same]
    exact (Option.some.inj found).symm
  · rw [if_neg same] at found
    exact recalls others othersPlain key found

/-- One level down, the key is that of the longer path. -/
theorem RecallsAs.descend (recalls : RecallsAs keyOf cache) (spells : rules.Spells keyOf)
    {names : List String} (plain : ∀ name ∈ names, IsPlainName name) {name : String}
    (named : IsPlainName name) :
    (rules.descend cache ⟨Text.join "." names, keyOf names⟩ name).1 =
        ⟨Text.join "." (names ++ [name]), keyOf (names ++ [name])⟩ ∧
      RecallsAs keyOf (rules.descend cache ⟨Text.join "." names, keyOf names⟩ name).2 := by
  have extended : ∀ other ∈ names ++ [name], IsPlainName other :=
    List.forall_mem_append.mpr ⟨plain, List.forall_mem_singleton.mpr named⟩
  rw [KeyRules.descend]
  dsimp only
  rw [Text.joinAfter_join plain]
  cases known : cache.find? (Text.join "." (names ++ [name])) with
  | some key =>
      dsimp only
      rw [recalls _ extended key known]
      exact ⟨rfl, recalls⟩
  | none =>
      have key := spells.next plain name
      rw [part] at key
      dsimp only
      rw [← key]
      exact ⟨rfl, recalls.insert extended⟩

theorem RecallsAs.descendAll (recalls : RecallsAs keyOf cache) (spells : rules.Spells keyOf)
    {names segments : List String} (plain : ∀ name ∈ names, IsPlainName name)
    (segmentsPlain : ∀ segment ∈ segments, IsPlainName segment) :
    (rules.descendAll cache ⟨Text.join "." names, keyOf names⟩ segments).1 =
        ⟨Text.join "." (names ++ segments), keyOf (names ++ segments)⟩ ∧
      RecallsAs keyOf (rules.descendAll cache ⟨Text.join "." names, keyOf names⟩ segments).2 := by
  induction segments generalizing cache names with
  | nil =>
      rw [List.append_nil]
      exact ⟨rfl, recalls⟩
  | cons segment rest ih =>
      rcases List.forall_mem_cons.mp segmentsPlain with ⟨first, others⟩
      rcases recalls.descend spells plain first with ⟨below, kept⟩
      have extended : ∀ name ∈ names ++ [segment], IsPlainName name :=
        List.forall_mem_append.mpr ⟨plain, List.forall_mem_singleton.mpr first⟩
      have further := ih kept extended others
      rw [← List.append_cons, ← below] at further
      exact further

/-- A path gets its own key, whatever is remembered. -/
theorem RecallsAs.keyFor (recalls : RecallsAs keyOf cache) (spells : rules.Spells keyOf)
    {segments : List String} (plain : ∀ segment ∈ segments, IsPlainName segment) :
    (rules.keyFor cache segments).1 = keyOf segments ∧
      RecallsAs keyOf (rules.keyFor cache segments).2 := by
  have top : ∀ name ∈ ([] : List String), IsPlainName name := by
    intro name listed
    cases listed
  rcases recalls.descendAll spells top plain with ⟨below, kept⟩
  rw [spells.top] at below kept
  have key := congrArg PartialKey.key below
  exact ⟨key, kept⟩

/-! ## Keys of trees -/

/-- The leaf at a path under the key of the path, with its dotted id. -/
def keyedLeafAs (keyOf : List String → String) (tree : FieldTree) (path : LeafPath) : KeyedLeaf :=
  ⟨keyOf (path.segments tree), path.dottedId tree, (tree.leaf? path.leaf).getD default⟩

/-- The keys seen are those of some leaves, each with the dotted id of its leaf. -/
def HasSeen (seen : SortedMap String) (earlier : List KeyedLeaf) : Prop :=
  ∀ key dottedId, seen.find? key = some dottedId ↔
    ∃ leaf ∈ earlier, leaf.key = key ∧ leaf.dottedId = dottedId

section

variable {seen : SortedMap String} {earlier : List KeyedLeaf} {leaf : KeyedLeaf}

theorem HasSeen.insert (hasSeen : HasSeen seen earlier) (unseen : seen.find? leaf.key = none) :
    HasSeen (seen.insert leaf.key leaf.dottedId) (earlier ++ [leaf]) := by
  intro key dottedId
  simp only [SortedMap.find?_insert, List.mem_append, List.mem_singleton, or_and_right, exists_or,
    exists_eq_left, ← hasSeen key dottedId]
  by_cases same : leaf.key = key
  · subst same
    simp [unseen]
  · simp [same]

theorem HasSeen.nodup_concat (hasSeen : HasSeen seen earlier) (unseen : seen.find? leaf.key = none)
    (distinct : (earlier.map KeyedLeaf.key).Nodup) :
    ((earlier ++ [leaf]).map KeyedLeaf.key).Nodup := by
  rw [List.map_append, List.map_singleton, List.nodup_append]
  refine ⟨distinct, List.nodup_singleton _, ?_⟩
  intro key inside last isLast same
  rw [List.mem_singleton.mp isLast] at same
  rcases List.mem_map.mp inside with ⟨other, listed, rfl⟩
  have found := (hasSeen _ _).mpr ⟨other, listed, same, rfl⟩
  rw [unseen] at found
  cases found

variable {tree : FieldTree} {path : LeafPath}

/-- A path whose key was seen stops the resolver. -/
theorem resolvePaths_of_seen (key : (rules.keyFor cache (path.segments tree)).1 =
      keyOf (path.segments tree)) {first : String}
    (given : seen.find? (keyOf (path.segments tree)) = some first) (rest : List LeafPath) :
    rules.resolvePaths tree cache seen (path :: rest) =
      (.error ⟨keyOf (path.segments tree), first, path.dottedId tree⟩,
        (rules.keyFor cache (path.segments tree)).2) := by
  rw [resolvePaths]
  dsimp only
  rw [key, given]
  rfl

/-- A path whose key was not seen is keyed, and the resolver goes on. -/
theorem resolvePaths_of_unseen (key : (rules.keyFor cache (path.segments tree)).1 =
      keyOf (path.segments tree))
    (unseen : seen.find? (keyOf (path.segments tree)) = none) {rest : List LeafPath}
    {result : Except KeyClash (List KeyedLeaf)} {later : KeyCache}
    (further : rules.resolvePaths tree (rules.keyFor cache (path.segments tree)).2
      (seen.insert (keyOf (path.segments tree)) (path.dottedId tree)) rest = (result, later)) :
    rules.resolvePaths tree cache seen (path :: rest) =
      (result.map (keyedLeafAs keyOf tree path :: ·), later) := by
  rw [LeafPath.dottedId] at further
  rw [resolvePaths]
  dsimp only
  rw [key, unseen]
  dsimp only
  rw [further]
  rfl

end

/-- Paths are keyed one after the other.  `earlier` are the leaves keyed before, and the induction moves one
leaf at a time from the paths to them. -/
theorem resolvePaths_cases (spells : rules.Spells keyOf) {tree : FieldTree}
    (recalls : RecallsAs keyOf cache) {seen : SortedMap String} {earlier : List KeyedLeaf}
    (hasSeen : HasSeen seen earlier) (distinct : (earlier.map KeyedLeaf.key).Nodup)
    {paths : List LeafPath}
    (plain : ∀ path ∈ paths, ∀ segment ∈ path.segments tree, IsPlainName segment) :
    ∃ result later, rules.resolvePaths tree cache seen paths = (result, later) ∧
      RecallsAs keyOf later ∧
      ((result = .ok (paths.map (keyedLeafAs keyOf tree)) ∧
          ((earlier ++ paths.map (keyedLeafAs keyOf tree)).map KeyedLeaf.key).Nodup) ∨
        ∃ clash, result = .error clash ∧
          clash.IsFirstAmong (earlier ++ paths.map (keyedLeafAs keyOf tree))) := by
  induction paths generalizing cache seen earlier with
  | nil =>
      rw [List.map_nil, List.append_nil]
      exact ⟨_, _, rfl, recalls, .inl ⟨rfl, distinct⟩⟩
  | cons path rest ih =>
      rcases List.forall_mem_cons.mp plain with ⟨first, others⟩
      rcases recalls.keyFor spells first with ⟨key, kept⟩
      cases given : seen.find? (keyOf (path.segments tree)) with
      | some dottedId =>
          rcases (hasSeen _ _).mp given with ⟨leaf, listed, same, rfl⟩
          refine ⟨_, _, resolvePaths_of_seen key given rest, kept, .inr ⟨_, rfl, ?_⟩⟩
          exact ⟨earlier, keyedLeafAs keyOf tree path, _, leaf, rfl, distinct, listed, same, rfl⟩
      | none =>
          have unseen : seen.find? (keyedLeafAs keyOf tree path).key = none := given
          rcases ih kept (hasSeen.insert unseen) (hasSeen.nodup_concat unseen distinct) others with
            ⟨result, later, further, keptLater, verdict⟩
          rw [List.append_assoc, List.singleton_append, ← List.map_cons] at verdict
          refine ⟨_, later, resolvePaths_of_unseen key given further, keptLater, ?_⟩
          rcases verdict with ⟨rfl, different⟩ | ⟨clash, rfl, isFirst⟩
          · exact .inl ⟨rfl, different⟩
          · exact .inr ⟨clash, rfl, isFirst⟩

/-- Resolving a tree gives its leaves the keys of their paths, or names the first clash, and what is
remembered afterwards are keys of paths again. -/
theorem RecallsAs.resolveFrom (recalls : RecallsAs keyOf cache) (spells : rules.Spells keyOf)
    {tree : FieldTree} (plain : tree.HasPlainNames) :
    RecallsAs keyOf (rules.resolveFrom cache tree).2 ∧
      (((rules.resolveFrom cache tree).1 = .ok (tree.leaves.map (keyedLeafAs keyOf tree)) ∧
          ((tree.leaves.map (keyedLeafAs keyOf tree)).map KeyedLeaf.key).Nodup) ∨
        ∃ clash, (rules.resolveFrom cache tree).1 = .error clash ∧
          clash.IsFirstAmong (tree.leaves.map (keyedLeafAs keyOf tree))) := by
  have nothingSeen : HasSeen SortedMap.empty [] := by
    intro key dottedId
    simp
  rcases resolvePaths_cases spells recalls nothingSeen List.nodup_nil
    (fun _ listed => tree.segments_plain plain listed) with ⟨result, later, resolved, kept, verdict⟩
  rw [KeyRules.resolveFrom, resolved]
  exact ⟨kept, verdict⟩

/-- The leaves of a tree in declaration order, each under the key of its path. -/
def levelKeyed (rules : KeyRules) (tree : FieldTree) : List KeyedLeaf :=
  tree.leaves.map (keyedLeafAs rules.levelKey tree)

/-- Resolving a tree gives its leaves the keys of their paths, when these are different. -/
theorem resolve_eq_ok_iff {tree : FieldTree} (plain : tree.HasPlainNames) {keyed : List KeyedLeaf} :
    rules.resolve tree = .ok keyed ↔
      keyed = rules.levelKeyed tree ∧ (keyed.map KeyedLeaf.key).Nodup := by
  have recalls := recallsAs_empty rules.levelKey
  rcases (recalls.resolveFrom rules.spells_levelKey plain).2 with
    ⟨resolved, distinct⟩ | ⟨clash, failed, isFirst⟩
  · rw [resolve, resolved, Except.ok.injEq]
    constructor
    · rintro rfl
      exact ⟨rfl, distinct⟩
    · rintro ⟨rfl, _⟩
      rfl
  · rw [resolve, failed]
    apply iff_of_false
    · intro impossible
      cases impossible
    · rintro ⟨rfl, distinct⟩
      exact isFirst.not_nodup distinct

/-- The keys of a tree that was resolved are different, and so are the dotted ids. -/
theorem resolve_distinct {tree : FieldTree} {keyed : List KeyedLeaf} (plain : tree.HasPlainNames)
    (resolved : rules.resolve tree = .ok keyed) :
    (keyed.map KeyedLeaf.key).Nodup ∧ (keyed.map KeyedLeaf.dottedId).Nodup := by
  rcases (resolve_eq_ok_iff plain).mp resolved with ⟨rfl, distinct⟩
  refine ⟨distinct, ?_⟩
  rw [levelKeyed, List.map_map, List.Nodup, List.pairwise_map] at distinct ⊢
  -- Leaves with one dotted id have the same names, and would have had one key.
  refine distinct.imp_of_mem ?_
  intro path other listed otherListed different same
  have names := Text.join_dot_injective (tree.segments_plain plain listed)
    (tree.segments_plain plain otherListed) same
  exact different (congrArg rules.levelKey names)

end KeyRules
end KeyedReflection
