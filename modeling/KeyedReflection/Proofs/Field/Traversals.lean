import KeyedReflection.Proofs.Field.Additions
import KeyedReflection.Proofs.Field.Leaves

/-!
# The two traversals step by step

A traversal goes down from field to member, with the way from the root on a stack: it pushes a step before
it goes down and pops it when it comes back.  The walk has the names of all fields on that stack, and pushes
them also for leaves; the collection of leaves has the positions of the sub-records.  The relations
`FieldTree.Walks` and `FieldTree.CollectsLeaves` say what such a run does, with one stack for the whole run and
no bound on the depth, so that a run that never ends or meets a position without a field is not related to
anything.

In every tree grown by additions both runs end, leave the stack as they found it, and list what
`FieldTree.walk` and `FieldTree.leaves` list (`IsParented.walks_iff`, `IsParented.collectsLeaves_iff`).  The
leaves are those of the walk, and the sub-records around a leaf are those whose entries enclose that of the
leaf (`leaves_agree_walk`).
-/

namespace KeyedReflection

/-- What a traversal carries along: the way down from the root, and what it has listed. -/
structure Traversal (Step Entry : Type) where
  way : List Step
  listed : List Entry
  deriving DecidableEq

namespace Traversal

variable {Step Entry : Type}

/-- Go one step down. -/
def push (state : Traversal Step Entry) (step : Step) : Traversal Step Entry :=
  { state with way := state.way ++ [step] }

/-- Go one step back. -/
def pop (state : Traversal Step Entry) : Traversal Step Entry :=
  { state with way := state.way.dropLast }

/-- List an entry behind the others. -/
def list (state : Traversal Step Entry) (entry : Entry) : Traversal Step Entry :=
  { state with listed := state.listed ++ [entry] }

/-- List entries behind the others. -/
def listAll (state : Traversal Step Entry) (entries : List Entry) : Traversal Step Entry :=
  { state with listed := state.listed ++ entries }

@[simp] theorem listAll_nil (state : Traversal Step Entry) : state.listAll [] = state := by
  rw [listAll, List.append_nil]

@[simp] theorem listAll_listAll (state : Traversal Step Entry) (first second : List Entry) :
    (state.listAll first).listAll second = state.listAll (first ++ second) := by
  rw [listAll, listAll, listAll, List.append_assoc]

@[simp] theorem list_eq_listAll (state : Traversal Step Entry) (entry : Entry) :
    state.list entry = state.listAll [entry] :=
  rfl

@[simp] theorem way_push (state : Traversal Step Entry) (step : Step) :
    (state.push step).way = state.way ++ [step] :=
  rfl

@[simp] theorem way_listAll (state : Traversal Step Entry) (entries : List Entry) :
    (state.listAll entries).way = state.way :=
  rfl

/-- What was listed between a step down and the step back stays listed. -/
@[simp] theorem pop_listAll_push (state : Traversal Step Entry) (step : Step) (entries : List Entry) :
    ((state.push step).listAll entries).pop = state.listAll entries := by
  rw [pop, way_listAll, way_push, List.dropLast_concat]
  rfl

end Traversal

namespace FieldTree

/-- A walk over members, one after the other: the name of each is pushed, the member is listed under the names
on the stack, what is below it is walked over, and the name is popped. -/
inductive Walks (tree : FieldTree) :
    List FieldId → Traversal String (String × FieldId) → Traversal String (String × FieldId) → Prop
  | done (state) : Walks tree [] state state
  | leaf {member rest l state goal} (found : tree.field? member = some (.leaf l))
      (further : Walks tree rest
        (((state.push l.identifier).list (Text.join "." (state.push l.identifier).way, member)).pop) goal) :
      Walks tree (member :: rest) state goal
  | node {member rest n state below goal} (found : tree.field? member = some (.node n))
      (down : Walks tree n.members
        ((state.push n.identifier).list (Text.join "." (state.push n.identifier).way, member)) below)
      (further : Walks tree rest below.pop goal) : Walks tree (member :: rest) state goal

/-- A collection of the leaves at or below members, one after the other: a leaf is listed with what is on the
stack, and a sub-record is pushed, gone through, and popped. -/
inductive CollectsLeaves (tree : FieldTree) :
    List FieldId → Traversal FieldId LeafPath → Traversal FieldId LeafPath → Prop
  | done (state) : CollectsLeaves tree [] state state
  | leaf {member rest l state goal} (found : tree.field? member = some (.leaf l))
      (further : CollectsLeaves tree rest (state.list ⟨state.way, member⟩) goal) :
      CollectsLeaves tree (member :: rest) state goal
  | node {member rest n state below goal} (found : tree.field? member = some (.node n))
      (down : CollectsLeaves tree n.members (state.push member) below)
      (further : CollectsLeaves tree rest below.pop goal) : CollectsLeaves tree (member :: rest) state goal

section

variable {tree : FieldTree}

/-- A walk has one end. -/
theorem Walks.unique {members : List FieldId} {state goal other : Traversal String (String × FieldId)}
    (walks : tree.Walks members state goal) (otherwise : tree.Walks members state other) : goal = other := by
  induction walks generalizing other with
  | done state =>
      cases otherwise
      rfl
  | leaf found _ ih =>
      cases otherwise with
      | leaf again further =>
          cases found.symm.trans again
          exact ih further
      | node again => cases found.symm.trans again
  | node found _ _ ihDown ih =>
      cases otherwise with
      | leaf again => cases found.symm.trans again
      | node again down further =>
          cases found.symm.trans again
          cases ihDown down
          exact ih further

/-- A collection of leaves has one end. -/
theorem CollectsLeaves.unique {members : List FieldId} {state goal other : Traversal FieldId LeafPath}
    (collects : tree.CollectsLeaves members state goal)
    (otherwise : tree.CollectsLeaves members state other) : goal = other := by
  induction collects generalizing other with
  | done state =>
      cases otherwise
      rfl
  | leaf found _ ih =>
      cases otherwise with
      | leaf again further => exact ih further
      | node again => cases found.symm.trans again
  | node found _ _ ihDown ih =>
      cases otherwise with
      | leaf again => cases found.symm.trans again
      | node again down further =>
          cases found.symm.trans again
          cases ihDown down
          exact ih further

/-! ## The runs over members -/

/-- The entries that come from one member of a field: its own, and those of what is below it. -/
def walkFrom (tree : FieldTree) (levels : Nat) (names : List String) (member : FieldId) :
    List (String × FieldId) :=
  let path := names ++ [tree.identifier member]
  (Text.join "." path, member) :: tree.walkBelow levels path member

theorem walkBelow_succ (tree : FieldTree) (levels : Nat) (names : List String) (id : FieldId) :
    tree.walkBelow (levels + 1) names id = (tree.members id).flatMap (tree.walkFrom levels names) :=
  rfl

/-- Members of the table can be walked over when what is below each of them can. -/
theorem walks_members {levels : Nat} {members : List FieldId} (inTable : ∀ member ∈ members, member < tree.size)
    (below : ∀ member ∈ members, ∀ state, tree.Walks (tree.members member) state
      (state.listAll (tree.walkBelow levels state.way member)))
    (state : Traversal String (String × FieldId)) :
    tree.Walks members state (state.listAll (members.flatMap (tree.walkFrom levels state.way))) := by
  -- The stack is the same in front of each member, because every step down is followed by one back.
  induction members generalizing state with
  | nil =>
      rw [List.flatMap_nil, Traversal.listAll_nil]
      exact .done state
  | cons member rest ih =>
      rcases List.forall_mem_cons.mp inTable with ⟨first, others⟩
      rcases List.forall_mem_cons.mp below with ⟨belowFirst, belowOthers⟩
      rcases exists_field?_iff.mpr first with ⟨field, found⟩
      have further := ih others belowOthers (state.listAll (tree.walkFrom levels state.way member))
      rw [Traversal.listAll_listAll, Traversal.way_listAll, ← List.flatMap_cons] at further
      rw [walkFrom, identifier_of_field? found] at further
      cases field with
      | leaf l =>
          rw [walkBelow_leaf found, ← Traversal.pop_listAll_push] at further
          exact .leaf found further
      | node n =>
          have down := belowFirst
            ((state.push n.identifier).list (Text.join "." (state.push n.identifier).way, member))
          rw [members_of_field? found] at down
          refine .node found down ?_
          rw [Traversal.list_eq_listAll, Traversal.listAll_listAll, Traversal.pop_listAll_push]
          exact further

/-- The leaves of members of the table can be collected when those below each of them can. -/
theorem collectsLeaves_members {levels : Nat} {members : List FieldId}
    (inTable : ∀ member ∈ members, member < tree.size)
    (below : ∀ member ∈ members, ∀ state, tree.CollectsLeaves (tree.members member) state
      (state.listAll (tree.leavesBelow levels state.way member)))
    (state : Traversal FieldId LeafPath) :
    tree.CollectsLeaves members state
      (state.listAll (members.flatMap (tree.leavesFrom levels state.way))) := by
  induction members generalizing state with
  | nil =>
      rw [List.flatMap_nil, Traversal.listAll_nil]
      exact .done state
  | cons member rest ih =>
      rcases List.forall_mem_cons.mp inTable with ⟨first, others⟩
      rcases List.forall_mem_cons.mp below with ⟨belowFirst, belowOthers⟩
      rcases exists_field?_iff.mpr first with ⟨field, found⟩
      have further := ih others belowOthers (state.listAll (tree.leavesFrom levels state.way member))
      rw [Traversal.listAll_listAll, Traversal.way_listAll, ← List.flatMap_cons] at further
      rw [leavesFrom, found] at further
      cases field with
      | leaf l => exact .leaf found further
      | node n =>
          have down := belowFirst (state.push member)
          rw [members_of_field? found] at down
          refine .node found down ?_
          rw [Traversal.pop_listAll_push]
          exact further

/-- The entry of a field encloses that of another one: the walk lists what is below the field directly behind
its entry, and the other field is listed there. -/
def Encloses (tree : FieldTree) (outer inner : FieldId) : Prop :=
  ∃ names before after,
    tree.walk = before ++ (Text.join "." names, outer) :: (tree.walkBelow tree.size names outer ++ after) ∧
      inner ∈ (tree.walkBelow tree.size names outer).map Prod.snd

/-- What encloses another entry is a sub-record. -/
theorem Encloses.exists_node {outer inner : FieldId} (encloses : tree.Encloses outer inner) :
    ∃ n, tree.field? outer = some (.node n) := by
  rcases encloses with ⟨names, before, after, _, listed⟩
  rcases mem_walkBelow_iff_leads.mp listed with ⟨way, nonempty, _, leads⟩
  rcases List.exists_cons_of_ne_nil nonempty with ⟨next, rest, rfl⟩
  have inside := leads.1
  rw [members] at inside
  cases found : tree.field? outer with
  | none =>
      rw [found] at inside
      cases inside
  | some field =>
      cases field with
      | leaf l =>
          rw [found] at inside
          cases inside
      | node n => exact ⟨n, rfl⟩

theorem isReached_of_mem_walk {id : FieldId} (listed : id ∈ tree.walk.map Prod.snd) : tree.IsReached id := by
  rcases mem_walkBelow_iff_leads.mp listed with ⟨way, _, _, leads⟩
  exact ⟨way, leads⟩

/-- The fields around a leaf and the leaf itself are a way to it, along which the walk lists them. -/
theorem exists_way_of_mem_leavesBelow {levels : Nat} {ancestors : List FieldId} {id : FieldId}
    {path : LeafPath} (listed : path ∈ tree.leavesBelow levels ancestors id) (names : List String) :
    ∃ way, path.ancestors = ancestors ++ way ∧ tree.Leads id (way ++ [path.leaf]) path.leaf ∧
      (way ++ [path.leaf]).Sublist ((tree.walkBelow levels names id).map Prod.snd) := by
  induction levels generalizing ancestors id names with
  | zero => cases listed
  | succ levels ih =>
      rw [leavesBelow_succ] at listed
      rcases List.mem_flatMap.mp listed with ⟨member, inside, fromMember⟩
      have entries : ((tree.walkFrom levels names member).map Prod.snd).Sublist
          ((tree.walkBelow (levels + 1) names id).map Prod.snd) := by
        rw [walkBelow_succ, List.flatMap_def]
        exact (List.sublist_flatten_of_mem (List.mem_map_of_mem inside)).map Prod.snd
      rcases mem_leavesFrom fromMember with ⟨leaf, _, rfl⟩ | further
      · refine ⟨[], (List.append_nil _).symm, ⟨inside, rfl⟩, ?_⟩
        exact (List.singleton_sublist.mpr List.mem_cons_self).trans entries
      · rcases ih further (names ++ [tree.identifier member]) with ⟨way, ancestors, leads, inWalk⟩
        refine ⟨member :: way, ?_, ⟨inside, leads⟩, ?_⟩
        · rw [ancestors, List.append_assoc, List.singleton_append]
        · exact (inWalk.cons_cons member).trans entries

namespace IsParented

/-- What holds of a field without members, and one level higher up of a field when it holds of its members,
holds of every field that is reached, with as many levels as there are places behind it. -/
theorem levels_induction {P : Nat → FieldId → Prop} (parented : tree.IsParented)
    (last : ∀ id, tree.members id = [] → P 0 id)
    (step : ∀ levels id, tree.IsReached id →
      (∀ member ∈ tree.members id, tree.size ≤ member + levels ∧ P levels member) → P (levels + 1) id)
    {levels id : Nat} (reached : tree.IsReached id) (enough : tree.size ≤ id + levels) : P levels id := by
  induction levels generalizing id with
  | zero => exact last id (members_of_beyond (Nat.not_lt.mpr enough))
  | succ levels ih =>
      apply step levels id reached
      intro member inside
      have behind : id < member := parented.lt_of_mem_members reached inside
      have enoughBehind : tree.size ≤ (member : Nat) + levels := by omega
      exact ⟨enoughBehind, ih (reached.member inside) enoughBehind⟩

/-- What is below a field that is reached can be walked over, whatever is on the stack. -/
theorem walks (parented : tree.IsParented) {levels id : Nat} (reached : tree.IsReached id)
    (enough : tree.size ≤ id + levels) : ∀ state : Traversal String (String × FieldId),
    tree.Walks (tree.members id) state (state.listAll (tree.walkBelow levels state.way id)) := by
  refine parented.levels_induction (P := fun levels id => ∀ state, tree.Walks (tree.members id) state
    (state.listAll (tree.walkBelow levels state.way id))) ?_ ?_ reached enough
  · intro id none state
    rw [none, walkBelow, Traversal.listAll_nil]
    exact .done state
  · intro levels id _ below state
    exact walks_members (parented.closed id) (fun member inside => (below member inside).2) state

/-- The leaves below a field that is reached can be collected, whatever is on the stack. -/
theorem collectsLeaves (parented : tree.IsParented) {levels id : Nat} (reached : tree.IsReached id)
    (enough : tree.size ≤ id + levels) : ∀ state : Traversal FieldId LeafPath,
    tree.CollectsLeaves (tree.members id) state (state.listAll (tree.leavesBelow levels state.way id)) := by
  refine parented.levels_induction (P := fun levels id => ∀ state, tree.CollectsLeaves (tree.members id)
    state (state.listAll (tree.leavesBelow levels state.way id))) ?_ ?_ reached enough
  · intro id none state
    rw [none, leavesBelow, Traversal.listAll_nil]
    exact .done state
  · intro levels id _ below state
    exact collectsLeaves_members (parented.closed id) (fun member inside => (below member inside).2) state

/-- The walk ends with nothing on the stack, and only with what `FieldTree.walk` lists. -/
theorem walks_iff (parented : tree.IsParented) {goal : Traversal String (String × FieldId)} :
    tree.Walks tree.root.members ⟨[], []⟩ goal ↔ goal = ⟨[], tree.walk⟩ := by
  have ends := parented.walks (isReached_root tree) (Nat.le_add_left _ _) ⟨[], []⟩
  constructor
  · exact fun walks => walks.unique ends
  · rintro rfl
    exact ends

/-- The collection of leaves ends with nothing on the stack, and only with what `FieldTree.leaves` lists. -/
theorem collectsLeaves_iff (parented : tree.IsParented) {goal : Traversal FieldId LeafPath} :
    tree.CollectsLeaves tree.root.members ⟨[], []⟩ goal ↔ goal = ⟨[], tree.leaves⟩ := by
  have ends := parented.collectsLeaves (isReached_root tree) (Nat.le_add_left _ _) ⟨[], []⟩
  constructor
  · exact fun collects => collects.unique ends
  · rintro rfl
    exact ends

/-! ## Entries that enclose others -/

/-- All levels that are enough give the same walk. -/
theorem walkBelow_of_enough (parented : tree.IsParented) {levels id : Nat} (names : List String)
    (reached : tree.IsReached id) (enough : tree.size ≤ id + levels) :
    tree.walkBelow levels names id = tree.walkBelow tree.size names id := by
  rcases Nat.le_total levels tree.size with fewer | more
  · exact (parented.walkBelow_levels names reached enough fewer).symm
  · exact parented.walkBelow_levels names reached (Nat.le_add_left _ _) more

/-- Directly behind the entry of a field, the walk lists what is below that field. -/
theorem exists_walkBelow_eq (parented : tree.IsParented) {levels id : Nat} (reached : tree.IsReached id)
    (enough : tree.size ≤ id + levels) : ∀ names, ∀ goal ∈ (tree.walkBelow levels names id).map Prod.snd,
    ∃ path before after, tree.walkBelow levels names id =
      before ++ (Text.join "." path, goal) :: (tree.walkBelow tree.size path goal ++ after) := by
  refine parented.levels_induction (P := fun levels id => ∀ names,
    ∀ goal ∈ (tree.walkBelow levels names id).map Prod.snd, ∃ path before after,
      tree.walkBelow levels names id =
        before ++ (Text.join "." path, goal) :: (tree.walkBelow tree.size path goal ++ after)) ?_ ?_ reached enough
  · intro id _ names goal listed
    cases listed
  · intro levels id reached below names goal listed
    rw [walkBelow_succ, List.map_flatMap, List.mem_flatMap] at listed
    rcases listed with ⟨member, inside, fromMember⟩
    rcases below member inside with ⟨enough, ih⟩
    rcases List.append_of_mem inside with ⟨front, back, members⟩
    rw [walkBelow_succ, members, List.flatMap_append, List.flatMap_cons]
    rw [walkFrom, List.map_cons, List.mem_cons] at fromMember
    rcases fromMember with rfl | further
    · refine ⟨names ++ [tree.identifier goal], front.flatMap (tree.walkFrom levels names),
        back.flatMap (tree.walkFrom levels names), ?_⟩
      rw [walkFrom, parented.walkBelow_of_enough _ (reached.member inside) enough, List.cons_append]
    · rcases ih _ goal further with ⟨path, before, after, split⟩
      refine ⟨path, front.flatMap (tree.walkFrom levels names) ++
        (Text.join "." (names ++ [tree.identifier member]), member) :: before,
        after ++ back.flatMap (tree.walkFrom levels names), ?_⟩
      rw [walkFrom, split]
      simp only [List.append_assoc, List.cons_append]

/-- A way that takes a step leads to a field of the table. -/
theorem lt_size_of_leads (parented : tree.IsParented) {id goal : FieldId} {way : List FieldId}
    (nonempty : way ≠ []) (leads : tree.Leads id way goal) : goal < tree.size := by
  cases way using List.reverseRecOn with
  | nil => exact absurd rfl nonempty
  | append_singleton way last =>
      rcases leads_snoc.mp leads with ⟨rfl, above, _, inside⟩
      exact parented.closed above last inside

/-- An entry encloses another exactly when the walk comes to it and a way leads from it to the other. -/
theorem encloses_iff (parented : tree.IsParented) {outer inner : FieldId} :
    tree.Encloses outer inner ↔
      outer ∈ tree.walk.map Prod.snd ∧ ∃ way, way ≠ [] ∧ tree.Leads outer way inner := by
  constructor
  · rintro ⟨names, before, after, split, listed⟩
    rcases mem_walkBelow_iff_leads.mp listed with ⟨way, nonempty, _, leads⟩
    refine ⟨?_, way, nonempty, leads⟩
    rw [split, List.map_append, List.map_cons]
    exact List.mem_append_right _ List.mem_cons_self
  · rintro ⟨listed, way, nonempty, leads⟩
    rcases parented.exists_walkBelow_eq (isReached_root tree) (Nat.le_add_left _ _) [] outer listed with
      ⟨names, before, after, split⟩
    refine ⟨names, before, after, split, mem_walkBelow_iff_leads.mpr ⟨way, nonempty, ?_, leads⟩⟩
    have short := parented.length_le (isReached_of_mem_walk listed) leads
    have inTable := parented.lt_size_of_leads nonempty leads
    exact Nat.le_of_lt (Nat.lt_of_le_of_lt (Nat.le_trans (Nat.le_add_left _ _) short) inTable)

/-- The sub-records around a leaf are the fields whose entries enclose that of the leaf. -/
theorem mem_ancestors_iff (parented : tree.IsParented) {path : LeafPath} (listed : path ∈ tree.leaves)
    {id : FieldId} : id ∈ path.ancestors ↔ tree.Encloses id path.leaf := by
  rcases exists_way_of_mem_leavesBelow listed [] with ⟨way, ancestors, leads, inWalk⟩
  rw [List.nil_append] at ancestors
  subst ancestors
  rw [parented.encloses_iff]
  constructor
  · intro inside
    rcases List.append_of_mem inside with ⟨above, below, split⟩
    refine ⟨inWalk.subset (List.mem_append_left _ inside), below ++ [path.leaf], by simp, ?_⟩
    rw [split, List.append_assoc, List.cons_append, leads_append] at leads
    rcases leads with ⟨_, _, _, further⟩
    exact further
  · rintro ⟨entered, down, nonempty, further⟩
    rcases mem_walkBelow_iff_leads.mp entered with ⟨up, upSome, _, above⟩
    -- The way to the leaf is the one down to the entry and on from there, and the leaf is its last step.
    have same := parented.leads_injective leads (leads_append.mpr ⟨id, above, further⟩)
    have front := congrArg List.dropLast same
    rw [List.dropLast_concat, List.dropLast_append_of_ne_nil nonempty] at front
    rcases List.eq_nil_or_concat up with rfl | ⟨before, last, rfl⟩
    · exact absurd rfl upSome
    · rw [List.concat_eq_append] at above front
      rcases leads_snoc.mp above with ⟨rfl, _⟩
      rw [front]
      exact List.mem_append_left _ (List.mem_append_right _ List.mem_cons_self)

end IsParented
end

section

variable {tree : FieldTree} {identifier doc : String} {additions : List Addition}

/-- In a tree grown from its root by any additions that succeed, both traversals end, without a field that is
missing and with nothing left on the stack; the leaves are those that the walk lists, in the same order and
under the dotted ids that it gives them; and the sub-records around a leaf are those whose entries in the walk
enclose that of the leaf, in the same order. -/
theorem leaves_agree_walk (added : (new identifier doc).addAll additions = .ok tree) :
    (∀ goal, tree.Walks tree.root.members ⟨[], []⟩ goal ↔ goal = ⟨[], tree.walk⟩) ∧
    (∀ goal, tree.CollectsLeaves tree.root.members ⟨[], []⟩ goal ↔ goal = ⟨[], tree.leaves⟩) ∧
    (tree.walk.map Prod.snd).Nodup ∧
    tree.leaves.map (fun path => (path.dottedId tree, path.leaf)) =
      tree.walk.filter (fun place => (tree.leaf? place.2).isSome) ∧
    ∀ path ∈ tree.leaves, path.ancestors.Sublist (tree.walk.map Prod.snd) ∧
      ∀ id, id ∈ path.ancestors ↔ (∃ n, tree.field? id = some (.node n)) ∧ tree.Encloses id path.leaf := by
  have parented := isParented_addAll added
  refine ⟨fun _ => parented.walks_iff, fun _ => parented.collectsLeaves_iff, parented.nodup_walk,
    map_leaves_eq_filter_walk tree, ?_⟩
  intro path listed
  rcases exists_way_of_mem_leavesBelow listed [] with ⟨way, ancestors, _, inWalk⟩
  constructor
  · rw [ancestors, List.nil_append]
    exact (List.sublist_append_left way _).trans inWalk
  · intro id
    rw [parented.mem_ancestors_iff listed]
    exact (and_iff_right_of_imp Encloses.exists_node).symm

/-- A sub-record `size` with a member, a field whose name has a dot, and a sub-record that is its own parent: the
dotted ids of two leaves are the same, but each is listed for itself, and only one of them is enclosed. -/
theorem leaves_agree_walk_window :
    let width : Leaf := ⟨"width", "int", "int", false, false, ""⟩
    let additions : List Addition := [.node 0 "size" "", .leaf 1 width, .node 3 "lost" "",
      .leaf 0 { width with identifier := "size.width" }]
    ∃ tree, (new "window" "").addAll additions = .ok tree ∧
      tree.Walks tree.root.members ⟨[], []⟩ ⟨[], [("size", 1), ("size.width", 2), ("size.width", 4)]⟩ ∧
      tree.CollectsLeaves tree.root.members ⟨[], []⟩ ⟨[], [⟨[1], 2⟩, ⟨[], 4⟩]⟩ ∧
      tree.Encloses 1 2 ∧ ¬tree.Encloses 1 4 := by
  intro width additions
  have spec := leaves_agree_walk (show (new "window" "").addAll additions = .ok _ from rfl)
  refine ⟨_, rfl, (spec.1 _).mpr (by decide), (spec.2.1 _).mpr (by decide), ?_, ?_⟩
  · exact (((spec.2.2.2.2 ⟨[1], 2⟩ (by decide)).2 1).mp (by decide)).2
  · intro encloses
    have inside := ((spec.2.2.2.2 ⟨[], 4⟩ (by decide)).2 1).mpr ⟨⟨_, rfl⟩, encloses⟩
    exact List.not_mem_nil inside

end
end FieldTree
end KeyedReflection
