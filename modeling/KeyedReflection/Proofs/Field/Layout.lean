import KeyedReflection.Proofs.Field.Outline
import Mathlib.Data.List.Range

/-!
# Trees and their outlines

`FieldTree.outline` reads the outline of a tree off its table, as far down as the tree is walked.
`FieldTree.ofOutline` lays an outline out in a table.

Reading off what was laid out gives the outline back (`outline_ofOutline`).  Laying out what was read
off gives the tree back when its fields are numbered as they are walked (`ofOutline_outline`).  The
walk of a tree tells no more than its outline does (`listing_eq`).
-/

namespace KeyedReflection
namespace FieldTree

open Text (IsPlainName)

/-! ## Reading off -/

/-- The outline of some members, given the outlines of what is below them. -/
def outlineOf (tree : FieldTree) (below : FieldId → Outline) : List FieldId → Outline
  | [] => .nil
  | member :: rest =>
    match tree.field? member with
    | some (.leaf l) => .leaf l (tree.outlineOf below rest)
    | some (.node n) => .node n.identifier n.doc (below member) (tree.outlineOf below rest)
    | none => tree.outlineOf below rest

/-- The outline of what is below a field, down to a number of levels. -/
def outlineBelow (tree : FieldTree) : Nat → FieldId → Outline
  | 0, _ => .nil
  | levels + 1, id => tree.outlineOf (tree.outlineBelow levels) (tree.members id)

/-- The outline of a tree. -/
def outline (tree : FieldTree) : Outline :=
  tree.outlineBelow tree.size rootId

/-- What the walk of a tree finds: each field under its dotted id, without its members. -/
def listing (tree : FieldTree) : List (String × Option Field) :=
  tree.walk.map fun entry => (entry.1, (tree.field? entry.2).map Field.alone)

/-- The documentation of the root, and then of each field that the walk finds. -/
def docs (tree : FieldTree) : List String :=
  tree.root.doc :: tree.listing.filterMap fun entry => entry.2.map Field.doc

/-- All members are in the table. -/
def IsClosed (tree : FieldTree) : Prop :=
  ∀ id, ∀ member ∈ tree.members id, member < tree.size

theorem exists_field?_iff {tree : FieldTree} {id : FieldId} :
    (∃ field, tree.field? id = some field) ↔ id < tree.size := by
  cases id with
  | zero => exact iff_of_true ⟨_, rfl⟩ (Nat.succ_pos _)
  | succ below =>
      rw [field?, size, Nat.succ_lt_succ_iff]
      constructor
      · rintro ⟨field, found⟩
        exact (Array.getElem?_eq_some_iff.mp found).1
      · intro within
        exact ⟨_, Array.getElem?_eq_getElem within⟩

theorem field?_eq_none_iff {tree : FieldTree} {id : FieldId} :
    tree.field? id = none ↔ tree.size ≤ id := by
  rw [← Nat.not_lt, ← exists_field?_iff, Option.eq_none_iff_forall_ne_some, not_exists]

theorem identifier_of_field? {tree : FieldTree} {id : FieldId} {field : Field}
    (found : tree.field? id = some field) : tree.identifier id = field.identifier := by
  rw [identifier, found]

theorem members_of_field? {tree : FieldTree} {id : FieldId} {field : Field}
    (found : tree.field? id = some field) : tree.members id = field.members := by
  rw [members, found]

/-- A name that is plain is not the one given to what is missing. -/
theorem HasPlainNames.isClosed {tree : FieldTree} (plain : tree.HasPlainNames) : tree.IsClosed := by
  intro parent member inside
  by_contra beyond
  have missing := field?_eq_none_iff.mpr (Nat.le_of_not_lt beyond)
  have named := (plain parent member inside).1
  rw [identifier, missing] at named
  exact named rfl

theorem walkBelow_leaf {tree : FieldTree} {id : FieldId} {l : Leaf}
    (found : tree.field? id = some (.leaf l)) (levels : Nat) (names : List String) :
    tree.walkBelow levels names id = [] := by
  cases levels with
  | zero => rfl
  | succ levels =>
      rw [walkBelow, members_of_field? found]
      rfl

private theorem map_walkBelow {tree : FieldTree} (closed : tree.IsClosed) (levels : Nat)
    (names : List String) (id : FieldId) :
    (tree.walkBelow levels names id).map
        (fun entry => (entry.1, (tree.field? entry.2).map Field.alone)) =
      ((tree.outlineBelow levels id).entries names).map fun entry =>
        (Text.join "." entry.1, some entry.2) := by
  induction levels generalizing names id with
  | zero => rfl
  | succ levels ih =>
      rw [walkBelow, outlineBelow]
      have inTable := closed id
      generalize tree.members id = members at inTable
      induction members with
      | nil => rfl
      | cons member rest ihRest =>
          rcases List.forall_mem_cons.mp inTable with ⟨first, others⟩
          rcases exists_field?_iff.mpr first with ⟨field, found⟩
          rw [List.flatMap_cons, List.map_append, ihRest others, outlineOf, found,
            identifier_of_field? found]
          cases field with
          | leaf l =>
              dsimp only
              rw [walkBelow_leaf found, List.map_singleton, found, Outline.entries, List.map_cons]
              rfl
          | node n =>
              dsimp only
              rw [List.map_cons, ih, found, Outline.entries, List.map_cons, List.map_append]
              rfl

/-- The walk of a tree finds what its outline says, under joined names. -/
theorem listing_eq {tree : FieldTree} (closed : tree.IsClosed) :
    tree.listing = (tree.outline.entries []).map fun entry =>
      (Text.join "." entry.1, some entry.2) :=
  map_walkBelow closed tree.size [] rootId

/-- Whatever the walk finds is in the table. -/
theorem exists_field?_of_mem_walk {tree : FieldTree} (closed : tree.IsClosed) {place : String × FieldId}
    (listed : place ∈ tree.walk) : ∃ field, tree.field? place.2 = some field := by
  have inListing : (place.1, (tree.field? place.2).map Field.alone) ∈ tree.listing :=
    List.mem_map_of_mem listed
  rw [listing_eq closed] at inListing
  rcases List.mem_map.mp inListing with ⟨entry, _, same⟩
  rcases Option.map_eq_some_iff.mp (Prod.mk.inj same).2.symm with ⟨field, found, _⟩
  exact ⟨field, found⟩

theorem docs_eq {tree : FieldTree} (closed : tree.IsClosed) :
    tree.docs = tree.root.doc :: (tree.outline.entries []).map fun entry => entry.2.doc := by
  rw [docs, listing_eq closed, List.filterMap_map]
  congr 1
  exact congrFun (List.filterMap_eq_map (f := fun entry : List String × Field => entry.2.doc)) _

theorem identifiers_outlineOf {tree : FieldTree} (below : FieldId → Outline)
    {members : List FieldId} (inTable : ∀ member ∈ members, member < tree.size) :
    (tree.outlineOf below members).identifiers = members.map tree.identifier := by
  induction members with
  | nil => rfl
  | cons member rest ih =>
      rcases List.forall_mem_cons.mp inTable with ⟨first, others⟩
      rcases exists_field?_iff.mpr first with ⟨field, found⟩
      rw [outlineOf, found, List.map_cons, identifier_of_field? found, ← ih others]
      cases field <;> rfl

private theorem isNamed_outlineBelow {tree : FieldTree} (plain : tree.HasPlainNames)
    (distinct : tree.HasDistinctSiblings) (levels : Nat) (id : FieldId) :
    (tree.outlineBelow levels id).IsNamed := by
  induction levels generalizing id with
  | zero => trivial
  | succ levels ih =>
      rw [outlineBelow]
      have inTable := plain.isClosed id
      have plainMembers := plain id
      have distinctMembers := distinct id
      generalize tree.members id = members at inTable plainMembers distinctMembers
      induction members with
      | nil => trivial
      | cons member rest ihRest =>
          rcases List.forall_mem_cons.mp inTable with ⟨first, others⟩
          rcases List.forall_mem_cons.mp plainMembers with ⟨named, othersNamed⟩
          rcases List.nodup_cons.mp distinctMembers with ⟨alone, othersDistinct⟩
          rcases exists_field?_iff.mpr first with ⟨field, found⟩
          have restNamed := ihRest others othersNamed othersDistinct
          rw [← identifiers_outlineOf (tree.outlineBelow levels) others] at alone
          rw [identifier_of_field? found] at named alone
          rw [outlineOf, found]
          cases field with
          | leaf l => exact ⟨named, alone, restNamed⟩
          | node n => exact ⟨named, alone, ih member, restNamed⟩

theorem isNamed_outline {tree : FieldTree} (plain : tree.HasPlainNames)
    (distinct : tree.HasDistinctSiblings) : tree.outline.IsNamed :=
  isNamed_outlineBelow plain distinct tree.size rootId

/-! ## Laying out -/

/-- The tree of an outline, with its root in front. -/
def ofOutline (identifier doc : String) (outline : Outline) : FieldTree :=
  ⟨⟨identifier, doc, outline.positions 1⟩, (outline.fields 1).toArray⟩

/-- From a position on, the table of a tree holds an outline as it is laid out. -/
def Holds (tree : FieldTree) : Nat → Outline → Prop
  | _, .nil => True
  | start, .leaf l rest => tree.field? start = some (.leaf l) ∧ tree.Holds (start + 1) rest
  | start, .node identifier doc members rest =>
    tree.field? start = some (.node ⟨identifier, doc, members.positions (start + 1)⟩) ∧
      tree.Holds (start + 1) members ∧ tree.Holds (start + 1 + members.count) rest

/-- Holding an outline is having its fields one after another. -/
theorem holds_iff {tree : FieldTree} {start : Nat} {outline : Outline} :
    tree.Holds start outline ↔ ∀ index < outline.count,
      tree.field? (start + index) = (outline.fields start)[index]? := by
  induction outline generalizing start with
  | nil => simp [Holds, Outline.count]
  | leaf l rest ih =>
      rw [Holds, ih, Outline.count, Outline.fields]
      have next : ∀ index : Nat, start + (index + 1) = start + 1 + index := by omega
      constructor
      · rintro ⟨first, others⟩ index within
        cases index with
        | zero => exact first
        | succ index =>
            rw [List.getElem?_cons_succ, ← others index (Nat.lt_of_succ_lt_succ within), next]
      · intro all
        refine ⟨all 0 (Nat.succ_pos _), ?_⟩
        intro index within
        rw [← next, all (index + 1) (Nat.succ_lt_succ within), List.getElem?_cons_succ]
  | node identifier doc members rest ihMembers ihRest =>
      rw [Holds, ihMembers, ihRest, Outline.count, Outline.fields]
      have length := members.length_fields (start + 1)
      have inside : ∀ index : Nat, start + (index + 1) = start + 1 + index := by omega
      have behind : ∀ index : Nat,
          start + (members.count + index + 1) = start + 1 + members.count + index := by omega
      constructor
      · rintro ⟨first, below, others⟩ index within
        cases index with
        | zero => exact first
        | succ index =>
            rw [List.getElem?_cons_succ]
            by_cases deeper : index < members.count
            · rw [List.getElem?_append_left (by omega), ← below index deeper, inside]
            · have split : members.count + (index - members.count) = index := by omega
              rw [List.getElem?_append_right (by omega), length,
                ← others (index - members.count) (by omega), ← behind, split]
      · intro all
        refine ⟨all 0 (Nat.succ_pos _), ?_, ?_⟩
        · intro index within
          rw [← inside, all (index + 1) (by omega), List.getElem?_cons_succ,
            List.getElem?_append_left (by omega)]
        · intro index within
          rw [← behind, all (members.count + index + 1) (by omega), List.getElem?_cons_succ,
            List.getElem?_append_right (by omega), length, Nat.add_sub_cancel_left]

theorem holds_ofOutline (identifier doc : String) (outline : Outline) :
    (ofOutline identifier doc outline).Holds 1 outline := by
  rw [holds_iff]
  intro index _
  rw [Nat.add_comm, field?, ofOutline, List.getElem?_toArray]

theorem size_ofOutline (identifier doc : String) (outline : Outline) :
    (ofOutline identifier doc outline).size = outline.count + 1 := by
  rw [size, ofOutline, List.size_toArray, Outline.length_fields]

/-- Levels are not used up: there is at least one field for each. -/
private theorem outlineOf_positions {tree : FieldTree} {outline : Outline} {start : Nat}
    (holds : tree.Holds start outline) {levels : Nat} (enough : outline.count ≤ levels) :
    tree.outlineOf (tree.outlineBelow levels) (outline.positions start) = outline := by
  induction outline generalizing start levels with
  | nil => rfl
  | leaf l rest ih =>
      rcases holds with ⟨first, others⟩
      rw [Outline.count] at enough
      rw [Outline.positions, outlineOf, first]
      dsimp only
      rw [ih others (by omega)]
  | node identifier doc members rest ihMembers ihRest =>
      rcases holds with ⟨first, inside, others⟩
      rw [Outline.count] at enough
      rw [Outline.positions, outlineOf, first]
      dsimp only
      rw [ihRest others (by omega)]
      cases levels with
      | zero => omega
      | succ levels =>
          rw [outlineBelow, members_of_field? first, Field.members, ihMembers inside (by omega)]

/-- Reading off what was laid out gives the outline back. -/
theorem outline_ofOutline (identifier doc : String) (outline : Outline) :
    (ofOutline identifier doc outline).outline = outline := by
  rw [FieldTree.outline, size_ofOutline, outlineBelow]
  exact outlineOf_positions (holds_ofOutline identifier doc outline) (Nat.le_refl _)

/-! ## Numbering -/

/-- The fields are numbered as they are walked, the root first. -/
def IsNumberedInPreorder (tree : FieldTree) : Prop :=
  tree.walk.map Prod.snd = List.range' 1 tree.below.size

instance (tree : FieldTree) : Decidable tree.IsNumberedInPreorder :=
  inferInstanceAs (Decidable (_ = _))

/-- Members whose walk counts up from a position are laid out from there. -/
private theorem holds_of_walk {tree : FieldTree} {levels : Nat} {names : List String}
    (below : ∀ (id : Nat) (names : List String) (found : Nat), id < tree.size →
      tree.size ≤ levels + id → id + 1 + found ≤ tree.size →
      (tree.walkBelow levels names id).map Prod.snd = List.range' (id + 1) found →
      tree.members id = (tree.outlineBelow levels id).positions (id + 1) ∧
        tree.Holds (id + 1) (tree.outlineBelow levels id) ∧
        (tree.outlineBelow levels id).count = found)
    {members : List Nat} {start found : Nat} (deep : tree.size ≤ levels + start)
    (within : start + found ≤ tree.size)
    (walked : (members.flatMap fun member =>
      let path := names ++ [tree.identifier member]
      (Text.join "." path, member) :: tree.walkBelow levels path member).map Prod.snd =
        List.range' start found) :
    members = (tree.outlineOf (tree.outlineBelow levels) members).positions start ∧
      tree.Holds start (tree.outlineOf (tree.outlineBelow levels) members) ∧
      (tree.outlineOf (tree.outlineBelow levels) members).count = found := by
  induction members generalizing start found with
  | nil =>
      have none : found = 0 := by
        have length := congrArg List.length walked
        rw [List.length_range'] at length
        exact length.symm
      exact ⟨rfl, trivial, none.symm⟩
  | cons member rest ih =>
      rw [List.flatMap_cons, List.map_append, List.map_cons, List.cons_append] at walked
      rcases List.range'_eq_cons_iff.mp walked.symm with ⟨first, some, others⟩
      dsimp only at first
      subst first
      rcases List.range'_eq_append_iff.mp others.symm with ⟨inside, most, inner, outer⟩
      rcases exists_field?_iff.mpr (show start < tree.size by omega) with ⟨field, held⟩
      have restDeep : tree.size ≤ levels + (start + 1 + inside) := by omega
      have restWithin : start + 1 + inside + (found - 1 - inside) ≤ tree.size := by omega
      rcases ih restDeep restWithin (by simpa using outer) with ⟨restPlaces, restHeld, restCount⟩
      rw [outlineOf, held]
      cases field with
      | leaf l =>
          have nothing : inside = 0 := by
            rw [walkBelow_leaf held] at inner
            have length := congrArg List.length inner
            rw [List.length_range'] at length
            exact length.symm
          subst nothing
          dsimp only
          rw [Outline.positions, Outline.count, ← restPlaces, restCount]
          exact ⟨rfl, ⟨held, restHeld⟩, by omega⟩
      | node n =>
          rcases below start _ inside (by omega) deep (by omega) inner with
            ⟨places, innerHeld, innerCount⟩
          rw [members_of_field? held, Field.members] at places
          dsimp only
          rw [Outline.positions, Outline.count, innerCount, ← restPlaces, restCount]
          refine ⟨rfl, ⟨?_, innerHeld, innerCount ▸ restHeld⟩, by omega⟩
          rw [held, ← places]

/-- The levels suffice because a field lies at least as far behind in the table as it lies deep in
the tree. -/
private theorem outlineBelow_of_walk {tree : FieldTree} (levels : Nat) :
    ∀ (id : Nat) (names : List String) (found : Nat), id < tree.size →
      tree.size ≤ levels + id → id + 1 + found ≤ tree.size →
      (tree.walkBelow levels names id).map Prod.snd = List.range' (id + 1) found →
      tree.members id = (tree.outlineBelow levels id).positions (id + 1) ∧
        tree.Holds (id + 1) (tree.outlineBelow levels id) ∧
        (tree.outlineBelow levels id).count = found := by
  induction levels with
  | zero =>
      intro id names found inTable deep
      omega
  | succ levels ih =>
      intro id names found inTable deep within walked
      rw [walkBelow] at walked
      rw [outlineBelow]
      exact holds_of_walk ih (by omega) within walked

theorem ext_field? {left right : FieldTree} (same : ∀ id, left.field? id = right.field? id) :
    left = right := by
  rcases left with ⟨leftRoot, leftBelow⟩
  rcases right with ⟨rightRoot, rightBelow⟩
  have root := same 0
  have below : leftBelow = rightBelow := Array.ext_getElem? fun index => same (index + 1)
  cases root
  rw [below]

/-- Laying out what was read off gives a tree back that is numbered in pre-order. -/
theorem ofOutline_outline {tree : FieldTree} (numbered : tree.IsNumberedInPreorder) :
    ofOutline tree.root.identifier tree.root.doc tree.outline = tree := by
  have whole : 0 + 1 + tree.below.size ≤ tree.size := by
    rw [size]
    omega
  rcases outlineBelow_of_walk tree.size 0 [] tree.below.size (Nat.succ_pos _) (Nat.le_refl _) whole
    numbered with ⟨places, held, count⟩
  have places : tree.root.members = tree.outline.positions 1 := places
  have held : tree.Holds 1 tree.outline := held
  have count : tree.outline.count = tree.below.size := count
  have laidOut := holds_ofOutline tree.root.identifier tree.root.doc tree.outline
  have laidOutSize := size_ofOutline tree.root.identifier tree.root.doc tree.outline
  apply ext_field?
  intro id
  cases id with
  | zero => rw [field?, field?, ofOutline, ← places]
  | succ below =>
      by_cases within : below < tree.outline.count
      · have there := holds_iff.mp laidOut below within
        have here := holds_iff.mp held below within
        rw [Nat.add_comm 1] at there here
        exact there.trans here.symm
      · have missing : tree.size ≤ below + 1 := by
          rw [size]
          omega
        rw [field?_eq_none_iff.mpr missing, field?_eq_none_iff, laidOutSize]
        omega

end FieldTree
end KeyedReflection
