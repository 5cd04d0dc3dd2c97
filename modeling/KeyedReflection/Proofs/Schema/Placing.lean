import KeyedReflection.Proofs.Field.Paths
import KeyedReflection.Proofs.Schema.Description

/-!
# Placing entries

A sub-record may be added for the sake of what is below it before its own entry is read, and the checks
of an entry see only what was read before.  The invariant of reading is that the tree says what the
entries read so far describe (`Shows`).

An entry is taken in two steps.  Going down its path leaves sub-records all along the way (`Reached`) or
meets a leaf.  Then the entry is put in its place, where there may be a sub-record already that was passed
on the way to others.  So an entry is refused exactly when it does not fit to those before it
(`addEntry_cases`), and all entries are taken exactly when they go together (`addEntries_cases`).
-/

namespace KeyedReflection
namespace RecordSchema

open FieldTree (rootId)
open Text (IsPlainName)

/-- A tree that says what entries describe. -/
structure Shows (name : String) (entries : List (String × SchemaEntry)) (tree : FieldTree) : Prop where
  grown : tree.IsGrown
  content : ∀ path, tree.at? path = described name entries path

/-- A tree that was filled with the sub-records along a path, the last of which has a given position. -/
structure Reached (name : String) (path : List String) (tree next : FieldTree) (goal : FieldId) :
    Prop where
  grown : next.IsGrown
  content : ∀ other, next.at? other = (tree.at? other).or (passed name path other)
  leads : next.follow? rootId path = some goal
  isNode : ∃ n, next.field? goal = some (.node n)

theorem shows_new (name : String) : Shows name [] (FieldTree.new name "") := by
  refine ⟨.new name "", ?_⟩
  intro path
  cases path with
  | nil => rfl
  | cons first rest =>
      have nothing : described name [] (first :: rest) = none := by
        rw [described, List.find?_nil]
        dsimp only
        apply if_neg
        rintro (top | ⟨entry, listed, _⟩)
        · cases top
        · cases listed
      have missing : (FieldTree.new name "").findMember rootId first = none := rfl
      rw [nothing, FieldTree.at?, FieldTree.follow?_cons, missing]
      rfl

/-! ## Going down -/

private theorem not_prefix_of_append {front back : List String} (nonempty : back ≠ []) :
    ¬ front ++ back <+: front := by
  intro short
  have lengths := short.length_le
  rw [List.length_append] at lengths
  exact nonempty (List.length_eq_zero_iff.mp (by omega))

/-- Below what was reached nothing has changed. -/
theorem Reached.at?_append {name : String} {path : List String} {tree next : FieldTree} {goal : FieldId}
    (reached : Reached name path tree next goal) {way : List String} (nonempty : way ≠ []) :
    next.at? (path ++ way) = tree.at? (path ++ way) := by
  rw [reached.content, passed, if_neg (not_prefix_of_append nonempty), Option.or_none]

/-- A sub-record that is there already is reached without a change. -/
theorem Reached.refl {name : String} {tree : FieldTree} (grown : tree.IsGrown) {path : List String}
    {goal : FieldId} (leads : tree.follow? rootId path = some goal)
    (isNode : ∃ n, tree.field? goal = some (.node n)) : Reached name path tree tree goal := by
  refine ⟨grown, ?_, leads, isNode⟩
  intro other
  rw [passed]
  by_cases onWay : other <+: path
  · rcases Option.isSome_iff_exists.mp (grown.isSome_at?_of_prefix leads onWay) with ⟨field, there⟩
    rw [there]
    rfl
  · rw [if_neg onWay, Option.or_none]

/-- A sub-record that was missing is added and reached. -/
theorem Reached.step (name : String) {tree : FieldTree} (grown : tree.IsGrown) {front : List String}
    {parent : FieldId} (leads : tree.follow? rootId front = some parent)
    (isNode : ∃ n, tree.field? parent = some (.node n)) {segment : String}
    (plain : IsPlainName segment) (missing : tree.findMember parent segment = none) :
    Reached name (front ++ [segment]) tree (tree.add parent (.node ⟨segment, "", []⟩)) tree.size := by
  rcases isNode with ⟨n, found⟩
  have inTable : parent < tree.size := FieldTree.exists_field?_iff.mp ⟨_, found⟩
  have identifier : (Field.node ⟨segment, "", []⟩).identifier = segment := rfl
  have isPlain : IsPlainName (Field.node ⟨segment, "", []⟩).identifier := plain
  have free : tree.findMember parent (Field.node ⟨segment, "", []⟩).identifier = none := missing
  have here : (tree.add parent (.node ⟨segment, "", []⟩)).follow? rootId (front ++ [segment]) =
      some tree.size := by
    rw [grown.follow?_add leads found rfl isPlain free]
    exact if_pos rfl
  refine ⟨grown.add found rfl isPlain free, ?_, here, ⟨segment, "", []⟩, ?_⟩
  · intro path
    rw [grown.at?_add leads found rfl isPlain free, identifier, passed]
    by_cases own : path = front ++ [segment]
    · subst own
      have before : tree.at? (front ++ [segment]) = none := by
        rw [FieldTree.at?, FieldTree.follow?_snoc, leads, Option.bind_some, missing]
        rfl
      rw [if_pos rfl, before, Option.none_or, if_pos List.prefix_rfl, List.getLastD_concat]
      rfl
    · -- What is passed further up is there already.
      rw [if_neg own]
      by_cases onWay : path <+: front ++ [segment]
      · have further := (List.prefix_concat_iff.mp onWay).resolve_left own
        rcases Option.isSome_iff_exists.mp (grown.isSome_at?_of_prefix leads further) with ⟨field, there⟩
        rw [there]
        rfl
      · rw [if_neg onWay, Option.or_none]
  · rw [FieldTree.field?_add found, if_neg (Nat.ne_of_gt inTable), if_pos rfl]

/-- Further down from what was reached. -/
theorem Reached.trans {name : String} {tree middle next : FieldTree} {front path : List String}
    {between goal : FieldId} (first : Reached name front tree middle between)
    (second : Reached name path middle next goal) (onWay : front <+: path) :
    Reached name path tree next goal := by
  refine ⟨second.grown, ?_, second.leads, second.isNode⟩
  intro other
  rw [second.content, first.content, Option.or_assoc]
  congr 1
  rw [passed, passed]
  by_cases above : other <+: front
  · rw [if_pos above, if_pos (above.trans onWay)]
    rfl
  · rw [if_neg above, Option.none_or]

/-- Going down a path succeeds unless it meets a leaf, and leaves sub-records all along the path. -/
theorem descend_cases (name : String) {above : List String} :
    ∀ {tree : FieldTree} {parent : Nat} {front : List String}, tree.IsGrown →
      tree.follow? rootId front = some parent → (∃ n, tree.field? parent = some (.node n)) →
      (∀ segment ∈ above, IsPlainName segment) →
      (∃ cause, descend tree parent above = .error cause ∧
        ∃ way l, way <+: above ∧ way ≠ [] ∧ tree.at? (front ++ way) = some (.leaf l)) ∨
      ∃ next goal, descend tree parent above = .ok (next, goal) ∧
        Reached name (front ++ above) tree next goal := by
  -- By induction on the names still to go; what was passed is in front, and the tree may have grown.
  induction above with
  | nil =>
      intro tree parent front grown leads isNode _
      rw [List.append_nil]
      exact .inr ⟨tree, parent, rfl, .refl grown leads isNode⟩
  | cons segment rest ih =>
      intro tree parent front grown leads isNode plain
      rcases List.forall_mem_cons.mp plain with ⟨segmentPlain, restPlain⟩
      have split : front ++ segment :: rest = front ++ [segment] ++ rest := List.append_cons ..
      have deeper : ∀ {way : List String}, way <+: rest → segment :: way <+: segment :: rest :=
        fun onWay => List.cons_prefix_cons.mpr ⟨rfl, onWay⟩
      cases member : tree.findMember parent segment with
      | some id =>
          have further : tree.follow? rootId (front ++ [segment]) = some id := by
            rw [FieldTree.follow?_snoc, leads]
            exact member
          rcases FieldTree.exists_field?_iff.mpr (grown.inTable_of_follow? further) with ⟨field, there⟩
          rw [descend, member]
          dsimp only
          rw [FieldTree.leaf?, there]
          cases field with
          | leaf l =>
              refine .inl ⟨_, rfl, [segment], l, List.prefix_append [segment] rest,
                List.cons_ne_nil _ _, ?_⟩
              rw [FieldTree.at?, further, Option.bind_some, there]
              rfl
          | node m =>
              rw [split]
              rcases ih grown further ⟨m, there⟩ restPlain with
                ⟨cause, failed, way, l, onWay, _, isLeaf⟩ | reached
              · rw [← List.append_cons] at isLeaf
                exact .inl ⟨cause, failed, segment :: way, l, deeper onWay, List.cons_ne_nil _ _, isLeaf⟩
              · exact .inr reached
      | none =>
          have first := Reached.step name grown leads isNode segmentPlain member
          rw [descend, member]
          dsimp only
          rw [FieldTree.last_add, split]
          rcases ih first.grown first.leads first.isNode restPlain with
            ⟨cause, failed, way, l, onWay, nonempty, isLeaf⟩ | ⟨next, goal, descended, reached⟩
          · refine .inl ⟨cause, failed, segment :: way, l, deeper onWay, List.cons_ne_nil _ _, ?_⟩
            -- The leaf was there before the sub-record was added, which is no leaf and has none.
            rw [List.append_cons, ← first.at?_append nonempty]
            exact isLeaf
          · exact .inr ⟨next, goal, descended, first.trans reached (List.prefix_append _ _)⟩

/-! ## In its place -/

section

variable {name : String} {entries : List (String × SchemaEntry)} {entry : String × SchemaEntry}
  {tree next : FieldTree} {above : List String} {last : String} {parent : FieldId}

/-- Under other paths the tree says already what it will say with one more entry. -/
theorem Reached.content_of_ne (reached : Reached name above tree next parent) {path : List String}
    (other : path ≠ above ++ [last]) :
    next.at? path = (tree.at? path).or (passed name (above ++ [last]) path) := by
  rw [reached.content]
  congr 1
  rw [passed, passed]
  apply if_congr _ rfl rfl
  rw [List.prefix_concat_iff, or_iff_right other]

/-- What the tree says in the place of an entry is what the entries before it describe there. -/
theorem Reached.content_below (reached : Reached name above tree next parent)
    (shown : Shows name entries tree) :
    next.at? (above ++ [last]) = described name entries (above ++ [last]) := by
  rw [reached.at?_append (List.cons_ne_nil last []), shown.content]

theorem Reached.follow?_below (reached : Reached name above tree next parent) :
    next.follow? rootId (above ++ [last]) = next.findMember parent last := by
  rw [FieldTree.follow?_snoc, reached.leads]
  rfl

/-- An entry below a typed one does not fit. -/
theorem not_fits_of_leaf (shown : Shows name entries tree) {way : List String} {l : Leaf}
    (isLeaf : tree.at? way = some (.leaf l)) (isAbove : IsAbove way (pathOf entry.1)) :
    ¬ Fits entries entry := by
  intro fits
  rw [shown.content] at isLeaf
  rcases typed_of_described_leaf isLeaf with ⟨other, listed, rfl, typed⟩
  exact fits.notBelowLeaf other listed typed isAbove

/-- An entry to which the way is free is not below a typed one. -/
theorem Reached.notBelowLeaf (reached : Reached name above tree next parent)
    (shown : Shows name entries tree) (distinct : (entries.map Prod.fst).Nodup)
    (own : pathOf entry.1 = above ++ [last]) :
    ∀ other ∈ entries, other.2.type ≠ none → ¬ IsAbove (pathOf other.1) (pathOf entry.1) := by
  intro other listed typed isAbove
  rcases fieldOf_typed ((pathOf other.1).getLastD name) typed with ⟨l, isLeaf⟩
  have there : next.at? (pathOf other.1) = some (.leaf l) := by
    rw [reached.content, shown.content, described_of_mem distinct listed, isLeaf]
    rfl
  rw [own] at isAbove
  have onWay := (List.prefix_concat_iff.mp isAbove.1).resolve_left isAbove.2
  by_cases atParent : pathOf other.1 = above
  · rcases reached.isNode with ⟨n, found⟩
    rw [atParent, FieldTree.at?, reached.leads, Option.bind_some, found] at there
    cases there
  · exact reached.grown.at?_ne_leaf reached.leads onWay atParent l there

/-- A field that was missing is added. -/
theorem Shows.place_missing (shown : Shows name entries tree)
    (reached : Reached name above tree next parent)
    (new : ∀ other ∈ entries, pathOf other.1 ≠ pathOf entry.1)
    (own : pathOf entry.1 = above ++ [last]) (plain : IsPlainName last)
    (missing : next.findMember parent last = none) :
    Shows name (entries ++ [entry]) (next.add parent (fieldOf last entry.2)) := by
  rcases reached.isNode with ⟨n, found⟩
  have identifier := identifier_fieldOf last entry.2
  have childless := members_fieldOf last entry.2
  have isPlain : IsPlainName (fieldOf last entry.2).identifier := identifier.symm ▸ plain
  have isFree : next.findMember parent (fieldOf last entry.2).identifier = none := by
    rw [identifier, missing]
  refine ⟨reached.grown.add found childless isPlain isFree, ?_⟩
  intro path
  rw [reached.grown.at?_add reached.leads found childless isPlain isFree, identifier,
    described_concat new, alone_fieldOf, own]
  by_cases same : path = above ++ [last]
  · rw [if_pos same, if_pos same, same, List.getLastD_concat]
  · rw [if_neg same, if_neg same, reached.content_of_ne same, shown.content]

/-- A sub-record that was passed on the way to others gets its documentation. -/
theorem Shows.place_present (shown : Shows name entries tree)
    (reached : Reached name above tree next parent)
    (new : ∀ other ∈ entries, pathOf other.1 ≠ pathOf entry.1)
    (own : pathOf entry.1 = above ++ [last]) (untyped : entry.2.type = none) {id : FieldId}
    (present : next.findMember parent last = some id)
    (there : described name entries (above ++ [last]) = some (.node ⟨last, "", []⟩)) :
    Shows name (entries ++ [entry]) (next.setDoc id (Text.join "\n" entry.2.comment)) := by
  have leads : next.follow? rootId (above ++ [last]) = some id := reached.follow?_below.trans present
  refine ⟨reached.grown.setDoc _ _, ?_⟩
  intro path
  rw [reached.grown.at?_setDoc leads, described_concat new, own]
  by_cases same : path = above ++ [last]
  · rw [if_pos same, if_pos same, reached.content_below shown, there, same, List.getLastD_concat,
      fieldOf, untyped]
    rfl
  · rw [if_neg same, if_neg same, reached.content_of_ne same, shown.content]

/-- Where there is no field yet, an entry fits and is placed. -/
theorem placeEntry_missing (shown : Shows name entries tree)
    (reached : Reached name above tree next parent) (distinct : (entries.map Prod.fst).Nodup)
    (new : ∀ other ∈ entries, pathOf other.1 ≠ pathOf entry.1)
    (own : pathOf entry.1 = above ++ [last]) (plain : IsPlainName last) (notRecord : entry.1 ≠ "")
    (named : entry.1 ≠ "" → "" ∉ Text.splitOn '.' entry.1)
    (missing : next.findMember parent last = none) :
    Fits entries entry ∧ ∃ grown, placeEntry next parent last entry.2
      (Text.join "\n" entry.2.comment) = .ok grown ∧ Shows name (entries ++ [entry]) grown := by
  have free : described name entries (above ++ [last]) = none := by
    rw [← reached.content_below shown, FieldTree.at?, reached.follow?_below, missing]
    rfl
  have nothingBelow : ∀ other ∈ entries, ¬ IsAbove (pathOf entry.1) (pathOf other.1) := by
    intro other listed isAbove
    have present := described_isSome_of_above name listed isAbove
    rw [own, free] at present
    cases present
  have placed := shown.place_missing reached new own plain missing
  refine ⟨⟨fun isRecord => absurd isRecord notRecord, named, reached.notBelowLeaf shown distinct own,
    fun _ => nothingBelow⟩, ?_⟩
  rw [placeEntry, missing]
  rw [fieldOf] at placed
  cases typed : entry.2.type with
  | none =>
      rw [typed] at placed
      exact ⟨_, rfl, placed⟩
  | some type =>
      rw [typed] at placed
      exact ⟨_, rfl, placed⟩

/-- A field that is there already has no entry of its own, so it was passed on the way to others. -/
theorem Reached.present_below (reached : Reached name above tree next parent)
    (shown : Shows name entries tree) (new : ∀ other ∈ entries, pathOf other.1 ≠ pathOf entry.1)
    (own : pathOf entry.1 = above ++ [last]) {id : FieldId}
    (present : next.findMember parent last = some id) :
    described name entries (above ++ [last]) = some (.node ⟨last, "", []⟩) ∧
      ∃ other ∈ entries, IsAbove (pathOf entry.1) (pathOf other.1) := by
  have nonempty : above ++ [last] ≠ [] := List.append_ne_nil_of_right_ne_nil _ (List.cons_ne_nil _ _)
  have leads : next.follow? rootId (above ++ [last]) = some id := reached.follow?_below.trans present
  have held := reached.grown.isSome_at?_iff.mpr (Option.isSome_iff_exists.mpr ⟨id, leads⟩)
  rw [reached.content_below shown] at held
  rcases Option.isSome_iff_exists.mp held with ⟨field, there⟩
  rcases described_cases there with ⟨other, listed, same, _⟩ | ⟨_, onWay, rfl⟩
  · exact absurd (same.trans own.symm) (new other listed)
  · rw [List.getLastD_concat] at there
    rw [own]
    exact ⟨there, onWay.resolve_left nonempty⟩

/-- Where a sub-record was passed on the way to others, an entry is placed exactly when it is untyped. -/
theorem placeEntry_present (shown : Shows name entries tree)
    (reached : Reached name above tree next parent) (distinct : (entries.map Prod.fst).Nodup)
    (new : ∀ other ∈ entries, pathOf other.1 ≠ pathOf entry.1)
    (own : pathOf entry.1 = above ++ [last])
    (named : entry.1 ≠ "" → "" ∉ Text.splitOn '.' entry.1) {id : FieldId}
    (present : next.findMember parent last = some id) :
    (Fits entries entry ∧ ∃ grown, placeEntry next parent last entry.2
      (Text.join "\n" entry.2.comment) = .ok grown ∧ Shows name (entries ++ [entry]) grown) ∨
    ¬ Fits entries entry ∧ ∃ cause, placeEntry next parent last entry.2
      (Text.join "\n" entry.2.comment) = .error cause := by
  rcases reached.present_below shown new own present with ⟨there, other, listed, isAbove⟩
  rw [placeEntry, present]
  cases typed : entry.2.type with
  | some type =>
      have isTyped : entry.2.type ≠ none := typed ▸ Option.some_ne_none type
      exact .inr ⟨fun fits => fits.nothingBelow isTyped other listed isAbove, _, rfl⟩
  | none =>
      have fits : Fits entries entry :=
        ⟨fun _ => typed, named, reached.notBelowLeaf shown distinct own,
          fun isTyped => absurd typed isTyped⟩
      have notLeaf : next.leaf? id = none := by
        have content := (reached.content_below shown).trans there
        rw [FieldTree.at?, reached.follow?_below, present, Option.bind_some] at content
        rcases Option.map_eq_some_iff.mp content with ⟨field, held, alone⟩
        rw [FieldTree.leaf?, held]
        cases field with
        | leaf l => cases alone
        | node n => rfl
      dsimp only
      rw [notLeaf]
      exact .inl ⟨fits, _, rfl, shown.place_present reached new own typed present there⟩

/-- An untyped entry of the record itself replaces its documentation. -/
theorem Shows.setRoot (shown : Shows name entries tree)
    (new : ∀ other ∈ entries, pathOf other.1 ≠ pathOf entry.1) (isRecord : entry.1 = "")
    (untyped : entry.2.type = none) :
    Shows name (entries ++ [entry]) (tree.setDoc rootId (Text.join "\n" entry.2.comment)) := by
  have own : pathOf entry.1 = [] := pathOf_eq_nil_iff.mpr isRecord
  refine ⟨shown.grown.setDoc _ _, ?_⟩
  intro path
  rw [shown.grown.at?_setDoc (FieldTree.follow?_nil tree rootId), described_concat new, own]
  by_cases top : path = []
  · have missing : entries.find? (fun other => pathOf other.1 == []) = none := by
      rw [List.find?_eq_none]
      intro other listed same
      exact new other listed ((beq_iff_eq.mp same).trans own.symm)
    have before : described name entries [] = some (.node ⟨name, "", []⟩) := by
      rw [described, missing]
      exact if_pos (.inl rfl)
    rw [if_pos top, if_pos top, top, shown.content, before, fieldOf, untyped]
    rfl
  · have notPassed : passed name [] path = none := if_neg fun onWay => top (List.prefix_nil.mp onWay)
    rw [if_neg top, if_neg top, notPassed, Option.or_none, shown.content]

/-- An entry is taken exactly when it fits to those before it, and then the tree shows it too. -/
theorem addEntry_cases (shown : Shows name entries tree)
    (distinct : ((entries ++ [entry]).map Prod.fst).Nodup) :
    (Fits entries entry ∧ ∃ next, addEntry tree entry.1 entry.2 = .ok next ∧
      Shows name (entries ++ [entry]) next) ∨
    ¬ Fits entries entry ∧ ∃ cause, addEntry tree entry.1 entry.2 = .error cause := by
  rw [List.map_append, List.map_singleton, List.nodup_append] at distinct
  rcases distinct with ⟨distinctBefore, _, apart⟩
  have new : ∀ other ∈ entries, pathOf other.1 ≠ pathOf entry.1 := by
    intro other listed same
    exact apart other.1 (List.mem_map_of_mem listed) entry.1 List.mem_cons_self (pathOf_injective same)
  rw [addEntry]
  by_cases isRecord : entry.1 = ""
  · rw [if_pos isRecord]
    cases typed : entry.2.type with
    | some type =>
        refine .inr ⟨fun fits => ?_, _, rfl⟩
        rw [fits.untypedRecord isRecord] at typed
        cases typed
    | none =>
        refine .inl ⟨⟨fun _ => typed, fun other => absurd isRecord other, ?_,
          fun isTyped => absurd typed isTyped⟩, _, rfl, shown.setRoot new isRecord typed⟩
        intro other _ _ isAbove
        rw [pathOf_eq_nil_iff.mpr isRecord] at isAbove
        exact isAbove.2 (List.prefix_nil.mp isAbove.1)
  · rw [if_neg isRecord]
    dsimp only
    by_cases unnamed : "" ∈ Text.splitOn '.' entry.1
    · rw [if_pos unnamed]
      exact .inr ⟨fun fits => fits.named isRecord unnamed, _, rfl⟩
    · rw [if_neg unnamed]
      have plain : ∀ segment ∈ pathOf entry.1, IsPlainName segment := plain_pathOf fun _ => unnamed
      have further : pathOf entry.1 ≠ [] := mt pathOf_eq_nil_iff.mp isRecord
      rcases (List.eq_nil_or_concat' (pathOf entry.1)).resolve_left further with ⟨above, last, own⟩
      rw [own] at plain
      rcases List.forall_mem_append.mp plain with ⟨abovePlain, lastPlain⟩
      rw [← pathOf_of_ne isRecord, own, List.dropLast_concat, List.getLastD_concat]
      rcases descend_cases name shown.grown (FieldTree.follow?_nil tree rootId) ⟨tree.root, rfl⟩
          abovePlain with
        ⟨cause, failed, way, l, onWay, _, isLeaf⟩ | ⟨next, parent, descended, reached⟩
      · have isAbove : IsAbove way (pathOf entry.1) := by
          rw [own]
          refine ⟨onWay.trans (List.prefix_append _ _), ?_⟩
          rintro rfl
          exact not_prefix_of_append (List.cons_ne_nil last []) onWay
        rw [failed]
        exact .inr ⟨not_fits_of_leaf shown isLeaf isAbove, _, rfl⟩
      · rw [descended]
        have named : entry.1 ≠ "" → "" ∉ Text.splitOn '.' entry.1 := fun _ => unnamed
        cases member : next.findMember parent last with
        | none =>
            exact .inl (placeEntry_missing shown reached distinctBefore new own
              (lastPlain last List.mem_cons_self) isRecord named member)
        | some id => exact placeEntry_present shown reached distinctBefore new own named member

end

/-! ## Adding all entries -/

/-- All entries are taken exactly when they go together, and then the tree shows them. -/
theorem addEntries_cases {name : String} (entries : List (String × SchemaEntry)) :
    ∀ {read : List (String × SchemaEntry)} {tree : FieldTree}, Shows name read tree →
      IsConsistent read → ((read ++ entries).map Prod.fst).Nodup →
      (IsConsistent (read ++ entries) ∧ ∃ next, addEntries tree entries = .ok next ∧
        Shows name (read ++ entries) next) ∨
      ¬ IsConsistent (read ++ entries) ∧ ∃ cause, addEntries tree entries = .error cause := by
  induction entries with
  | nil =>
      intro read tree shown consistent _
      rw [List.append_nil]
      exact .inl ⟨consistent, tree, rfl, shown⟩
  | cons entry rest ih =>
      intro read tree shown consistent distinct
      have whole : read ++ entry :: rest = read ++ [entry] ++ rest := List.append_cons ..
      rw [whole] at distinct ⊢
      have distinctRead : ((read ++ [entry]).map Prod.fst).Nodup := by
        rw [List.map_append] at distinct
        exact (List.nodup_append.mp distinct).1
      rcases addEntry_cases shown distinctRead with ⟨fits, next, added, shownNext⟩ |
        ⟨misfit, cause, failed⟩
      · rw [addEntries_cons added]
        exact ih shownNext (isConsistent_concat_iff.mpr ⟨consistent, fits⟩) distinct
      · refine .inr ⟨fun together => ?_, cause, ?_⟩
        · have front := together.of_subset (List.subset_append_left (read ++ [entry]) rest)
          exact misfit (isConsistent_concat_iff.mp front).2
        · rw [addEntries, List.foldlM_cons, failed]
          rfl

end RecordSchema
end KeyedReflection
