import KeyedReflection.Proofs.Schema.Loading
import KeyedReflection.Proofs.SortedMap

/-!
# What entries describe

The entries of a schema may come in any order.  What they say together does not depend on it:
`described` gives the field that entries put under a path, and `IsConsistent` says which entries go
together.  The record itself must not be typed, no name may be empty, and nothing may be below a leaf.

Both grow with one more entry in a simple way.  Entries go together when each fits to those before it
(`isConsistent_concat_iff`), and one more entry decides what is under its own path and adds the
sub-records that it passes (`described_concat`).
-/

namespace KeyedReflection
namespace RecordSchema

open Text (IsPlainName)

/-! ## Paths of entries -/

/-- The names that lead to the field of an entry.  To the record itself none lead. -/
def pathOf (text : String) : List String :=
  if text = "" then [] else Text.splitOn '.' text

/-- One path is passed on the way along another. -/
def IsAbove (upper lower : List String) : Prop :=
  upper <+: lower ∧ upper ≠ lower

theorem join_pathOf (text : String) : Text.join "." (pathOf text) = text := by
  rw [pathOf]
  by_cases empty : text = ""
  · rw [if_pos empty, empty]
    rfl
  · rw [if_neg empty]
    exact Text.join_splitOn '.' text

theorem pathOf_injective {left right : String} (same : pathOf left = pathOf right) :
    left = right := by
  rw [← join_pathOf left, same, join_pathOf]

theorem pathOf_empty : pathOf "" = [] :=
  if_pos rfl

theorem pathOf_eq_nil_iff {text : String} : pathOf text = [] ↔ text = "" := by
  constructor
  · intro none
    exact pathOf_injective (none.trans pathOf_empty.symm)
  · rintro rfl
    exact pathOf_empty

theorem pathOf_of_ne {text : String} (nonempty : text ≠ "") :
    pathOf text = Text.splitOn '.' text :=
  if_neg nonempty

theorem pathOf_join {names : List String} (plain : ∀ name ∈ names, IsPlainName name) :
    pathOf (Text.join "." names) = names := by
  by_cases none : names = []
  · rw [none]
    exact pathOf_empty
  · rw [pathOf_of_ne (Text.join_ne_empty none plain), Text.splitOn_join_dot none plain]

/-- The pieces of a path are names when none of them is empty. -/
theorem plain_pathOf {text : String} (named : text ≠ "" → "" ∉ Text.splitOn '.' text) :
    ∀ name ∈ pathOf text, IsPlainName name := by
  intro name listed
  have nonempty : text ≠ "" := by
    rintro rfl
    rw [pathOf_empty] at listed
    cases listed
  rw [pathOf_of_ne nonempty] at listed
  refine ⟨?_, Text.not_mem_of_mem_splitOn listed⟩
  rintro rfl
  exact named nonempty listed

/-! ## Entries that go together -/

/-- Entries that describe a record together, whatever their order. -/
structure IsConsistent (entries : List (String × SchemaEntry)) : Prop where
  /-- The record itself is not a typed field. -/
  untypedRecord : ∀ entry ∈ entries, entry.1 = "" → entry.2.type = none
  /-- No name on a path is empty. -/
  named : ∀ entry ∈ entries, entry.1 ≠ "" → "" ∉ Text.splitOn '.' entry.1
  /-- Nothing is below a leaf. -/
  leavesEnd : ∀ entry ∈ entries, entry.2.type ≠ none →
    ∀ other ∈ entries, ¬ IsAbove (pathOf entry.1) (pathOf other.1)

/-- An entry that goes together with others. -/
structure Fits (entries : List (String × SchemaEntry)) (entry : String × SchemaEntry) : Prop where
  untypedRecord : entry.1 = "" → entry.2.type = none
  named : entry.1 ≠ "" → "" ∉ Text.splitOn '.' entry.1
  notBelowLeaf : ∀ other ∈ entries, other.2.type ≠ none → ¬ IsAbove (pathOf other.1) (pathOf entry.1)
  nothingBelow : entry.2.type ≠ none → ∀ other ∈ entries, ¬ IsAbove (pathOf entry.1) (pathOf other.1)

section

variable {entries : List (String × SchemaEntry)} {entry : String × SchemaEntry}

theorem IsConsistent.of_subset {others : List (String × SchemaEntry)}
    (consistent : IsConsistent entries) (subset : others ⊆ entries) : IsConsistent others where
  untypedRecord one listed := consistent.untypedRecord one (subset listed)
  named one listed := consistent.named one (subset listed)
  leavesEnd one listed typed other inside :=
    consistent.leavesEnd one (subset listed) typed other (subset inside)

theorem isConsistent_nil : IsConsistent [] where
  untypedRecord _ listed := nomatch listed
  named _ listed := nomatch listed
  leavesEnd _ listed := nomatch listed

/-- Entries go together one by one. -/
theorem isConsistent_concat_iff :
    IsConsistent (entries ++ [entry]) ↔ IsConsistent entries ∧ Fits entries entry := by
  have last : entry ∈ entries ++ [entry] := List.mem_append_right _ List.mem_cons_self
  constructor
  · intro consistent
    refine ⟨consistent.of_subset (List.subset_append_left _ _), ?_⟩
    exact {
      untypedRecord := consistent.untypedRecord entry last
      named := consistent.named entry last
      notBelowLeaf := fun other listed typed =>
        consistent.leavesEnd other (List.mem_append_left _ listed) typed entry last
      nothingBelow := fun typed other listed =>
        consistent.leavesEnd entry last typed other (List.mem_append_left _ listed) }
  · rintro ⟨consistent, fits⟩
    refine ⟨?_, ?_, ?_⟩
    · exact List.forall_mem_append.mpr
        ⟨consistent.untypedRecord, List.forall_mem_singleton.mpr fits.untypedRecord⟩
    · exact List.forall_mem_append.mpr ⟨consistent.named, List.forall_mem_singleton.mpr fits.named⟩
    · intro one oneListed typed other otherListed
      rcases List.mem_append.mp oneListed with oneBefore | oneLast
      · rcases List.mem_append.mp otherListed with otherBefore | otherLast
        · exact consistent.leavesEnd one oneBefore typed other otherBefore
        · rw [List.mem_singleton.mp otherLast]
          exact fits.notBelowLeaf one oneBefore typed
      · rw [List.mem_singleton.mp oneLast] at typed ⊢
        rcases List.mem_append.mp otherListed with otherBefore | otherLast
        · exact fits.nothingBelow typed other otherBefore
        · rw [List.mem_singleton.mp otherLast]
          exact fun above => above.2 rfl

end

/-! ## What entries describe -/

/-- The sub-record that is passed under a path on the way along another. -/
def passed (name : String) (own path : List String) : Option Field :=
  if path <+: own then some (.node ⟨path.getLastD name, "", []⟩) else none

/-- The field that entries describe under a path: that of the entry with this path, or else a
sub-record that is passed on the way to others.  The record itself, which has the given name, is always
there. -/
def described (name : String) (entries : List (String × SchemaEntry)) (path : List String) :
    Option Field :=
  match entries.find? fun entry => pathOf entry.1 == path with
  | some entry => some (fieldOf (path.getLastD name) entry.2)
  | none =>
    if path = [] ∨ ∃ entry ∈ entries, path <+: pathOf entry.1 then
      some (.node ⟨path.getLastD name, "", []⟩)
    else none

section

variable {name : String} {entries : List (String × SchemaEntry)} {entry : String × SchemaEntry}

/-- One more entry decides what is under its own path, and adds the sub-records that it passes. -/
theorem described_concat (new : ∀ other ∈ entries, pathOf other.1 ≠ pathOf entry.1)
    (path : List String) :
    described name (entries ++ [entry]) path =
      if path = pathOf entry.1 then some (fieldOf (path.getLastD name) entry.2)
      else (described name entries path).or (passed name (pathOf entry.1) path) := by
  rw [described, List.find?_append]
  by_cases own : path = pathOf entry.1
  · have before : entries.find? (fun other => pathOf other.1 == path) = none := by
      rw [List.find?_eq_none]
      intro other listed same
      exact new other listed ((beq_iff_eq.mp same).trans own)
    have last : [entry].find? (fun other => pathOf other.1 == path) = some entry :=
      List.find?_cons_of_pos (beq_iff_eq.mpr own.symm)
    rw [if_pos own, before, last]
    rfl
  · have last : [entry].find? (fun other => pathOf other.1 == path) = none := by
      rw [List.find?_singleton, if_neg (fun same => own (beq_iff_eq.mp same).symm)]
    rw [if_neg own, last, Option.or_none, described]
    cases entries.find? fun other => pathOf other.1 == path with
    | some other => rfl
    | none =>
        dsimp only
        by_cases before : path = [] ∨ ∃ other ∈ entries, path <+: pathOf other.1
        · have after : path = [] ∨ ∃ other ∈ entries ++ [entry], path <+: pathOf other.1 :=
            before.imp id fun ⟨other, listed, onWay⟩ => ⟨other, List.mem_append_left _ listed, onWay⟩
          rw [if_pos before, if_pos after]
          rfl
        · rw [if_neg before, Option.none_or, passed]
          apply if_congr _ rfl rfl
          constructor
          · rintro (top | ⟨other, listed, onWay⟩)
            · exact absurd (.inl top) before
            · rcases List.mem_append.mp listed with earlier | last
              · exact absurd (.inr ⟨other, earlier, onWay⟩) before
              · exact List.mem_singleton.mp last ▸ onWay
          · intro onWay
            exact .inr ⟨entry, List.mem_append_right _ List.mem_cons_self, onWay⟩

theorem nodup_paths (distinct : (entries.map Prod.fst).Nodup) :
    (entries.map fun entry => pathOf entry.1).Nodup := by
  have paths : (entries.map fun entry => pathOf entry.1) = (entries.map Prod.fst).map pathOf := by
    rw [List.map_map]
    rfl
  rw [paths]
  exact distinct.map fun left right same => pathOf_injective same

theorem described_of_mem (distinct : (entries.map Prod.fst).Nodup) (listed : entry ∈ entries) :
    described name entries (pathOf entry.1) =
      some (fieldOf ((pathOf entry.1).getLastD name) entry.2) := by
  have found := (SortedMap.find?_eq_some_iff_of_distinct (nodup_paths distinct)).mpr ⟨listed, rfl⟩
  rw [described, found]

/-- What is under a path was described by an entry of its own, or passed on the way to others. -/
theorem described_cases {path : List String} {field : Field}
    (there : described name entries path = some field) :
    (∃ entry ∈ entries, pathOf entry.1 = path ∧ field = fieldOf (path.getLastD name) entry.2) ∨
      (∀ entry ∈ entries, pathOf entry.1 ≠ path) ∧
        (path = [] ∨ ∃ entry ∈ entries, IsAbove path (pathOf entry.1)) ∧
        field = .node ⟨path.getLastD name, "", []⟩ := by
  rw [described] at there
  cases found : entries.find? fun entry => pathOf entry.1 == path with
  | some entry =>
      rw [found] at there
      have own := List.find?_some found
      exact .inl ⟨entry, List.mem_of_find?_eq_some found, beq_iff_eq.mp own,
        (Option.some.inj there).symm⟩
  | none =>
      rw [found] at there
      have others : ∀ entry ∈ entries, pathOf entry.1 ≠ path := fun entry listed same =>
        List.find?_eq_none.mp found entry listed (beq_iff_eq.mpr same)
      dsimp only at there
      split at there
      · rename_i onWay
        refine .inr ⟨others, onWay.imp id ?_, (Option.some.inj there).symm⟩
        rintro ⟨entry, listed, ahead⟩
        exact ⟨entry, listed, ahead, (others entry listed).symm⟩
      · cases there

/-- Below a path that has a field with more below it there is a field under the path too. -/
theorem described_isSome_of_above (name : String) {path : List String} (listed : entry ∈ entries)
    (above : IsAbove path (pathOf entry.1)) : (described name entries path).isSome = true := by
  rw [described]
  cases entries.find? fun entry => pathOf entry.1 == path with
  | some other => rfl
  | none =>
      dsimp only
      rw [if_pos (.inr ⟨entry, listed, above.1⟩)]
      rfl

/-- Only a typed entry of its own makes the field under a path a leaf. -/
theorem typed_of_described_leaf {path : List String} {l : Leaf}
    (there : described name entries path = some (.leaf l)) :
    ∃ entry ∈ entries, pathOf entry.1 = path ∧ entry.2.type ≠ none := by
  rcases described_cases there with ⟨entry, listed, own, same⟩ | ⟨_, _, same⟩
  · refine ⟨entry, listed, own, fun untyped => ?_⟩
    rw [fieldOf, untyped] at same
    cases same
  · cases same

theorem fieldOf_typed (identifier : String) {entry : SchemaEntry} (typed : entry.type ≠ none) :
    ∃ l, fieldOf identifier entry = .leaf l := by
  rcases Option.ne_none_iff_exists'.mp typed with ⟨type, given⟩
  rw [fieldOf, given]
  exact ⟨_, rfl⟩

end

@[simp] theorem identifier_fieldOf (identifier : String) (entry : SchemaEntry) :
    (fieldOf identifier entry).identifier = identifier := by
  rw [fieldOf]
  cases entry.type <;> rfl

@[simp] theorem members_fieldOf (identifier : String) (entry : SchemaEntry) :
    (fieldOf identifier entry).members = [] := by
  rw [fieldOf]
  cases entry.type <;> rfl

@[simp] theorem alone_fieldOf (identifier : String) (entry : SchemaEntry) :
    (fieldOf identifier entry).alone = fieldOf identifier entry := by
  rw [fieldOf]
  cases entry.type <;> rfl

/-! ## What a record says of its entries -/

/-- The last name on a path. -/
def nameOf (text : String) : String :=
  (pathOf text).getLastD ""

/-- The documentation that the entry of a path gives; without an entry there is none. -/
def docOf (entries : List (String × SchemaEntry)) (text : String) : String :=
  match entries.find? fun entry => entry.1 == text with
  | some entry => Text.join "\n" entry.2.comment
  | none => ""

/-- Below the record there is a sub-record under a path that has an entry without a type, and under a
path that is passed on the way to another entry. -/
def IsSubRecord (entries : List (String × SchemaEntry)) (text : String) : Prop :=
  text ≠ "" ∧ ((∃ entry, (text, entry) ∈ entries ∧ entry.type = none) ∨
    ∃ other ∈ entries, IsAbove (pathOf text) (pathOf other.1))

section

variable {name : String} {entries : List (String × SchemaEntry)} {text : String}

theorem nameOf_eq (nonempty : text ≠ "") (name : String) : (pathOf text).getLastD name = nameOf text := by
  have further : pathOf text ≠ [] := mt pathOf_eq_nil_iff.mp nonempty
  rw [nameOf, List.getLastD_eq_getLast?, List.getLastD_eq_getLast?,
    List.getLast?_eq_some_getLast further]
  rfl

theorem docOf_of_mem (distinct : (entries.map Prod.fst).Nodup) {entry : SchemaEntry}
    (listed : (text, entry) ∈ entries) : docOf entries text = Text.join "\n" entry.comment := by
  have found := (SortedMap.find?_eq_some_iff_of_distinct distinct).mpr ⟨listed, Eq.refl text⟩
  rw [docOf, found]

theorem docOf_of_missing (missing : ∀ entry ∈ entries, entry.1 ≠ text) : docOf entries text = "" := by
  have notFound : entries.find? (fun entry => entry.1 == text) = none :=
    List.find?_eq_none.mpr fun entry listed same => missing entry listed (beq_iff_eq.mp same)
  rw [docOf, notFound]

/-- A leaf is described by the typed entry of its path. -/
theorem described_leaf_iff (distinct : (entries.map Prod.fst).Nodup) {l : Leaf} :
    described name entries (pathOf text) = some (.leaf l) ↔
      ∃ entry type, (text, entry) ∈ entries ∧ entry.type = some type ∧
        l = leafOf ((pathOf text).getLastD name) type entry (Text.join "\n" entry.comment) := by
  constructor
  · intro there
    rcases described_cases there with ⟨⟨own, entry⟩, listed, samePath, same⟩ | ⟨_, _, same⟩
    · have sameText : own = text := pathOf_injective samePath
      subst sameText
      cases typed : entry.type with
      | none =>
          rw [fieldOf, typed] at same
          cases same
      | some type =>
          rw [fieldOf, typed] at same
          exact ⟨entry, type, listed, typed, Field.leaf.inj same⟩
    · cases same
  · rintro ⟨entry, type, listed, typed, rfl⟩
    rw [described_of_mem distinct listed, fieldOf, typed]

/-- A typed entry is neither that of the record nor passed on the way to others. -/
theorem IsConsistent.untyped_of_isSubRecord (consistent : IsConsistent entries)
    (distinct : (entries.map Prod.fst).Nodup) {entry : SchemaEntry} (listed : (text, entry) ∈ entries)
    (isNode : text = "" ∨ IsSubRecord entries text) : entry.type = none := by
  rcases isNode with isRecord | ⟨_, ⟨other, inside, untyped⟩ | ⟨other, inside, above⟩⟩
  · exact consistent.untypedRecord _ listed isRecord
  · cases List.inj_on_of_nodup_map distinct listed inside rfl
    exact untyped
  · by_contra typed
    exact consistent.leavesEnd _ listed typed other inside above

/-- A sub-record is described by the untyped entry of its path, or passed on the way to others. -/
theorem described_node_iff (consistent : IsConsistent entries)
    (distinct : (entries.map Prod.fst).Nodup) {n : Node} :
    described name entries (pathOf text) = some (.node n) ↔
      (text = "" ∨ IsSubRecord entries text) ∧
        n = ⟨(pathOf text).getLastD name, docOf entries text, []⟩ := by
  constructor
  · intro there
    rcases described_cases there with ⟨⟨own, entry⟩, listed, samePath, same⟩ | ⟨none, onWay, same⟩
    · have sameText : own = text := pathOf_injective samePath
      subst sameText
      cases typed : entry.type with
      | some type =>
          rw [fieldOf, typed] at same
          cases same
      | none =>
          rw [fieldOf, typed] at same
          refine ⟨?_, docOf_of_mem distinct listed ▸ Field.node.inj same⟩
          by_cases isRecord : own = ""
          · exact .inl isRecord
          · exact .inr ⟨isRecord, .inl ⟨entry, listed, typed⟩⟩
    · have missing : ∀ entry ∈ entries, entry.1 ≠ text := fun entry listed sameText =>
        none entry listed (congrArg pathOf sameText)
      refine ⟨?_, docOf_of_missing missing ▸ Field.node.inj same⟩
      by_cases isRecord : text = ""
      · exact .inl isRecord
      · exact .inr ⟨isRecord, .inr (onWay.resolve_left (mt pathOf_eq_nil_iff.mp isRecord))⟩
  · rintro ⟨isNode, rfl⟩
    cases found : entries.find? fun entry => pathOf entry.1 == pathOf text with
    | some entry =>
        rcases (SortedMap.find?_eq_some_iff_of_distinct (nodup_paths distinct)).mp found with
          ⟨listed, samePath⟩
        have sameText : entry.1 = text := pathOf_injective samePath
        subst sameText
        have untyped := consistent.untyped_of_isSubRecord distinct listed isNode
        rw [described, found, docOf_of_mem distinct listed]
        dsimp only
        rw [fieldOf, untyped]
    | none =>
        have missing : ∀ entry ∈ entries, entry.1 ≠ text := fun entry listed sameText =>
          List.find?_eq_none.mp found entry listed (beq_iff_eq.mpr (congrArg pathOf sameText))
        have onWay : pathOf text = [] ∨ ∃ entry ∈ entries, pathOf text <+: pathOf entry.1 := by
          rcases isNode with isRecord | ⟨_, ⟨other, inside, _⟩ | ⟨other, inside, above⟩⟩
          · exact .inl (pathOf_eq_nil_iff.mpr isRecord)
          · exact absurd rfl (missing _ inside)
          · exact .inr ⟨other, inside, above.1⟩
        rw [described, found, docOf_of_missing missing]
        exact if_pos onWay

/-- What entries describe does not depend on their order. -/
theorem described_perm (distinct : (entries.map Prod.fst).Nodup)
    {others : List (String × SchemaEntry)} (permuted : others.Perm entries) (path : List String) :
    described name others path = described name entries path := by
  have distinctOthers : (others.map Prod.fst).Nodup :=
    (permuted.map Prod.fst).nodup_iff.mpr distinct
  have found : others.find? (fun entry => pathOf entry.1 == path) =
      entries.find? fun entry => pathOf entry.1 == path := by
    apply Option.ext
    intro entry
    rw [SortedMap.find?_eq_some_iff_of_distinct (nodup_paths distinctOthers),
      SortedMap.find?_eq_some_iff_of_distinct (nodup_paths distinct), permuted.mem_iff]
  rw [described, described, found]
  simp only [permuted.mem_iff]

theorem isConsistent_perm {others : List (String × SchemaEntry)} (permuted : others.Perm entries) :
    IsConsistent others ↔ IsConsistent entries :=
  ⟨fun consistent => consistent.of_subset permuted.symm.subset,
    fun consistent => consistent.of_subset permuted.subset⟩

end

end RecordSchema
end KeyedReflection
