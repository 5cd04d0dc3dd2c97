import KeyedReflection.Proofs.Field.Naming
import Mathlib.Data.List.Nodup

/-!
# Outlines

An outline is a field tree without its table: the fields at one level, each sub-record together with
the outline of its members.  `FieldTree.outline` reads it off a tree, and `FieldTree.ofOutline` lays one
out in a table, every field in front of its members and these in front of what comes next.

Reading off what was laid out gives the outline back.  The other way round the table matters too: it
comes back exactly when its fields are numbered as the tree is walked.
-/

namespace KeyedReflection

open Text (IsPlainName)

/-- The fields at one level and what is below them. -/
inductive Outline where
  | nil
  | leaf (leaf : Leaf) (rest : Outline)
  | node (identifier doc : String) (members rest : Outline)
  deriving DecidableEq

/-- A field without its members, which are positions and mean nothing outside their table. -/
def Field.alone : Field → Field
  | .leaf l => .leaf l
  | .node n => .node { n with members := [] }

namespace Outline

/-- The number of fields. -/
def count : Outline → Nat
  | nil => 0
  | leaf _ rest => rest.count + 1
  | node _ _ members rest => members.count + rest.count + 1

/-- The positions of the fields at the first level, when the first of them has a given one. -/
def positions : Nat → Outline → List Nat
  | _, nil => []
  | start, leaf _ rest => start :: rest.positions (start + 1)
  | start, node _ _ members rest => start :: rest.positions (start + 1 + members.count)

/-- All fields in pre-order, when the first of them has a given position. -/
def fields : Nat → Outline → List Field
  | _, nil => []
  | start, leaf l rest => .leaf l :: rest.fields (start + 1)
  | start, node identifier doc members rest =>
    .node ⟨identifier, doc, members.positions (start + 1)⟩ ::
      (members.fields (start + 1) ++ rest.fields (start + 1 + members.count))

/-- The names at the first level. -/
def identifiers : Outline → List String
  | nil => []
  | leaf l rest => l.identifier :: rest.identifiers
  | node identifier _ _ rest => identifier :: rest.identifiers

/-- All fields in pre-order with the names on the way to them. -/
def entries : List String → Outline → List (List String × Field)
  | _, nil => []
  | above, leaf l rest => (above ++ [l.identifier], .leaf l) :: rest.entries above
  | above, node identifier doc members rest =>
    (above ++ [identifier], .node ⟨identifier, doc, []⟩) ::
      (members.entries (above ++ [identifier]) ++ rest.entries above)

/-- Change the documentation of every field. -/
def mapDocs (change : String → String) : Outline → Outline
  | nil => nil
  | leaf l rest => leaf { l with doc := change l.doc } (rest.mapDocs change)
  | node identifier doc members rest =>
    node identifier (change doc) (members.mapDocs change) (rest.mapDocs change)

/-- Every name is plain, and no field has the name of a later one beside it. -/
def IsNamed : Outline → Prop
  | nil => True
  | leaf l rest => IsPlainName l.identifier ∧ l.identifier ∉ rest.identifiers ∧ rest.IsNamed
  | node identifier _ members rest =>
    IsPlainName identifier ∧ identifier ∉ rest.identifiers ∧ members.IsNamed ∧ rest.IsNamed

theorem length_fields (outline : Outline) (start : Nat) :
    (outline.fields start).length = outline.count := by
  induction outline generalizing start with
  | nil => rfl
  | leaf l rest ih => rw [fields, List.length_cons, ih, count]
  | node identifier doc members rest ihMembers ihRest =>
      rw [fields, List.length_cons, List.length_append, ihMembers, ihRest, count]

theorem positions_bounds (outline : Outline) (start : Nat) :
    ∀ id ∈ outline.positions start, start ≤ id ∧ id < start + outline.count := by
  induction outline generalizing start with
  | nil =>
      intro id listed
      cases listed
  | leaf l rest ih =>
      intro id listed
      rw [count]
      rcases List.mem_cons.mp listed with rfl | later
      · exact ⟨Nat.le_refl _, by omega⟩
      · have bounds := ih (start + 1) id later
        exact ⟨by omega, by omega⟩
  | node identifier doc members rest _ ihRest =>
      intro id listed
      rw [count]
      rcases List.mem_cons.mp listed with rfl | later
      · exact ⟨Nat.le_refl _, by omega⟩
      · have bounds := ihRest (start + 1 + members.count) id later
        exact ⟨by omega, by omega⟩

/-- The members of a sub-record are laid out with it. -/
theorem members_bounds (outline : Outline) (start : Nat) :
    ∀ field ∈ outline.fields start, ∀ id : Nat, id ∈ field.members →
      id < start + outline.count := by
  induction outline generalizing start with
  | nil =>
      intro field listed
      cases listed
  | leaf l rest ih =>
      rw [fields, List.forall_mem_cons, count]
      constructor
      · intro id inside
        cases inside
      · intro field listed id inside
        have bound := ih (start + 1) field listed id inside
        omega
  | node identifier doc members rest ihMembers ihRest =>
      rw [fields, List.forall_mem_cons, List.forall_mem_append, count]
      refine ⟨?_, ?_, ?_⟩
      · intro id inside
        have bound := (members.positions_bounds (start + 1) id inside).2
        omega
      · intro field listed id inside
        have bound := ihMembers (start + 1) field listed id inside
        omega
      · intro field listed id inside
        have bound := ihRest (start + 1 + members.count) field listed id inside
        omega

theorem entries_mapDocs (change : String → String) (outline : Outline) (above : List String) :
    (outline.mapDocs change).entries above =
      (outline.entries above).map fun entry => (entry.1, entry.2.withDoc (change entry.2.doc)) := by
  induction outline generalizing above with
  | nil => rfl
  | leaf l rest ih =>
      rw [mapDocs, entries, entries, List.map_cons, ih]
      rfl
  | node identifier doc members rest ihMembers ihRest =>
      rw [mapDocs, entries, entries, List.map_cons, List.map_append, ihMembers, ihRest]
      rfl

/-- Documentation that a change leaves alone everywhere leaves the outline alone. -/
theorem mapDocs_eq_self {change : String → String} {outline : Outline} {above : List String}
    (kept : ∀ entry ∈ outline.entries above, change entry.2.doc = entry.2.doc) :
    outline.mapDocs change = outline := by
  induction outline generalizing above with
  | nil => rfl
  | leaf l rest ih =>
      rw [entries, List.forall_mem_cons] at kept
      have first : change l.doc = l.doc := kept.1
      rw [mapDocs, first, ih kept.2]
  | node identifier doc members rest ihMembers ihRest =>
      rw [entries, List.forall_mem_cons, List.forall_mem_append] at kept
      have first : change doc = doc := kept.1
      rw [mapDocs, first, ihMembers kept.2.1, ihRest kept.2.2]

/-! ## Paths -/

/-- The way to a field goes on with a name of the first level. -/
theorem path_of_mem_entries {outline : Outline} {above : List String}
    {entry : List String × Field} (listed : entry ∈ outline.entries above) :
    ∃ name ∈ outline.identifiers, ∃ further, entry.1 = above ++ name :: further := by
  induction outline generalizing above with
  | nil => cases listed
  | leaf l rest ih =>
      rcases List.mem_cons.mp listed with rfl | later
      · exact ⟨l.identifier, List.mem_cons_self, [], rfl⟩
      · rcases ih later with ⟨name, named, further, path⟩
        exact ⟨name, List.mem_cons_of_mem _ named, further, path⟩
  | node identifier doc members rest ihMembers ihRest =>
      rcases List.mem_cons.mp listed with rfl | later
      · exact ⟨identifier, List.mem_cons_self, [], rfl⟩
      · rcases List.mem_append.mp later with inside | behind
        · rcases ihMembers inside with ⟨name, _, further, path⟩
          refine ⟨identifier, List.mem_cons_self, name :: further, ?_⟩
          rw [path, List.append_assoc]
          rfl
        · rcases ihRest behind with ⟨name, named, further, path⟩
          exact ⟨name, List.mem_cons_of_mem _ named, further, path⟩

theorem path_ne_nil {outline : Outline} {above : List String} {entry : List String × Field}
    (listed : entry ∈ outline.entries above) : entry.1 ≠ [] := by
  rcases path_of_mem_entries listed with ⟨name, _, further, path⟩
  rw [path]
  exact List.append_ne_nil_of_right_ne_nil _ (List.cons_ne_nil _ _)

theorem plain_snoc {above : List String} (plainAbove : ∀ name ∈ above, IsPlainName name)
    {identifier : String} (plain : IsPlainName identifier) :
    ∀ name ∈ above ++ [identifier], IsPlainName name :=
  List.forall_mem_append.mpr ⟨plainAbove, List.forall_mem_singleton.mpr plain⟩

theorem IsNamed.plain_of_mem_entries {outline : Outline} (named : outline.IsNamed)
    {above : List String} (plainAbove : ∀ name ∈ above, IsPlainName name)
    {entry : List String × Field} (listed : entry ∈ outline.entries above) :
    ∀ name ∈ entry.1, IsPlainName name := by
  induction outline generalizing above with
  | nil => cases listed
  | leaf l rest ih =>
      rcases named with ⟨plain, _, restNamed⟩
      rcases List.mem_cons.mp listed with rfl | later
      · exact plain_snoc plainAbove plain
      · exact ih restNamed plainAbove later
  | node identifier doc members rest ihMembers ihRest =>
      rcases named with ⟨plain, _, membersNamed, restNamed⟩
      rcases List.mem_cons.mp listed with rfl | later
      · exact plain_snoc plainAbove plain
      · rcases List.mem_append.mp later with inside | behind
        · exact ihMembers membersNamed (plain_snoc plainAbove plain) inside
        · exact ihRest restNamed plainAbove behind

/-- A name that is not among those of a level is not passed on the way to its fields. -/
private theorem not_mem_paths {outline : Outline} {identifier : String}
    (missing : identifier ∉ outline.identifiers) (above further : List String) :
    above ++ identifier :: further ∉ (outline.entries above).map Prod.fst := by
  intro inside
  rcases List.mem_map.mp inside with ⟨entry, listed, same⟩
  rcases path_of_mem_entries listed with ⟨name, known, _, path⟩
  rw [path] at same
  have equal := List.append_cancel_left same
  rw [List.cons.injEq] at equal
  exact missing (equal.1 ▸ known)

/-- No two fields are reached in the same way. -/
theorem IsNamed.nodup_paths {outline : Outline} (named : outline.IsNamed) (above : List String) :
    ((outline.entries above).map Prod.fst).Nodup := by
  induction outline generalizing above with
  | nil => exact List.nodup_nil
  | leaf l rest ih =>
      rcases named with ⟨_, alone, restNamed⟩
      rw [entries, List.map_cons, List.nodup_cons]
      exact ⟨not_mem_paths alone above [], ih restNamed above⟩
  | node identifier doc members rest ihMembers ihRest =>
      rcases named with ⟨_, alone, membersNamed, restNamed⟩
      have deeper : ∀ path ∈ (members.entries (above ++ [identifier])).map Prod.fst,
          ∃ name further, path = above ++ identifier :: name :: further := by
        intro path inside
        rcases List.mem_map.mp inside with ⟨entry, listed, rfl⟩
        rcases path_of_mem_entries listed with ⟨name, _, further, path⟩
        refine ⟨name, further, ?_⟩
        rw [path, List.append_assoc]
        rfl
      rw [entries, List.map_cons, List.map_append, List.nodup_cons, List.nodup_append]
      refine ⟨?_, ihMembers membersNamed (above ++ [identifier]), ihRest restNamed above, ?_⟩
      · intro inside
        rcases List.mem_append.mp inside with inMembers | inRest
        · rcases deeper _ inMembers with ⟨name, further, same⟩
          have equal := List.append_cancel_left same
          cases equal
        · exact not_mem_paths alone above [] inRest
      · intro path inMembers other inRest same
        rcases deeper path inMembers with ⟨name, further, split⟩
        exact not_mem_paths alone above (name :: further) (split ▸ same ▸ inRest)

/-- No two fields are reached under one dotted id. -/
theorem IsNamed.nodup_dottedIds {outline : Outline} (named : outline.IsNamed) :
    ((outline.entries []).map fun entry => Text.join "." entry.1).Nodup := by
  have joined : ((outline.entries []).map fun entry => Text.join "." entry.1) =
      ((outline.entries []).map Prod.fst).map (Text.join ".") := by
    rw [List.map_map]
    rfl
  have plain : ∀ path ∈ (outline.entries []).map Prod.fst, ∀ name ∈ path, IsPlainName name := by
    intro path inside
    rcases List.mem_map.mp inside with ⟨entry, listed, rfl⟩
    exact named.plain_of_mem_entries (by simp) listed
  rw [joined]
  refine List.Nodup.map_on ?_ (named.nodup_paths [])
  intro left leftListed right rightListed same
  exact Text.join_dot_injective (plain left leftListed) (plain right rightListed) same

end Outline
end KeyedReflection
