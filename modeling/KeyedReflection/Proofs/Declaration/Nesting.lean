import KeyedReflection.Proofs.Declaration.Enclosed
import KeyedReflection.Proofs.Declaration.Extraction
import Mathlib.Logic.Relation
import Mathlib.Data.List.Perm.Subperm

/-!
# Records that contain themselves

Which definition the type of a field means is a matter of names, so the definitions of a tree form a
graph that the tree does not show: one definition nests another when one of its fields means it
(`Nests`).  The members of a definition are added along this graph, and a definition that is being added
is refused below itself.

So the definitions being added at a time are all different (`IsStack`), and there are never more of them
than definitions.  Adding fails on a way to a definition that nests itself (`reachesCycle_of_error`), and
where it succeeds, every way along the graph comes to an end (`acc_of_ok`).
-/

namespace KeyedReflection

/-- How many sub-records are inside one another, at most. -/
def Outline.nesting : Outline → Nat
  | .nil => 0
  | .leaf _ rest => rest.nesting
  | .node _ _ members rest => max (members.nesting + 1) rest.nesting

namespace RecordIndex

open Relation (ReflTransGen TransGen)

/-! ## The graph of definitions -/

/-- The last unnamed definition behind some children, when one in front of them is given. -/
def unnamedBehind (index : RecordIndex) (unnamed : Option Nat) (children : List Declaration) :
    Option Nat :=
  children.foldl (fun last child => (index.unnamedDefinition? child).getD last) unnamed

/-- A named field among some children of a definition means the definition at a position.  The last
unnamed definition in front of the children is given. -/
def NestsAmong (index : RecordIndex) (definition : RecordDefinition) (unnamed : Option Nat)
    (children : List Declaration) (position : Nat) : Prop :=
  ∃ before field after, children = before ++ field :: after ∧ (fieldName? field).isSome = true ∧
    index.resolve? field.attributes.writtenType definition.lookupScope
      (index.unnamedBehind unnamed before) = some position

/-- One of the named fields of a definition means another definition, or the same.  Both are given with
their positions. -/
def Nests (index : RecordIndex) (outer inner : Nat) : Prop :=
  ∃ definition, index.definitions[outer]? = some definition ∧
    index.NestsAmong definition none definition.declaration.children inner

/-- A definition leads to one that nests itself, at once or by way of others. -/
def ReachesCycle (index : RecordIndex) (position : Nat) : Prop :=
  ∃ target, ReflTransGen index.Nests position target ∧ TransGen index.Nests target target

section

variable {index : RecordIndex} {position : Nat}

/-- Where every way comes to an end, no way leads to a cycle. -/
theorem not_reachesCycle_of_acc (ends : Acc (fun inner outer => index.Nests outer inner) position) :
    ¬ index.ReachesCycle position := by
  induction ends with
  | intro position _ ih =>
      rintro ⟨target, reached, cycle⟩
      rcases ReflTransGen.cases_head reached with rfl | ⟨next, nests, further⟩
      · -- A cycle through the definition itself is one through the next.
        rcases TransGen.head'_iff.mp cycle with ⟨next, nests, back⟩
        exact ih next nests ⟨position, back, cycle⟩
      · exact ih next nests ⟨target, further, cycle⟩

theorem ReachesCycle.of_nests {inner : Nat} (nests : index.Nests position inner)
    (reaches : index.ReachesCycle inner) : index.ReachesCycle position := by
  rcases reaches with ⟨target, reached, cycle⟩
  exact ⟨target, .head nests reached, cycle⟩

variable {definition : RecordDefinition} {unnamed : Option Nat} {child : Declaration}
  {children : List Declaration}

theorem not_nestsAmong_nil : ¬ index.NestsAmong definition unnamed [] position := by
  rintro ⟨before, field, after, none, _⟩
  exact List.append_ne_nil_of_right_ne_nil before (List.cons_ne_nil field after) none.symm

theorem nestsAmong_cons : index.NestsAmong definition unnamed (child :: children) position ↔
    ((fieldName? child).isSome = true ∧ index.resolve? child.attributes.writtenType
      definition.lookupScope unnamed = some position) ∨
    index.NestsAmong definition ((index.unnamedDefinition? child).getD unnamed) children position := by
  constructor
  · rintro ⟨before, field, after, split, named, meant⟩
    cases before with
    | nil =>
        cases split
        exact .inl ⟨named, meant⟩
    | cons first before =>
        cases split
        exact .inr ⟨before, field, after, rfl, named, meant⟩
  · rintro (⟨named, meant⟩ | ⟨before, field, after, rfl, named, meant⟩)
    · exact ⟨[], child, children, rfl, named, meant⟩
    · exact ⟨child :: before, field, after, rfl, named, meant⟩

end

/-! ## One child after the other -/

section

variable {index : RecordIndex} {definition : RecordDefinition} {visiting : List Nat}
  {nest other : Nat → RecordDefinition → FieldTree → FieldId → Except RecursiveRecord FieldTree}
  {parent : FieldId} {child : Declaration} {children : List Declaration} {unnamed : Option Nat}
  {tree grown : FieldTree}

/-- Only what the new definitions add matters. -/
theorem addChildren_congr
    (same : ∀ position ∉ visiting, ∀ nested, index.definitions[position]? = some nested →
      nest position nested = other position nested) :
    addChildren index definition visiting nest parent children unnamed tree =
      addChildren index definition visiting other parent children unnamed tree := by
  induction children generalizing unnamed tree with
  | nil => rw [addChildren, addChildren]
  | cons child children ih =>
      have one : addChild index definition visiting nest parent child unnamed tree =
          addChild index definition visiting other parent child unnamed tree := by
        rw [addChild, addChild]
        cases fieldName? child with
        | none => rfl
        | some name =>
            cases found : index.nestedDefinition? definition child unnamed with
            | none => rfl
            | some entry =>
                rcases entry with ⟨position, nested⟩
                dsimp only
                by_cases again : position ∈ visiting
                · rw [if_pos again, if_pos again]
                · rw [if_neg again, if_neg again,
                    same position again nested (nestedDefinition?_eq_some_iff.mp found).2]
      rw [addChildren_cons_eq, addChildren_cons_eq, one]
      simp only [ih]

/-- A child fails when it nests a definition that is being added, or one that cannot be added. -/
theorem addChild_error {recursion : RecursiveRecord}
    (failed : addChild index definition visiting nest parent child unnamed tree = .error recursion) :
    ∃ position nested, (fieldName? child).isSome = true ∧
      index.nestedDefinition? definition child unnamed = some (position, nested) ∧
      (position ∈ visiting ∨ position ∉ visiting ∧ ∃ before id,
        nest position nested before id = .error recursion) := by
  rw [addChild] at failed
  split at failed
  · cases failed
  · rename_i name named
    split at failed
    · cases failed
    · rename_i position nested found
      refine ⟨position, nested, Option.isSome_iff_exists.mpr ⟨name, named⟩, found, ?_⟩
      by_cases again : position ∈ visiting
      · exact .inl again
      · rw [if_neg again] at failed
        exact .inr ⟨again, _, _, failed⟩

/-- A child that was added nests no definition that is being added, and one that can be added. -/
theorem addChild_ok {position : Nat} {nested : RecordDefinition}
    (added : addChild index definition visiting nest parent child unnamed tree = .ok grown)
    (named : (fieldName? child).isSome = true)
    (found : index.nestedDefinition? definition child unnamed = some (position, nested)) :
    position ∉ visiting ∧ ∃ before id, nest position nested before id = .ok grown := by
  rcases Option.isSome_iff_exists.mp named with ⟨name, hasName⟩
  rw [addChild, hasName, found] at added
  dsimp only at added
  by_cases again : position ∈ visiting
  · rw [if_pos again] at added
    cases added
  · rw [if_neg again] at added
    exact ⟨again, _, _, added⟩

/-- The children fail when one of them nests a definition that is being added, or one that cannot be
added. -/
theorem addChildren_error {recursion : RecursiveRecord}
    (failed : addChildren index definition visiting nest parent children unnamed tree =
      .error recursion) :
    ∃ position nested, index.NestsAmong definition unnamed children position ∧
      index.definitions[position]? = some nested ∧
      (position ∈ visiting ∨ position ∉ visiting ∧ ∃ before id,
        nest position nested before id = .error recursion) := by
  induction children generalizing unnamed tree with
  | nil => cases failed
  | cons child children ih =>
      rw [addChildren_cons_eq] at failed
      cases one : addChild index definition visiting nest parent child unnamed tree with
      | error cause =>
          rw [one] at failed
          cases failed
          rcases addChild_error one with ⟨position, nested, named, found, reason⟩
          rcases nestedDefinition?_eq_some_iff.mp found with ⟨meant, there⟩
          exact ⟨position, nested, nestsAmong_cons.mpr (.inl ⟨named, meant⟩), there, reason⟩
      | ok next =>
          rw [one] at failed
          rcases ih failed with ⟨position, nested, among, there, reason⟩
          exact ⟨position, nested, nestsAmong_cons.mpr (.inr among), there, reason⟩

/-- Children that were added nest no definition that is being added, and only such that can be added. -/
theorem addChildren_ok {position : Nat} {nested : RecordDefinition}
    (added : addChildren index definition visiting nest parent children unnamed tree = .ok grown)
    (among : index.NestsAmong definition unnamed children position)
    (there : index.definitions[position]? = some nested) :
    position ∉ visiting ∧ ∃ before id after, nest position nested before id = .ok after := by
  induction children generalizing unnamed tree with
  | nil => exact absurd among not_nestsAmong_nil
  | cons child children ih =>
      rw [addChildren_cons_eq] at added
      cases one : addChild index definition visiting nest parent child unnamed tree with
      | error cause =>
          rw [one] at added
          cases added
      | ok next =>
          rw [one] at added
          rcases nestsAmong_cons.mp among with ⟨named, meant⟩ | further
          · rcases addChild_ok one named (nestedDefinition?_eq_some_iff.mpr ⟨meant, there⟩) with
              ⟨new, before, id, below⟩
            exact ⟨new, before, id, next, below⟩
          · exact ih added further

/-- What the children add is an outline, with at most one level more than what the definitions add below
them. -/
theorem addChildren_nesting {bound : Nat}
    (nests : ∀ position ∉ visiting, ∀ nested, index.definitions[position]? = some nested →
      ∀ before id after, nest position nested before id = .ok after →
        ∃ outline : Outline, outline.nesting < bound ∧ after = before.addOutline id outline)
    (added : addChildren index definition visiting nest parent children unnamed tree = .ok grown) :
    ∃ outline : Outline, outline.nesting ≤ bound ∧ grown = tree.addOutline parent outline := by
  induction children generalizing unnamed tree with
  | nil =>
      cases added
      exact ⟨.nil, Nat.zero_le _, rfl⟩
  | cons child children ih =>
      rcases addChildren_cons added with ⟨next, further, step⟩
      rcases ih further with ⟨rest, restBound, rfl⟩
      rcases step with ⟨_, rfl⟩ | ⟨name, _, ⟨_, rfl⟩ | ⟨position, nested, new, found, below⟩⟩
      · exact ⟨rest, restBound, rfl⟩
      · exact ⟨.leaf _ rest, restBound, rfl⟩
      · have there := (nestedDefinition?_eq_some_iff.mp found).2
        rcases nests position new nested there _ _ _ below with ⟨members, membersBound, rfl⟩
        exact ⟨.node name _ members rest, Nat.max_le.mpr ⟨membersBound, restBound⟩, rfl⟩

end

/-! ## The definitions being added -/

/-- Different positions of an index. -/
structure IsStack (index : RecordIndex) (visiting : List Nat) : Prop where
  distinct : visiting.Nodup
  indexed : ∀ position ∈ visiting, position < index.definitions.size

section

variable {index : RecordIndex} {visiting : List Nat} {position : Nat} {definition : RecordDefinition}
  {tree grown : FieldTree} {parent : FieldId} {levels : Nat}

theorem isStack_singleton (there : index.definitions[position]? = some definition) :
    index.IsStack [position] where
  distinct := List.nodup_singleton position
  indexed := List.forall_mem_singleton.mpr (Array.getElem?_eq_some_iff.mp there).1

theorem IsStack.cons (stack : index.IsStack visiting) (new : position ∉ visiting)
    (there : index.definitions[position]? = some definition) : index.IsStack (position :: visiting) where
  distinct := List.nodup_cons.mpr ⟨new, stack.distinct⟩
  indexed := List.forall_mem_cons.mpr ⟨(Array.getElem?_eq_some_iff.mp there).1, stack.indexed⟩

/-- There are no more definitions being added than definitions. -/
theorem IsStack.length_le (stack : index.IsStack visiting) :
    visiting.length ≤ index.definitions.size := by
  have within : visiting ⊆ List.range index.definitions.size := fun position listed =>
    List.mem_range.mpr (stack.indexed position listed)
  have lengths := (List.subperm_of_subset stack.distinct within).length_le
  rw [List.length_range] at lengths
  exact lengths

/-- With as many levels as there are definitions still to be added, more levels change nothing. -/
theorem addMembers_levels {other : Nat} (stack : index.IsStack visiting)
    (enough : index.definitions.size < levels + visiting.length)
    (otherEnough : index.definitions.size < other + visiting.length) :
    addMembers index levels definition visiting tree parent =
      addMembers index other definition visiting tree parent := by
  have room := stack.length_le
  induction levels generalizing other definition visiting tree parent with
  | zero => omega
  | succ levels ih =>
      cases other with
      | zero => omega
      | succ other =>
          rw [addMembers, addMembers]
          apply addChildren_congr
          intro position new nested there
          funext before id
          have deeper := stack.cons new there
          apply ih deeper _ _ deeper.length_le
          · rw [List.length_cons]
            omega
          · rw [List.length_cons]
            omega

/-- Where the members of a definition could be added, every way from it comes to an end. -/
theorem acc_of_ok (stack : index.IsStack visiting)
    (enough : index.definitions.size < levels + visiting.length)
    (there : index.definitions[position]? = some definition)
    (added : addMembers index levels definition visiting tree parent = .ok grown) :
    Acc (fun inner outer => index.Nests outer inner) position := by
  induction levels generalizing position definition visiting tree parent grown with
  | zero =>
      have room := stack.length_le
      omega
  | succ levels ih =>
      rw [addMembers] at added
      constructor
      rintro inner ⟨own, held, among⟩
      rw [there] at held
      cases held
      cases nestedThere : index.definitions[inner]? with
      | none =>
          -- A position without a definition nests nothing.
          constructor
          rintro further ⟨beyond, innerThere, _⟩
          rw [nestedThere] at innerThere
          cases innerThere
      | some nested =>
          rcases addChildren_ok added among nestedThere with ⟨new, before, id, after, below⟩
          apply ih (stack.cons new nestedThere) _ nestedThere below
          rw [List.length_cons]
          omega

/-- Where the members of a definition cannot be added, a way from it leads to a cycle.  Every definition
being added leads to this one. -/
theorem reachesCycle_of_error {recursion : RecursiveRecord}
    (leads : ∀ outer ∈ visiting, ReflTransGen index.Nests outer position)
    (there : index.definitions[position]? = some definition)
    (failed : addMembers index levels definition visiting tree parent = .error recursion) :
    index.ReachesCycle position := by
  induction levels generalizing position definition visiting tree parent with
  | zero => cases failed
  | succ levels ih =>
      rw [addMembers] at failed
      rcases addChildren_error failed with
        ⟨inner, nested, among, nestedThere, again | ⟨_, before, id, below⟩⟩
      · have nests : index.Nests position inner := ⟨definition, there, among⟩
        exact ⟨position, .refl, .head' nests (leads inner again)⟩
      · have nests : index.Nests position inner := ⟨definition, there, among⟩
        apply ReachesCycle.of_nests nests
        apply ih _ nestedThere below
        refine List.forall_mem_cons.mpr ⟨.refl, ?_⟩
        intro outer listed
        exact (leads outer listed).tail nests

/-- What a definition adds to a tree is an outline, with as many levels at most as there are definitions
still to be added. -/
theorem addMembers_nesting (stack : index.IsStack visiting)
    (added : addMembers index levels definition visiting tree parent = .ok grown) :
    ∃ outline : Outline, outline.nesting + visiting.length ≤ index.definitions.size ∧
      grown = tree.addOutline parent outline := by
  have room := stack.length_le
  induction levels generalizing definition visiting tree parent grown with
  | zero =>
      cases added
      exact ⟨.nil, (Nat.zero_add _).symm ▸ room, rfl⟩
  | succ levels ih =>
      rw [addMembers] at added
      have nests : ∀ position ∉ visiting, ∀ nested, index.definitions[position]? = some nested →
          ∀ before id after,
            addMembers index levels nested (position :: visiting) before id = .ok after →
            ∃ outline : Outline, outline.nesting < index.definitions.size - visiting.length ∧
              after = before.addOutline id outline := by
        intro position new nested there before id after below
        have deeper := stack.cons new there
        rcases ih deeper below deeper.length_le with ⟨outline, bound, grows⟩
        rw [List.length_cons] at bound
        exact ⟨outline, by omega, grows⟩
      rcases addChildren_nesting nests added with ⟨outline, bound, grows⟩
      exact ⟨outline, by omega, grows⟩

/-- A record is taken from a definition exactly when no way from it leads to a cycle, and then it has
fewer levels than there are definitions. -/
theorem recordOf_cases (there : index.definitions[position]? = some definition) :
    (index.ReachesCycle position ∧ ∃ recursion, index.recordOf position definition = .error recursion) ∨
    ¬ index.ReachesCycle position ∧ ∃ tree,
      index.recordOf position definition = .ok ⟨definition.namespaces, definition.name, .source, tree⟩ ∧
      tree.outline.nesting < index.definitions.size := by
  rw [recordOf]
  cases added : addMembers index index.definitions.size definition [position] _ FieldTree.rootId with
  | error recursion =>
      refine .inl ⟨reachesCycle_of_error ?_ there added, recursion, rfl⟩
      exact List.forall_mem_singleton.mpr .refl
  | ok grown =>
      have stack := isStack_singleton there
      have ends := acc_of_ok stack (Nat.lt_succ_self _) there added
      rcases addMembers_nesting stack added with ⟨outline, bound, rfl⟩
      rw [FieldTree.addOutline_new] at added ⊢
      refine .inr ⟨not_reachesCycle_of_acc ends, _, rfl, ?_⟩
      rw [FieldTree.outline_ofOutline]
      exact bound

end

end RecordIndex

/-! ## The records of a tree -/

namespace DeclarationTree

open RecordIndex (ReachesCycle)

variable {tree : DeclarationTree}

/-- One of the definitions that are asked for leads to a definition that nests itself. -/
def SelectsCycle (tree : DeclarationTree) (accepts : String → Bool) : Prop :=
  ∃ position definition, (RecordIndex.build tree.root).definitions[position]? = some definition ∧
    tree.selects accepts definition = true ∧ (RecordIndex.build tree.root).ReachesCycle position

/-- Records are built exactly when none of the definitions that are asked for leads to a cycle: one for
each of them, in order, with fewer levels than there are definitions. -/
theorem buildRecords_cases (accepts : String → Bool) :
    (tree.SelectsCycle accepts ∧ ∃ recursion, tree.buildRecords accepts = .error recursion) ∨
    ¬ tree.SelectsCycle accepts ∧ ∃ records, tree.buildRecords accepts = .ok records ∧
      List.Forall₂ (fun definition record => record.namespaces = definition.namespaces ∧
          record.name = definition.name ∧
          record.tree.outline.nesting < (RecordIndex.build tree.root).definitions.size)
        ((RecordIndex.build tree.root).definitions.toList.filter (tree.selects accepts)) records := by
  let index := RecordIndex.build tree.root
  let selected := index.definitions.toList.zipIdx.filter fun entry => tree.selects accepts entry.1
  have mem_selected : ∀ definition position, (definition, position) ∈ selected ↔
      index.definitions[position]? = some definition ∧ tree.selects accepts definition = true := by
    intro definition position
    rw [List.mem_filter, List.mem_zipIdx_iff_getElem?, Array.getElem?_toList]
  have definitions : selected.map Prod.fst =
      index.definitions.toList.filter (tree.selects accepts) := by
    rw [← List.zipIdx_map_fst 0 index.definitions.toList, List.filter_map]
    rfl
  have built : tree.buildRecords accepts =
      selected.mapM fun entry => index.recordOf entry.2 entry.1 := rfl
  rw [built, ← definitions]
  rcases mapM_cases (fun entry => index.recordOf entry.2 entry.1) selected with
    ⟨records, ran, each⟩ | ⟨recursion, failed, ⟨definition, position⟩, listed, cause⟩
  · refine .inr ⟨?_, records, ran, ?_⟩
    · rintro ⟨position, definition, there, asked, cycle⟩
      rcases partner_of_mem each ((mem_selected definition position).mpr ⟨there, asked⟩) with ⟨record, _, taken⟩
      rcases RecordIndex.recordOf_cases there with ⟨_, recursion, failed⟩ | ⟨noCycle, _⟩
      · rw [failed] at taken
        cases taken
      · exact noCycle cycle
    · rw [List.forall₂_map_left_iff]
      refine ((List.forall₂_and_left _ _).mpr ⟨fun entry listed => listed, each⟩).imp ?_
      rintro ⟨definition, position⟩ record ⟨listed, taken⟩
      rcases RecordIndex.recordOf_cases ((mem_selected definition position).mp listed).1 with
        ⟨_, recursion, failed⟩ | ⟨_, built, given, bound⟩
      · rw [failed] at taken
        cases taken
      · rw [given] at taken
        cases taken
        exact ⟨rfl, rfl, bound⟩
  · rcases (mem_selected definition position).mp listed with ⟨there, asked⟩
    rcases RecordIndex.recordOf_cases there with ⟨cycle, _⟩ | ⟨_, _, given, _⟩
    · exact .inl ⟨⟨position, definition, there, asked, cycle⟩, recursion, failed⟩
    · rw [given] at cause
      cases cause

end DeclarationTree

/-- Taking records from a tree comes to an end before its levels run out, and fails exactly when a
definition that is asked for leads to one that nests itself.  Otherwise there is a record for each
definition that is asked for, in document order, with fewer levels than there are definitions. -/
theorem findRecords_recursive_iff {tree : DeclarationTree} {pattern : String} {matcher : NamePattern}
    (valid : NamePattern.parse pattern = .ok matcher) :
    (∀ position definition,
      (RecordIndex.build tree.root).definitions[position]? = some definition →
      ∀ levels ≥ (RecordIndex.build tree.root).definitions.size, ∀ grown parent,
        (RecordIndex.build tree.root).addMembers levels definition [position] grown parent =
          (RecordIndex.build tree.root).addMembers (RecordIndex.build tree.root).definitions.size
            definition [position] grown parent) ∧
    (RecordIndex.build tree.root).definitions.toList.map (fun definition => definition.declaration) =
      (tree.root.parts.filter fun part => part.IsDefinition) ∧
    ((∃ recursion, (RecordSource.declarations tree).findRecords pattern =
      .error (.recursiveRecord recursion)) ↔ tree.SelectsCycle matcher.matches) ∧
    (¬ tree.SelectsCycle matcher.matches →
      ∃ records, (RecordSource.declarations tree).findRecords pattern = .ok records ∧
        List.Forall₂ (fun definition record => record.namespaces = definition.namespaces ∧
            record.name = definition.name ∧
            record.tree.outline.nesting < (RecordIndex.build tree.root).definitions.size)
          ((RecordIndex.build tree.root).definitions.toList.filter (tree.selects matcher.matches))
          records) := by
  have found : (RecordSource.declarations tree).findRecords pattern =
      (tree.buildRecords matcher.matches).mapError .recursiveRecord := by
    rw [RecordSource.findRecords, valid]
    rfl
  refine ⟨?_, RecordIndex.declarations_build tree.root, ?_⟩
  · intro position definition there levels enough grown parent
    apply RecordIndex.addMembers_levels (RecordIndex.isStack_singleton there) _ (Nat.lt_succ_self _)
    rw [List.length_singleton]
    omega
  · rw [found]
    rcases DeclarationTree.buildRecords_cases matcher.matches with
      ⟨cycle, recursion, failed⟩ | ⟨noCycle, records, built, each⟩
    · rw [failed]
      exact ⟨iff_of_true ⟨recursion, rfl⟩ cycle, fun noCycle => absurd cycle noCycle⟩
    · rw [built]
      refine ⟨iff_of_false ?_ noCycle, fun _ => ⟨records, rfl, each⟩⟩
      rintro ⟨recursion, failed⟩
      cases failed

/-- A panel of two panes, and of a frame that holds a panel again. -/
def DeclarationTree.panels : DeclarationTree where
  root := .node { NodeAttributes.ofMembers [] with kind := .namespaceDeclaration, name := some "ui" }
    [.struct "Pane" [.field "width" "int" []],
      .struct "Panel" [.field "left" "Pane" [], .field "right" "Pane" [], .field "frame" "Frame" []],
      .struct "Frame" [.field "content" "ui::Panel" []]]
  mainFile := none

theorem findRecords_recursive_iff_panels :
    ∃ every pane, NamePattern.parse "*" = .ok every ∧ NamePattern.parse "ui::Pane" = .ok pane ∧
      DeclarationTree.panels.SelectsCycle every.matches ∧
      ¬ DeclarationTree.panels.SelectsCycle pane.matches := by
  have everyParses : (NamePattern.parse "*").isOk = true := by decide +kernel
  have paneParses : (NamePattern.parse "ui::Pane").isOk = true := by decide +kernel
  have recursive : (RecordSource.declarations .panels).findRecords "*" =
      .error (.recursiveRecord ⟨"ui::Frame", "content"⟩) := by
    decide +kernel
  have single : ((RecordSource.declarations .panels).findRecords "ui::Pane").isOk = true := by
    decide +kernel
  rcases exists_of_isOk everyParses with ⟨every, everyParsed⟩
  rcases exists_of_isOk paneParses with ⟨pane, paneParsed⟩
  refine ⟨every, pane, everyParsed, paneParsed, ?_, ?_⟩
  · exact (findRecords_recursive_iff everyParsed).2.2.1.mp ⟨_, recursive⟩
  · intro cycle
    rcases (findRecords_recursive_iff paneParsed).2.2.1.mpr cycle with ⟨recursion, failed⟩
    rw [failed] at single
    cases single

end KeyedReflection
