import KeyedReflection.Proofs.Declaration.WithoutFiles

/-!
# Files that are left out

The file of a place is given only where it differs from that of the place read before it.  A tree in which
more files are given than that means the same, and so does every tree in between.

Which file a definition stands in depends only on the file that is carried along, and this stays the same
when a file is left out that was given just before.  So the walk over a tree in which files are left out
meets the same definitions in the same files (`visit_elided`), and as nothing else depends on files, the
records are the same.
-/

namespace KeyedReflection

/-! ## Files that are read -/

/-- The files that are given in a place, in the order in which its parts are read. -/
def Location.filesRead : Location → List (Option String)
  | .place file _ _ none => [file]
  | .place _ _ none (some expansion) => expansion.filesRead
  | .place _ _ (some spelling) (some expansion) => spelling.filesRead ++ expansion.filesRead

/-- The files that are given in a place that may be missing. -/
def Location.filesRead? (location : Option Location) : List (Option String) :=
  (location.map Location.filesRead).getD []

/-- The files that are given in the places of a node. -/
def NodeAttributes.filesRead (attributes : NodeAttributes) : List (Option String) :=
  Location.filesRead? attributes.location ++
    (Location.filesRead? attributes.rangeBegin ++ Location.filesRead? attributes.rangeEnd)

mutual

/-- The files that are given in a declaration and everything inside it, in the order in which the places
are read. -/
def Declaration.filesRead : Declaration → List (Option String)
  | .node attributes children => attributes.filesRead ++ Declaration.filesReadAll children

/-- The files that are given in several declarations. -/
def Declaration.filesReadAll : List Declaration → List (Option String)
  | [] => []
  | declaration :: rest => declaration.filesRead ++ Declaration.filesReadAll rest

end

/-- The file that counts behind some places, when one in front of them is given. -/
def carried (last : Option String) (files : List (Option String)) : Option String :=
  files.foldl (fun last file => file.or last) last

/-- Some of the files that are given have been left out, each of them equal to the last that was given
before. -/
inductive IsElided : Option String → List (Option String) → List (Option String) → Prop where
  | nil (last : Option String) : IsElided last [] []
  | keep {last file : Option String} {files others : List (Option String)}
    (rest : IsElided (file.or last) files others) : IsElided last (file :: files) (file :: others)
  | leaveOut {file : String} {files others : List (Option String)}
    (rest : IsElided (some file) files others) :
    IsElided (some file) (some file :: files) (none :: others)

theorem carried_append (last : Option String) (files others : List (Option String)) :
    carried last (files ++ others) = carried (carried last files) others :=
  List.foldl_append

namespace IsElided

variable {last : Option String} {files others : List (Option String)}

/-- What is left out is carried along. -/
theorem carried_eq (elided : IsElided last files others) : carried last others = carried last files := by
  induction elided with
  | nil last => rfl
  | keep _ ih => exact ih
  | leaveOut _ ih => exact ih

theorem split {front otherFront : List (Option String)}
    (elided : IsElided last (front ++ files) (otherFront ++ others))
    (lengths : otherFront.length = front.length) :
    IsElided last front otherFront ∧ IsElided (carried last front) files others := by
  induction front generalizing last otherFront with
  | nil =>
      rw [List.length_eq_zero_iff.mp lengths] at elided ⊢
      exact ⟨.nil last, elided⟩
  | cons file front ih =>
      cases otherFront with
      | nil => cases lengths
      | cons other otherFront =>
          have further := Nat.succ.inj lengths
          cases elided with
          | keep rest =>
              rcases ih rest further with ⟨first, second⟩
              exact ⟨.keep first, second⟩
          | leaveOut rest =>
              rcases ih rest further with ⟨first, second⟩
              exact ⟨.leaveOut first, second⟩

end IsElided

/-! ## Trees without files -/

namespace Location

/-- Without files the same places are read. -/
theorem filesRead_withoutFiles (location : Location) :
    location.withoutFiles.filesRead = location.filesRead.map fun _ => none := by
  fun_induction filesRead location with
  | case1 file column spelling => rfl
  | case2 file column expansion ih => exact ih
  | case3 file column spelling expansion spellingIh expansionIh =>
      rw [List.map_append, ← spellingIh, ← expansionIh]
      rfl

theorem filesRead?_withoutFiles (location : Option Location) :
    filesRead? (withoutFiles? location) = (filesRead? location).map fun _ => none := by
  cases location with
  | none => rfl
  | some location => exact location.filesRead_withoutFiles

end Location

theorem NodeAttributes.filesRead_withoutFiles (attributes : NodeAttributes) :
    attributes.withoutFiles.filesRead = attributes.filesRead.map fun _ => none := by
  rw [filesRead, filesRead, List.map_append, List.map_append, ← Location.filesRead?_withoutFiles,
    ← Location.filesRead?_withoutFiles, ← Location.filesRead?_withoutFiles]
  rfl

namespace Declaration

theorem filesReadAll_withoutFiles {declarations : List Declaration}
    (each : ∀ declaration ∈ declarations,
      declaration.withoutFiles.filesRead = declaration.filesRead.map fun _ => none) :
    filesReadAll (declarations.map withoutFiles) = (filesReadAll declarations).map fun _ => none := by
  induction declarations with
  | nil => rfl
  | cons declaration rest ih =>
      rcases List.forall_mem_cons.mp each with ⟨first, others⟩
      rw [List.map_cons, filesReadAll, filesReadAll, List.map_append, first, ih others]

theorem filesRead_withoutFiles (declaration : Declaration) :
    declaration.withoutFiles.filesRead = declaration.filesRead.map fun _ => none := by
  induction declaration using Declaration.induction with
  | node attributes children ih =>
      rw [withoutFiles, withoutFilesAll_eq, filesRead, filesRead, List.map_append,
        attributes.filesRead_withoutFiles, filesReadAll_withoutFiles ih]

/-- Declarations that differ in files only have the same number of places. -/
theorem length_filesRead {declaration other : Declaration}
    (same : other.withoutFiles = declaration.withoutFiles) :
    other.filesRead.length = declaration.filesRead.length := by
  have lengths := congrArg (fun one => (filesRead one).length) same
  rw [filesRead_withoutFiles, filesRead_withoutFiles, List.length_map, List.length_map] at lengths
  exact lengths

end Declaration

/-! ## The walk over a tree -/

namespace RecordIndex

/-- Behind a place that was read the last file given in it counts. -/
theorem file_observe (file : Option String) (location : Location) :
    (observe file location).1 = carried file location.filesRead := by
  fun_induction observe file location with
  | case1 file own column spelling => rfl
  | case2 file own column expansion ih => exact ih
  | case3 file own column spelling expansion spellingIh expansionIh =>
      rw [Location.filesRead, carried_append, ← spellingIh]
      exact expansionIh

/-- The column of a place does not depend on files. -/
theorem column_observe (file other : Option String) (location : Location) :
    (observe file location).2 = (observe other location.withoutFiles).2 := by
  fun_induction observe file location generalizing other with
  | case1 file own column spelling => rfl
  | case2 file own column expansion ih => exact ih other
  | case3 file own column spelling expansion spellingIh expansionIh =>
      exact expansionIh (observe other spelling.withoutFiles).1

theorem file_observeOptional (file : Option String) (location : Option Location) :
    (observeOptional file location).1 = carried file (Location.filesRead? location) := by
  cases location with
  | none => rfl
  | some location => exact file_observe file location

theorem column_observeOptional (file other : Option String) (location : Option Location) :
    (observeOptional file location).2 =
      (observeOptional other (Location.withoutFiles? location)).2 := by
  cases location with
  | none => rfl
  | some location => exact column_observe file other location

/-- What an index says without the files of declarations, and the last file that was read. -/
structure Agrees (progress other : Progress) : Prop where
  index : other.index.withoutFiles = progress.index.withoutFiles
  file : other.file = progress.file

section

variable {progress next : Progress} {scopes : List Scope}

/-- Behind a node the last file that is given in its places counts. -/
theorem file_enter (progress : Progress) (scopes : List Scope) (declaration : Declaration) :
    (enter progress scopes declaration).file =
      carried progress.file declaration.attributes.filesRead := by
  rw [enter]
  dsimp only
  rw [file_observeOptional, file_observeOptional, file_observeOptional, NodeAttributes.filesRead,
    carried_append, carried_append]

/-- What a node adds to the index depends on its files only by the one in which it stands. -/
theorem index_enter (progress : Progress) (scopes : List Scope) (declaration : Declaration) :
    (enter progress scopes declaration).index.withoutFiles =
      if declaration.withoutFiles.IsDefinition then
        progress.index.withoutFiles.add ⟨declaration.withoutFiles,
          declaration.withoutFiles.attributes.name.getD "", scopes,
          carried progress.file (Location.filesRead? declaration.attributes.location),
          (observeOptional none declaration.withoutFiles.attributes.location).2⟩
      else progress.index.withoutFiles := by
  have same : declaration.withoutFiles.IsDefinition ↔ declaration.IsDefinition := by
    rw [Declaration.IsDefinition, Declaration.IsDefinition, Declaration.kind, Declaration.kind,
      Declaration.attributes_withoutFiles]
    rfl
  have column := column_observeOptional progress.file none declaration.attributes.location
  rw [enter]
  dsimp only
  rw [file_observeOptional, column]
  split
  · rename_i defined
    have isDefinition : declaration.IsDefinition := defined
    rw [if_pos (same.mpr isDefinition), add_withoutFiles, Declaration.attributes_withoutFiles]
    rfl
  · rename_i undefined
    have noDefinition : ¬ declaration.IsDefinition := undefined
    rw [if_neg (mt same.mp noDefinition)]

variable {declaration other : Declaration} {declarations others : List Declaration}

/-- A node in which files are left out adds the same to the index, and leaves the same file behind. -/
theorem agrees_enter (agrees : Agrees progress next)
    (same : other.withoutFiles = declaration.withoutFiles)
    (elided : IsElided progress.file declaration.attributes.filesRead other.attributes.filesRead) :
    Agrees (enter progress scopes declaration) (enter next scopes other) := by
  have attributes : other.attributes.withoutFiles = declaration.attributes.withoutFiles := by
    rw [← Declaration.attributes_withoutFiles, same, Declaration.attributes_withoutFiles]
  have locations : (Location.filesRead? other.attributes.location).length =
      (Location.filesRead? declaration.attributes.location).length := by
    have lengths := congrArg (fun one => (Location.filesRead? (NodeAttributes.location one)).length)
      attributes
    rw [NodeAttributes.withoutFiles, NodeAttributes.withoutFiles] at lengths
    dsimp only at lengths
    rw [Location.filesRead?_withoutFiles, Location.filesRead?_withoutFiles, List.length_map,
      List.length_map] at lengths
    exact lengths
  have own := (elided.split locations).1.carried_eq
  refine ⟨?_, ?_⟩
  · rw [index_enter, index_enter, same, agrees.index, agrees.file, own]
  · rw [file_enter, file_enter, agrees.file, elided.carried_eq]

/-- Behind a declaration the last file that is given in it counts. -/
theorem file_visitAll
    (each : ∀ declaration ∈ declarations, ∀ progress scopes,
      (visit progress scopes declaration).file = carried progress.file declaration.filesRead)
    (progress : Progress) (scopes : List Scope) :
    (visitAll progress scopes declarations).file =
      carried progress.file (Declaration.filesReadAll declarations) := by
  induction declarations generalizing progress with
  | nil => rfl
  | cons declaration rest ih =>
      rcases List.forall_mem_cons.mp each with ⟨first, others⟩
      rw [visitAll, Declaration.filesReadAll, ih others, first, carried_append]

theorem file_visit (declaration : Declaration) (progress : Progress) (scopes : List Scope) :
    (visit progress scopes declaration).file = carried progress.file declaration.filesRead := by
  induction declaration using Declaration.induction generalizing progress scopes with
  | node attributes children ih =>
      rw [visit, file_visitAll ih, file_enter, Declaration.filesRead, carried_append]
      rfl

theorem visitAll_elided
    (each : ∀ declaration ∈ declarations, ∀ other progress next, Agrees progress next →
      other.withoutFiles = declaration.withoutFiles →
      IsElided progress.file declaration.filesRead other.filesRead →
      Agrees (visit progress scopes declaration) (visit next scopes other))
    (agrees : Agrees progress next)
    (same : others.map Declaration.withoutFiles = declarations.map Declaration.withoutFiles)
    (elided : IsElided progress.file (Declaration.filesReadAll declarations)
      (Declaration.filesReadAll others)) :
    Agrees (visitAll progress scopes declarations) (visitAll next scopes others) := by
  induction declarations generalizing others progress next with
  | nil =>
      rw [List.map_nil, List.map_eq_nil_iff] at same
      rw [same, visitAll, visitAll]
      exact agrees
  | cons declaration rest ih =>
      cases others with
      | nil => cases same
      | cons other others =>
          rcases List.forall_mem_cons.mp each with ⟨first, further⟩
          rw [List.map_cons, List.map_cons, List.cons.injEq] at same
          rcases same with ⟨sameFirst, sameRest⟩
          rw [Declaration.filesReadAll, Declaration.filesReadAll] at elided
          rcases elided.split (Declaration.length_filesRead sameFirst) with ⟨elidedFirst, elidedRest⟩
          rw [visitAll, visitAll]
          apply ih further (first other progress next agrees sameFirst elidedFirst) sameRest
          rw [file_visit]
          exact elidedRest

/-- A declaration in which files are left out adds the same to the index, and leaves the same file
behind. -/
theorem visit_elided (agrees : Agrees progress next)
    (same : other.withoutFiles = declaration.withoutFiles)
    (elided : IsElided progress.file declaration.filesRead other.filesRead) :
    Agrees (visit progress scopes declaration) (visit next scopes other) := by
  induction declaration using Declaration.induction generalizing other progress next scopes with
  | node attributes children ih =>
      rcases other with ⟨otherAttributes, others⟩
      have node := same
      rw [Declaration.withoutFiles, Declaration.withoutFiles, Declaration.node.injEq,
        Declaration.withoutFilesAll_eq, Declaration.withoutFilesAll_eq] at node
      rcases node with ⟨sameAttributes, sameChildren⟩
      have lengths : otherAttributes.filesRead.length = attributes.filesRead.length := by
        have places := congrArg (fun one => (NodeAttributes.filesRead one).length) sameAttributes
        rw [NodeAttributes.filesRead_withoutFiles, NodeAttributes.filesRead_withoutFiles,
          List.length_map, List.length_map] at places
        exact places
      have scope : scopeOf? otherAttributes = scopeOf? attributes := by
        rw [← scopeOf?_withoutFiles, sameAttributes, scopeOf?_withoutFiles]
      rw [Declaration.filesRead, Declaration.filesRead] at elided
      rcases elided.split lengths with ⟨elidedOwn, elidedChildren⟩
      rw [visit, visit, scope]
      apply visitAll_elided _ (agrees_enter agrees same elidedOwn) sameChildren
      · rw [file_enter]
        exact elidedChildren
      · intro child listed other progress next agrees same elided
        exact ih child listed agrees same elided

end

/-- Leaving out files that were given before does not change the index, but for the files in the
declarations themselves. -/
theorem build_elided {root other : Declaration} (same : other.withoutFiles = root.withoutFiles)
    (elided : IsElided none root.filesRead other.filesRead) :
    (build other).withoutFiles = (build root).withoutFiles :=
  (visit_elided ⟨rfl, rfl⟩ same elided).index

end RecordIndex

/-- Records do not change, nor the reason why there are none, when files are left out of a tree that were
given for the place read before. -/
theorem findRecords_elided {root other : Declaration}
    (same : other.withoutFiles = root.withoutFiles)
    (elided : IsElided none root.filesRead other.filesRead)
    (mainFile : Option String) (pattern : String) :
    (RecordSource.declarations ⟨other, mainFile⟩).findRecords pattern =
      (RecordSource.declarations ⟨root, mainFile⟩).findRecords pattern := by
  have built : ∀ accepts : String → Bool, DeclarationTree.buildRecords ⟨other, mainFile⟩ accepts =
      DeclarationTree.buildRecords ⟨root, mainFile⟩ accepts := by
    intro accepts
    rw [DeclarationTree.buildRecords_eq, DeclarationTree.buildRecords_eq,
      RecordIndex.build_elided same elided]
    rfl
  rw [RecordSource.findRecords, RecordSource.findRecords]
  cases NamePattern.parse pattern with
  | error fault => rfl
  | ok matcher => exact congrArg (Except.mapError _) (built matcher.matches)

/-- A struct at a place. -/
def Declaration.structAt (name : String) (location rangeBegin rangeEnd : Location) : Declaration :=
  .node { NodeAttributes.ofMembers [] with
    kind := .recordDeclaration, name := some name, tag := some "struct", isComplete := true
    location := some location, rangeBegin := some rangeBegin, rangeEnd := some rangeEnd } []

/-- A header with a struct that a macro of another file expands to, and one behind it.  A file that was
given for the place read before is written as told. -/
def Declaration.header (again : String → Option String) : Declaration :=
  .node { NodeAttributes.ofMembers [] with location := some (.place none none none none) }
    [.structAt "Size"
      (.place none none (some (.place (some "macros.h") (some 9) none none))
        (some (.place (some "ui.h") (some 1) none none)))
      (.place (again "ui.h") (some 1) none none) (.place (again "ui.h") (some 12) none none),
    .structAt "Window" (.place (again "ui.h") (some 8) none none)
      (.place (again "ui.h") (some 1) none none) (.place (again "ui.h") (some 16) none none)]

theorem findRecords_elided_header :
    (Declaration.header fun _ => none).withoutFiles = (Declaration.header some).withoutFiles ∧
    IsElided none (Declaration.header some).filesRead (Declaration.header fun _ => none).filesRead ∧
    (∀ pattern, (RecordSource.declarations ⟨.header fun _ => none, some "ui.h"⟩).findRecords pattern =
      (RecordSource.declarations ⟨.header some, some "ui.h"⟩).findRecords pattern) ∧
    ((RecordSource.declarations ⟨.header some, some "ui.h"⟩).findRecords "*").map
      (List.map Record.name) = .ok ["Size", "Window"] := by
  have same : (Declaration.header fun _ => none).withoutFiles =
      (Declaration.header some).withoutFiles := rfl
  have elided : IsElided none (Declaration.header some).filesRead
      (Declaration.header fun _ => none).filesRead :=
    .keep (.keep (.keep (.leaveOut (.leaveOut (.leaveOut (.leaveOut (.leaveOut (.nil _))))))))
  refine ⟨same, elided, findRecords_elided same elided (some "ui.h"), ?_⟩
  decide +kernel

end KeyedReflection
