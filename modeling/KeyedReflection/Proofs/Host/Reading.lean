import KeyedReflection.Proofs.Host.Actions

/-!
# Actions that only read

Whatever a command does before it writes leaves the files as they are, and what it finds out depends on the
files alone: neither on the calls of programs made so far, nor on how often it looks.  Both are kept by doing
one thing after another, so they hold of every action that is put together from actions of this kind
(`IsReading`), which are all but writing a text and making directories.

Some actions look at one file only.  What they find out is the same on all file systems on which this file
reads the same.  So the notion has a parameter that says which file systems look alike.
-/

namespace KeyedReflection

variable {α β : Type}

/-- An action that leaves the files as they are and has the same result on files that look alike. -/
structure IsReading (alike : FileSystem → FileSystem → Prop) (action : StateM Workspace α) : Prop where
  quiet : ∀ w, (action.run w).2.files = w.files
  answer : ∀ w w', alike w.files w'.files → (action.run w).1 = (action.run w').1

/-- The file at a path reads the same. -/
def ReadsSame (path : String) (files other : FileSystem) : Prop :=
  files.readText path = other.readText path

/-- What an action finds out about some files. -/
def answerFrom (action : StateM Workspace α) (files : FileSystem) : α :=
  (action.run ⟨files, []⟩).1

namespace IsReading

variable {alike : FileSystem → FileSystem → Prop}

theorem pure (a : α) : IsReading alike (Pure.pure a : StateM Workspace α) :=
  ⟨fun _ => rfl, fun _ _ _ => rfl⟩

theorem mono {closer : FileSystem → FileSystem → Prop} {action : StateM Workspace α}
    (implied : ∀ files other, closer files other → alike files other) (reads : IsReading alike action) :
    IsReading closer action :=
  ⟨reads.quiet, fun w w' seen => reads.answer w w' (implied _ _ seen)⟩

/-- What looks at one file only has the same result on the same files. -/
theorem ofOne {path : String} {action : StateM Workspace α} (reads : IsReading (ReadsSame path) action) :
    IsReading Eq action :=
  reads.mono fun _ _ same => congrArg (FileSystem.readText · path) same

/-- A question about the files. -/
theorem ofFiles {find : FileSystem → α} (same : ∀ files other, alike files other → find files = find other) :
    IsReading alike (fun w => (find w.files, w) : StateM Workspace α) :=
  ⟨fun _ => rfl, fun w w' seen => same w.files w'.files seen⟩

theorem bind {first : StateM Workspace α} {next : α → StateM Workspace β} (reads : IsReading alike first)
    (further : ∀ a, IsReading alike (next a)) : IsReading alike (first >>= next) where
  quiet w := ((further _).quiet _).trans (reads.quiet w)
  answer w w' seen := by
    change ((next (first.run w).1).run (first.run w).2).1 =
      ((next (first.run w').1).run (first.run w').2).1
    rw [reads.answer w w' seen]
    refine (further _).answer _ _ ?_
    rwa [reads.quiet, reads.quiet]

theorem map {action : StateM Workspace α} (f : α → β) (reads : IsReading alike action) :
    IsReading alike (f <$> action) where
  quiet := reads.quiet
  answer w w' seen := congrArg f (reads.answer w w' seen)

/-- The result of reading depends on the files alone. -/
theorem run_fst {action : StateM Workspace α} (reads : IsReading Eq action) (w : Workspace) :
    (action.run w).1 = answerFrom action w.files :=
  reads.answer w ⟨w.files, []⟩ rfl

theorem filterMapM {find : α → StateM Workspace (Option β)} (each : ∀ a, IsReading alike (find a))
    (items : List α) : IsReading alike (items.filterMapM find) := by
  have loop : ∀ found, IsReading alike (List.filterMapM.loop find items found) := by
    induction items with
    | nil => exact fun found => pure _
    | cons item items ih =>
        intro found
        refine bind (each item) ?_
        rintro (_ | b)
        · exact ih found
        · exact ih (b :: found)
  exact loop []

/-! ## Actions that can fail -/

section

variable {action : Action (StateM Workspace) α}

theorem bindAction {next : α → Action (StateM Workspace) β} (reads : IsReading alike action.run)
    (further : ∀ a, IsReading alike (next a).run) : IsReading alike (action >>= next).run := by
  change IsReading alike (action.run >>= ExceptT.bindCont next)
  refine bind reads ?_
  rintro (failure | a)
  · exact pure _
  · exact further a

theorem within (activity : Activity) (reads : IsReading alike action.run) :
    IsReading alike (Action.within activity action).run :=
  map _ reads

theorem lift {operation : StateM Workspace α} (reads : IsReading alike operation) :
    IsReading alike (ExceptT.lift operation : Action (StateM Workspace) α).run :=
  map _ reads

theorem ofFile {operation : StateM Workspace (Except FileFault α)} (activity : Activity)
    (reads : IsReading alike operation) : IsReading alike (Action.ofFile activity operation).run := by
  refine bind reads ?_
  rintro (fault | a) <;> exact pure _

theorem ofCause (result : Except FailureCause α) :
    IsReading alike (Action.ofCause result : Action (StateM Workspace) α).run :=
  pure _

theorem forM {items : List α} {each : α → Action (StateM Workspace) Unit}
    (reads : ∀ item ∈ items, IsReading alike (each item).run) : IsReading alike (items.forM each).run := by
  induction items with
  | nil => exact pure _
  | cons item items ih =>
      rcases List.forall_mem_cons.mp reads with ⟨first, others⟩
      exact bindAction first fun _ => ih others

end

/-! ## Answers of actions put together -/

theorem answerFrom_bind {action : Action (StateM Workspace) α} {next : α → Action (StateM Workspace) β}
    (reads : IsReading Eq action.run) (further : ∀ a, IsReading Eq (next a).run) (files : FileSystem) :
    answerFrom (action >>= next).run files =
      (answerFrom action.run files).bind fun a => answerFrom (next a).run files := by
  have quiet := reads.quiet ⟨files, []⟩
  rw [answerFrom, answerFrom]
  rcases first : action.run.run ⟨files, []⟩ with ⟨failure | a, w⟩
  · rw [Action.bind_of_error first]
    rfl
  · rw [first] at quiet
    rw [Action.bind_of_ok first, (further a).run_fst w, quiet]
    rfl

/-- Two things are found when the first is and then the second. -/
theorem answerFrom_bind_eq_ok_iff {action : Action (StateM Workspace) α}
    {next : α → Action (StateM Workspace) β} {b : β} (reads : IsReading Eq action.run)
    (further : ∀ a, IsReading Eq (next a).run) (files : FileSystem) :
    answerFrom (action >>= next).run files = .ok b ↔
      ∃ a, answerFrom action.run files = .ok a ∧ answerFrom (next a).run files = .ok b := by
  rw [answerFrom_bind reads further]
  cases answerFrom action.run files with
  | error failure => exact iff_of_false nofun nofun
  | ok found =>
      refine ⟨fun done => ⟨found, rfl, done⟩, ?_⟩
      rintro ⟨_, same, done⟩
      cases same
      exact done

/-- Several things are found in order when each of them is. -/
theorem answerFrom_forM_eq_ok_iff {items : List α} {each : α → Action (StateM Workspace) Unit}
    (reads : ∀ item, IsReading Eq (each item).run) (files : FileSystem) :
    answerFrom (items.forM each).run files = .ok () ↔
      ∀ item ∈ items, answerFrom (each item).run files = .ok () := by
  induction items with
  | nil => exact iff_of_true rfl nofun
  | cons item items ih =>
      have others : IsReading Eq (items.forM each).run := forM fun item _ => reads item
      refine (answerFrom_bind_eq_ok_iff (reads item) (fun _ => others) files).trans ?_
      rw [List.forall_mem_cons, ← ih]
      constructor
      · rintro ⟨_, first, later⟩
        exact ⟨first, later⟩
      · rintro ⟨first, later⟩
        exact ⟨(), first, later⟩

/-- Several things are found behind another one when each of them is. -/
theorem answerFrom_bind_forM_eq_ok_iff {action : Action (StateM Workspace) α} {items : α → List β}
    {each : β → Action (StateM Workspace) Unit} (reads : IsReading Eq action.run)
    (further : ∀ item, IsReading Eq (each item).run) (files : FileSystem) :
    answerFrom (action >>= fun a => (items a).forM each).run files = .ok () ↔
      ∃ a, answerFrom action.run files = .ok a ∧
        ∀ item ∈ items a, answerFrom (each item).run files = .ok () := by
  rw [answerFrom_bind_eq_ok_iff reads fun _ => forM fun item _ => further item]
  exact exists_congr fun _ => and_congr_right fun _ => answerFrom_forM_eq_ok_iff further files

theorem answerFrom_within_eq_ok_iff {activity : Activity} {action : Action (StateM Workspace) α} {a : α}
    {files : FileSystem} : answerFrom (Action.within activity action).run files = .ok a ↔
      answerFrom action.run files = .ok a := by
  have same : answerFrom (Action.within activity action).run files =
      (answerFrom action.run files).mapError (Failure.within activity) :=
    congrArg Prod.fst (Action.run_within activity action ⟨files, []⟩)
  rw [same]
  cases answerFrom action.run files with
  | error failure => exact iff_of_false nofun nofun
  | ok found => rfl

/-! ## The operations of a workspace -/

section

variable (programs : String → Option Program)

theorem readText (path : String) :
    IsReading (ReadsSame path) ((Workspace.host programs).readText path) :=
  ofFiles fun _ _ seen => seen

theorem canonicalPath (path : String) : IsReading Eq ((Workspace.host programs).canonicalPath path) :=
  ofFiles fun _ _ same => congrArg (FileSystem.canonicalPath · path) same

theorem isDirectory (path : String) : IsReading Eq ((Workspace.host programs).isDirectory path) :=
  ofFiles fun _ _ same => congrArg (FileSystem.isDirectory · path) same

/-- A program that runs changes no files, and does the same in front of the same files. -/
theorem runProgram (name : String) (arguments : List String) :
    IsReading Eq ((Workspace.host programs).runProgram name arguments) where
  quiet w := by
    change (Workspace.run programs name arguments w).2.files = w.files
    rw [Workspace.run]
    split <;> rfl
  answer w w' same := by
    change (Workspace.run programs name arguments w).1 = (Workspace.run programs name arguments w').1
    rw [Workspace.run, Workspace.run, same]
    cases Workspace.startProgram programs w'.files name arguments <;> rfl

end

end IsReading
end KeyedReflection
