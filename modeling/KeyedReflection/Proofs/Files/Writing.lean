import KeyedReflection.Files.FileSystem
import Mathlib.Tactic.SplitIfs

/-!
# Writing files

Making a directory and writing a text only add to a file system: a directory stays one, and what is there
stays there (`Grows`).  So a path that can be followed leads to the same place ever after.  Of the texts only
that of the written file changes, and it is found under the path it was written to (`Writes`).

After several texts have been written, each place to which one of the paths leads has the last of the texts
that were written there (`WritesAll.text_cases`).  Hence all texts are found again exactly when there are no
two different ones for one place (`WritesAll.readText_iff`), and an input that was read before reads the same
when no output leads to its place.
-/

namespace KeyedReflection
namespace FileSystem

variable {files before mid after : FileSystem} {path : String} {place : Place}

/-! ## Entries and texts -/

@[simp] theorem entry_nil (files : FileSystem) : files.entry? [] = some .directory := rfl

theorem entry_of_ne_nil (files : FileSystem) (named : place ≠ []) :
    files.entry? place = files.entries.find? (Place.path place) := by
  cases place with
  | nil => exact absurd rfl named
  | cons name names => rfl

theorem hasDirectory_iff : files.hasDirectory place = true ↔ files.entry? place = some .directory := by
  rw [hasDirectory, beq_iff_eq]

/-- The text of the file with an absolute path. -/
def text? (files : FileSystem) (path : String) : Option String :=
  (files.entries.find? path).bind FileEntry.text?

theorem text?_put (files : FileSystem) (place : Place) (entry : FileEntry) (path : String) :
    (files.put place entry).text? path =
      if Place.path place = path then entry.text? else files.text? path := by
  rw [text?, find?_put]
  split <;> rfl

theorem entry_put (files : FileSystem) (place other : Place) (entry : FileEntry) :
    FileSystem.entry? (files.put place entry) other =
      if other ≠ [] ∧ Place.path place = Place.path other then some entry else files.entry? other := by
  cases other with
  | nil => simp
  | cons name names =>
      rw [entry_of_ne_nil _ (List.cons_ne_nil name names), find?_put,
        entry_of_ne_nil _ (List.cons_ne_nil name names)]
      simp

/-! ## Growing -/

/-- Nothing that is there goes away. -/
structure Grows (before after : FileSystem) : Prop where
  current : after.current = before.current
  directory : ∀ place, before.hasDirectory place = true → after.hasDirectory place = true
  entry : ∀ place, (before.entry? place).isSome = true → (after.entry? place).isSome = true

theorem grows_put (files : FileSystem) {entry : FileEntry}
    (kept : files.hasDirectory place = true → entry = .directory) (named : place ≠ []) :
    Grows files (files.put place entry) where
  current := rfl
  directory other found := by
    rw [hasDirectory_iff, entry_put]
    split
    · rename_i same
      rw [hasDirectory_iff, entry_of_ne_nil _ same.1, ← same.2, ← entry_of_ne_nil _ named,
        ← hasDirectory_iff] at found
      rw [kept found]
    · exact hasDirectory_iff.mp found
  entry other found := by
    rw [entry_put]
    split
    · rfl
    · exact found

namespace Grows

theorem refl (files : FileSystem) : Grows files files :=
  ⟨rfl, fun _ found => found, fun _ found => found⟩

theorem trans (first : Grows before mid) (second : Grows mid after) : Grows before after where
  current := second.current.trans first.current
  directory place found := second.directory place (first.directory place found)
  entry place found := second.entry place (first.entry place found)

section

variable (grows : Grows before after)

include grows

theorem step {name : String} {next : Place} (taken : before.step place name = .ok next) :
    after.step place name = .ok next := by
  rw [FileSystem.step] at taken ⊢
  cases directory : before.hasDirectory place with
  | false =>
      rw [directory] at taken
      cases taken
  | true =>
      rw [directory] at taken
      rw [grows.directory place directory]
      simp only [Bool.not_true, Bool.false_eq_true, ↓reduceIte] at taken ⊢
      split_ifs at taken with here above long old
      · rwa [if_pos here]
      · rwa [if_neg here, if_pos above]
      · rwa [if_neg here, if_neg above, if_neg long, if_pos (grows.entry _ old)]

theorem foldlM_step {names : List String} {last : Place}
    (followed : names.foldlM before.step place = .ok last) : names.foldlM after.step place = .ok last := by
  induction names generalizing place with
  | nil => exact followed
  | cons name names ih =>
      rw [List.foldlM_cons] at followed ⊢
      cases taken : before.step place name with
      | error fault =>
          rw [taken] at followed
          cases followed
      | ok next =>
          rw [taken] at followed
          rw [grows.step taken]
          exact ih followed

theorem follow (followed : before.follow path = .ok place) : after.follow path = .ok place := by
  have start : after.start path = before.start path := by rw [start, start, grows.current]
  rw [FileSystem.follow, start]
  exact grows.foldlM_step followed

/-- A path that leads to a place still does. -/
theorem locate (found : before.locate path = .ok place) : after.locate path = .ok place := by
  rw [FileSystem.locate] at found ⊢
  cases bounded : Path.bounded path with
  | error fault =>
      rw [bounded] at found
      cases found
  | ok path =>
      rw [bounded] at found
      exact grows.follow found

end

end Grows

/-- Nothing goes away, and no text changes. -/
structure Extends (before after : FileSystem) : Prop extends Grows before after where
  texts : ∀ path, after.text? path = before.text? path

theorem Extends.refl (files : FileSystem) : Extends files files :=
  ⟨.refl files, fun _ => rfl⟩

theorem Extends.trans (first : Extends before mid) (second : Extends mid after) : Extends before after :=
  ⟨first.toGrows.trans second.toGrows, fun path => (second.texts path).trans (first.texts path)⟩

/-- A new directory hides no text. -/
theorem extends_of_makeDirectory (made : before.makeDirectory path = .ok after) : Extends before after := by
  rw [makeDirectory] at made
  split at made
  · cases made
  · cases made
  · rename_i place name _
    split_ifs at made with improper long old
    cases made
    have named : place ++ [name] ≠ [] := by simp
    have missing : before.entry? (place ++ [name]) = none := by simpa using old
    refine ⟨grows_put before (fun _ => rfl) named, fun other => ?_⟩
    rw [text?_put]
    split
    · rename_i same
      rw [text?, ← same, ← entry_of_ne_nil before named, missing]
      rfl
    · rfl

theorem extends_makeDirectoriesWithin (levels : Nat) (files : FileSystem) (path : String) :
    Extends files (makeDirectoriesWithin levels files path).2 := by
  induction levels generalizing files path with
  | zero => exact .refl files
  | succ levels ih =>
      have settled (files : FileSystem) (fault : FileFault) : Extends files
          (if files.isDirectory path then (Except.ok (), files) else (Except.error fault, files)).2 := by
        split <;> exact .refl files
      rw [makeDirectoriesWithin]
      dsimp only
      split
      · exact .refl files
      · split
        · rename_i made
          exact extends_of_makeDirectory made
        · split
          · exact .refl files
          · rename_i parent _
            have above := ih files parent
            split
            · rename_i reached
              rwa [reached] at above
            · rename_i reached
              rw [reached] at above
              split
              · rename_i made
                exact above.trans (extends_of_makeDirectory made)
              · exact above.trans (settled _ _)
        · exact settled _ _

theorem extends_makeDirectories (files : FileSystem) (path : String) :
    Extends files (files.makeDirectories path).2 :=
  extends_makeDirectoriesWithin _ files path

/-! ## Paths and texts -/

/-- A path leads to the file with an absolute path. -/
def LeadsTo (files : FileSystem) (path target : String) : Prop :=
  ∃ place ≠ [], files.locate path = .ok place ∧ Place.path place = target

namespace LeadsTo

variable {target : String}

theorem unique {other : String} (first : files.LeadsTo path target) (second : files.LeadsTo path other) :
    target = other := by
  rcases first with ⟨place, _, found, rfl⟩
  rcases second with ⟨_, _, again, rfl⟩
  cases found.symm.trans again
  rfl

theorem grow (grows : Grows before after) (leads : before.LeadsTo path target) : after.LeadsTo path target := by
  rcases leads with ⟨place, named, found, same⟩
  exact ⟨place, named, grows.locate found, same⟩

theorem canonicalPath (leads : files.LeadsTo path target) : files.canonicalPath path = .ok target := by
  rcases leads with ⟨place, _, found, rfl⟩
  rw [locate] at found
  rw [FileSystem.canonicalPath]
  cases usable : Path.usable path with
  | error fault =>
      rw [Path.bounded, usable] at found
      cases found
  | ok checked =>
      rw [Path.bounded, usable] at found
      dsimp only at found ⊢
      split_ifs at found
      dsimp only at found
      rw [found]
      rfl

end LeadsTo

theorem readText_eq_ok_iff {text : String} :
    files.readText path = .ok text ↔ ∃ target, files.LeadsTo path target ∧ files.text? target = some text := by
  rw [readText]
  constructor
  · intro read
    cases found : files.locate path with
    | error fault =>
        rw [found] at read
        cases read
    | ok place =>
        rw [found] at read
        dsimp only at read
        have named : place ≠ [] := by
          rintro rfl
          cases read
        refine ⟨Place.path place, ⟨place, named, found, rfl⟩, ?_⟩
        rw [text?, ← entry_of_ne_nil files named]
        cases there : files.entry? place with
        | none =>
            rw [there] at read
            cases read
        | some entry =>
            rw [there] at read
            dsimp only at read
            split at read
            · cases read
              assumption
            · cases read
  · rintro ⟨_, ⟨place, named, found, rfl⟩, stored⟩
    rw [text?, ← entry_of_ne_nil files named] at stored
    rcases Option.bind_eq_some_iff.mp stored with ⟨entry, there, content⟩
    rw [found]
    dsimp only
    rw [there]
    dsimp only
    rw [content]

/-! ## Writing one text -/

/-- A text is written to a path: it is found there, and no other text changes. -/
structure Writes (before : FileSystem) (path text : String) (after : FileSystem) : Prop
    extends Grows before after where
  found : ∃ target, after.LeadsTo path target ∧
    ∀ other, after.text? other = if target = other then some text else before.text? other

theorem Writes.readText {text : String} (writes : Writes before path text after) :
    after.readText path = .ok text := by
  rcases writes.found with ⟨target, leads, texts⟩
  exact readText_eq_ok_iff.mpr ⟨target, leads, by rw [texts, if_pos rfl]⟩

theorem Extends.writes {text : String} (extended : Extends before mid) (writes : Writes mid path text after) :
    Writes before path text after where
  toGrows := extended.toGrows.trans writes.toGrows
  found := by
    rcases writes.found with ⟨target, leads, texts⟩
    exact ⟨target, leads, fun other => by rw [texts, extended.texts]⟩

theorem text?_withText (entry : FileEntry) (text : String) : (entry.withText text).text? = some text := by
  cases entry <;> rfl

theorem bounded_eq {other : String} (bounded : Path.bounded path = .ok other) : other = path := by
  rw [Path.bounded, Path.usable] at bounded
  split_ifs at bounded
  dsimp only at bounded
  split_ifs at bounded
  cases bounded
  rfl

/-- The parts of a path to which a file can be written: the names of directories that are there, and a name
that is not that of a directory. -/
theorem exists_of_placeForFile (placed : files.placeForFile path = .ok place) :
    ∃ names name above, Path.bounded path = .ok path ∧ Path.steps path = names ++ [name] ∧
      Path.endsInSlash path = false ∧ isProperName name = true ∧ Path.isNameTooLong name = false ∧
      names.foldlM files.step (files.start path) = .ok above ∧ files.hasDirectory above = true ∧
      place = above ++ [name] ∧ files.hasDirectory place = false := by
  rw [placeForFile] at placed
  split at placed
  · cases placed
  · cases placed
  · rename_i above name located
    split_ifs at placed with improper long directory
    cases placed
    simp only [Bool.or_eq_true, Bool.not_eq_true', not_or, Bool.not_eq_true, Bool.not_eq_false]
      at improper long directory
    rw [locateParent] at located
    split at located
    · cases located
    · cases located
    · rename_i bounded last
      split at located
      · cases located
      · rename_i followed
        split_ifs at located with parent
        cases located
        cases bounded_eq bounded
        rcases List.getLast?_eq_some_iff.mp last with ⟨names, steps⟩
        rw [steps, List.dropLast_concat] at followed
        exact ⟨names, name, above, bounded, steps, improper.1, improper.2, long, followed, parent, rfl,
          directory⟩

theorem writes_of_writeText {text : String} (written : before.writeText path text = .ok after) :
    Writes before path text after := by
  cases placed : before.placeForFile path with
  | error fault =>
      rw [writeText, placed] at written
      cases written
  | ok place =>
      rw [writeText, placed] at written
      cases written
      rcases exists_of_placeForFile placed with
        ⟨names, name, above, bounded, steps, noSlash, proper, short, followed, directory, rfl, file⟩
      have named : above ++ [name] ≠ [] := by simp
      let entry := ((before.entry? (above ++ [name])).getD (.file "")).withText text
      have grows : Grows before (before.put (above ++ [name]) entry) :=
        grows_put before (fun isDirectory => absurd (isDirectory.symm.trans file) (by decide)) named
      have there : (FileSystem.entry? (before.put (above ++ [name]) entry) (above ++ [name])).isSome = true := by
        rw [entry_put, if_pos ⟨named, rfl⟩]
        rfl
      have last : (before.put (above ++ [name]) entry).step above name = .ok (above ++ [name]) := by
        rw [isProperName, Bool.and_eq_true, bne_iff_ne, bne_iff_ne] at proper
        rw [step, grows.directory above directory]
        simp only [Bool.not_true, Bool.false_eq_true, ↓reduceIte]
        rw [if_neg proper.1, if_neg proper.2, if_neg (by rw [short]; decide), if_pos there]
      refine ⟨grows, Place.path (above ++ [name]), ⟨above ++ [name], named, ?_, rfl⟩, fun other => ?_⟩
      · rw [locate, bounded]
        dsimp only
        rw [follow, steps, noSlash, if_neg (by decide), List.append_nil, List.foldlM_append]
        have start : (before.put (above ++ [name]) entry).start path = before.start path := rfl
        rw [start, grows.foldlM_step followed]
        change (before.put (above ++ [name]) entry).step above name >>= _ = _
        rw [last]
        rfl
      · rw [text?_put, text?_withText]

/-! ## Writing several texts -/

/-- Texts are written to paths, one after another. -/
inductive WritesAll : FileSystem → List (String × String) → FileSystem → Prop
  | nil (files : FileSystem) : WritesAll files [] files
  | cons {before mid after : FileSystem} {path text : String} {rest : List (String × String)}
    (first : Writes before path text mid) (later : WritesAll mid rest after) :
    WritesAll before ((path, text) :: rest) after

namespace WritesAll

variable {outputs : List (String × String)}

theorem append {others : List (String × String)} (first : WritesAll before outputs mid)
    (second : WritesAll mid others after) : WritesAll before (outputs ++ others) after := by
  induction first with
  | nil => exact second
  | cons written _ ih => exact .cons written (ih second)

section

variable (written : WritesAll before outputs after)

include written

theorem grows : Grows before after := by
  induction written with
  | nil files => exact .refl files
  | cons first _ ih => exact first.toGrows.trans ih

/-- Every path that is written to leads to a file in the end. -/
theorem leadsTo : ∀ output ∈ outputs, ∃ target, after.LeadsTo output.1 target := by
  induction written with
  | nil => exact nofun
  | cons first later ih =>
      refine List.forall_mem_cons.mpr ⟨?_, ih⟩
      rcases first.found with ⟨target, leads, _⟩
      exact ⟨target, leads.grow later.grows⟩

/-- A file has the last text that was written to it. -/
theorem text_cases (target : String) :
    (∃ output ∈ outputs, after.LeadsTo output.1 target ∧ after.text? target = some output.2) ∨
      ((∀ output ∈ outputs, ¬ after.LeadsTo output.1 target) ∧ after.text? target = before.text? target) := by
  induction written with
  | nil => exact .inr ⟨nofun, rfl⟩
  | @cons before mid after path text rest first later ih =>
      rcases ih with ⟨output, listed, leads, content⟩ | ⟨others, content⟩
      · exact .inl ⟨output, List.mem_cons_of_mem _ listed, leads, content⟩
      · rcases first.found with ⟨own, leads, texts⟩
        have still := leads.grow later.grows
        by_cases same : own = target
        · subst same
          refine .inl ⟨(path, text), List.mem_cons_self, still, ?_⟩
          rw [content, texts, if_pos rfl]
        · refine .inr ⟨List.forall_mem_cons.mpr ⟨fun also => same (still.unique also), others⟩, ?_⟩
          rw [content, texts, if_neg same]

/-- All texts are found again exactly when no two different ones are written to one place. -/
theorem readText_iff : (∀ output ∈ outputs, after.readText output.1 = .ok output.2) ↔
    ∀ first ∈ outputs, ∀ second ∈ outputs,
      after.canonicalPath first.1 = after.canonicalPath second.1 → first.2 = second.2 := by
  constructor
  · intro found first listed second alsoListed same
    rcases readText_eq_ok_iff.mp (found first listed) with ⟨target, leads, content⟩
    rcases readText_eq_ok_iff.mp (found second alsoListed) with ⟨other, alsoLeads, alsoContent⟩
    rw [leads.canonicalPath, alsoLeads.canonicalPath] at same
    cases same
    exact Option.some.inj (content.symm.trans alsoContent)
  · intro agree output listed
    rcases written.leadsTo output listed with ⟨target, leads⟩
    refine readText_eq_ok_iff.mpr ⟨target, leads, ?_⟩
    rcases written.text_cases target with ⟨last, alsoListed, alsoLeads, content⟩ | ⟨nothing, _⟩
    · rw [content, agree last alsoListed output listed (by rw [leads.canonicalPath, alsoLeads.canonicalPath])]
    · exact absurd leads (nothing output listed)

/-- What no text is written to reads the same. -/
theorem readText_of_apart {input content : String} (readable : before.readText input = .ok content)
    (apart : ∀ output ∈ outputs, after.canonicalPath output.1 ≠ after.canonicalPath input) :
    after.readText input = .ok content := by
  rcases readText_eq_ok_iff.mp readable with ⟨target, leads, before⟩
  have still := leads.grow written.grows
  refine readText_eq_ok_iff.mpr ⟨target, still, ?_⟩
  rcases written.text_cases target with ⟨last, listed, alsoLeads, _⟩ | ⟨_, same⟩
  · exact absurd (by rw [alsoLeads.canonicalPath, still.canonicalPath]) (apart last listed)
  · rw [same, before]

/-- What a text is written to has one of the texts in the end. -/
theorem exists_of_met {input content : String} (readable : after.readText input = .ok content)
    {output : String × String} (listed : output ∈ outputs)
    (met : after.canonicalPath output.1 = after.canonicalPath input) : ∃ last ∈ outputs, last.2 = content := by
  rcases readText_eq_ok_iff.mp readable with ⟨target, leads, stored⟩
  rcases written.leadsTo output listed with ⟨own, ownLeads⟩
  rw [ownLeads.canonicalPath, leads.canonicalPath] at met
  cases met
  rcases written.text_cases target with ⟨last, alsoListed, _, lastStored⟩ | ⟨nothing, _⟩
  · exact ⟨last, alsoListed, Option.some.inj (lastStored.symm.trans stored)⟩
  · exact absurd ownLeads (nothing output listed)

end

end WritesAll

end FileSystem
end KeyedReflection
