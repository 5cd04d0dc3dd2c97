import KeyedReflection.Files.Path
import KeyedReflection.SortedMap

/-!
# File systems

A file system is a finite map from places to files and directories, together with the directory that
relative paths start from.  A place is the list of names that lead to it from the root, so it has one
form only, whereas many paths lead to one place.  Looking up a path follows its names one by one: each
name but the last has to be that of a directory, a single dot stays, and two dots go back.  A name that
is too long is refused where it is met, and a path that is too long is refused as a whole.

There are no links, and nothing is ever removed.
-/

namespace KeyedReflection

/-- What is at a place. -/
inductive FileEntry where
  | file (text : String)
  /-- A file that may be run, whether or not its text is that of a program. -/
  | executable (text : String)
  | directory
  deriving DecidableEq, Repr

def FileEntry.text? : FileEntry → Option String
  | .file text => some text
  | .executable text => some text
  | .directory => none

/-- The file with another text, which may be run as before. -/
def FileEntry.withText (entry : FileEntry) (text : String) : FileEntry :=
  match entry with
  | .executable _ => .executable text
  | _ => .file text

/-- The names that lead from the root to a place. -/
abbrev Place := List String

/-- The absolute path of a place. -/
def Place.path (place : Place) : String :=
  "/" ++ Text.join "/" place

/-- The files and directories, by absolute path, and the directory that relative paths start from. -/
structure FileSystem where
  entries : SortedMap FileEntry
  current : Place

namespace FileSystem

/-- The entry at a place.  The root is always there. -/
def entry? (files : FileSystem) : Place → Option FileEntry
  | [] => some .directory
  | place => files.entries.find? (Place.path place)

/-- Whether there is a directory at a place. -/
def hasDirectory (files : FileSystem) (place : Place) : Bool :=
  files.entry? place == some .directory

def put (files : FileSystem) (place : Place) (entry : FileEntry) : FileSystem :=
  { files with entries := files.entries.insert (Place.path place) entry }

/-! ## Looking up paths -/

/-- Follow one name. -/
def step (files : FileSystem) (place : Place) (name : String) : Except FileFault Place :=
  if !files.hasDirectory place then .error .notADirectory
  else if name = "." then .ok place
  else if name = ".." then .ok place.dropLast
  else if Path.isNameTooLong name then .error .nameTooLong
  else if (files.entry? (place ++ [name])).isSome then .ok (place ++ [name])
  else .error .notFound

/-- The place where a path starts. -/
def start (files : FileSystem) (path : String) : Place :=
  if Path.isAbsolute path then [] else files.current

/-- Follow the names of a path.  A slash at the end asks for a directory, as a dot would. -/
def follow (files : FileSystem) (path : String) : Except FileFault Place :=
  let names := Path.steps path ++ (if Path.endsInSlash path then ["."] else [])
  names.foldlM files.step (files.start path)

/-- The place that a path leads to. -/
def locate (files : FileSystem) (path : String) : Except FileFault Place :=
  match Path.bounded path with
  | .error fault => .error fault
  | .ok path => files.follow path

/-- The text of the file that a path leads to. -/
def readText (files : FileSystem) (path : String) : Except FileFault String :=
  match files.locate path with
  | .error fault => .error fault
  | .ok place =>
    match files.entry? place with
    | none => .error .notFound
    | some entry =>
      match entry.text? with
      | some text => .ok text
      | none => .error .isADirectory

/-- Whether a path leads to a directory. -/
def isDirectory (files : FileSystem) (path : String) : Bool :=
  match files.locate path with
  | .ok place => files.hasDirectory place
  | .error _ => false

/-- The absolute path of the place that a path leads to.  The path is followed name by name, so that it
may be of any length. -/
def canonicalPath (files : FileSystem) (path : String) : Except FileFault String :=
  match Path.usable path with
  | .error fault => .error fault
  | .ok path => (files.follow path).map Place.path

/-! ## Writing -/

/-- The directory in which the last name of a path stands, and that name; nothing for a path without
names. -/
def locateParent (files : FileSystem) (path : String) : Except FileFault (Option (Place × String)) :=
  match Path.bounded path, (Path.steps path).getLast? with
  | .error fault, _ => .error fault
  | .ok _, none => .ok none
  | .ok _, some name =>
    match (Path.steps path).dropLast.foldlM files.step (files.start path) with
    | .error fault => .error fault
    | .ok place =>
      if files.hasDirectory place then .ok (some (place, name)) else .error .notADirectory

/-- Whether a name can be given to a file. -/
def isProperName (name : String) : Bool :=
  name != "." && name != ".."

/-- The place for a file at a path, be it there already or new. -/
def placeForFile (files : FileSystem) (path : String) : Except FileFault Place :=
  match files.locateParent path with
  | .error fault => .error fault
  | .ok none => .error .isADirectory
  | .ok (some (place, name)) =>
    if Path.endsInSlash path || !isProperName name then .error .isADirectory
    else if Path.isNameTooLong name then .error .nameTooLong
    else if files.hasDirectory (place ++ [name]) then .error .isADirectory
    else .ok (place ++ [name])

/-- Write the text of a file, which is made if there is none. -/
def writeText (files : FileSystem) (path text : String) : Except FileFault FileSystem :=
  (files.placeForFile path).map fun place =>
    files.put place (((files.entry? place).getD (.file "")).withText text)

def makeDirectory (files : FileSystem) (path : String) : Except FileFault FileSystem :=
  match files.locateParent path with
  | .error fault => .error fault
  | .ok none => .error .alreadyExists
  | .ok (some (place, name)) =>
    if !isProperName name then .error .alreadyExists
    else if Path.isNameTooLong name then .error .nameTooLong
    else if (files.entry? (place ++ [name])).isSome then .error .alreadyExists
    else .ok (files.put (place ++ [name]) .directory)

/-- Make a directory after those above it, as far as they are missing.  The first argument bounds how
many levels are tried.  What was made stays when a later one cannot be made. -/
def makeDirectoriesWithin : Nat → FileSystem → String → Except FileFault Unit × FileSystem
  | 0, files, _ => (.error .notFound, files)
  | levels + 1, files, path =>
    let settled (files : FileSystem) (fault : FileFault) : Except FileFault Unit × FileSystem :=
      if files.isDirectory path then (.ok (), files) else (.error fault, files)
    if path = "" then (.ok (), files)
    else
      match files.makeDirectory path with
      | .ok files => (.ok (), files)
      | .error .notFound =>
        match Path.parent? path with
        | none => (.error (.other "failed to create whole tree"), files)
        | some parent =>
          match makeDirectoriesWithin levels files parent with
          | (.error fault, files) => (.error fault, files)
          | (.ok _, files) =>
            match files.makeDirectory path with
            | .ok files => (.ok (), files)
            | .error fault => settled files fault
      | .error fault => settled files fault

/-- Make the directory of a path and all directories above it that are missing. -/
def makeDirectories (files : FileSystem) (path : String) : Except FileFault Unit × FileSystem :=
  makeDirectoriesWithin ((Path.pieces path).length + 1) files path

/-- Put an entry at a path below the current directory, with the directories above it. -/
def install (files : FileSystem) (path : String) (entry : FileEntry) : FileSystem :=
  let names := (Path.steps path).filter (· != ".")
  let above := (List.range names.length).map fun count => files.current ++ names.take count
  let made := above.foldl (fun files place => files.put place .directory) files
  made.put (files.current ++ names) entry

/-- The file system without files, seen from a directory at the root. -/
def atDirectory (name : String) : FileSystem :=
  (⟨SortedMap.empty, [name]⟩ : FileSystem).put [name] .directory

/-! ## Laws -/

/-- What is put at one place is found there, and every other path keeps its entry. -/
theorem find?_put (files : FileSystem) (place : Place) (entry : FileEntry) (path : String) :
    (files.put place entry).entries.find? path =
      if Place.path place = path then some entry else files.entries.find? path := by
  simp [put]

/-- Putting an entry does not move the current directory. -/
@[simp] theorem current_put (files : FileSystem) (place : Place) (entry : FileEntry) :
    (files.put place entry).current = files.current := rfl

end FileSystem
end KeyedReflection
