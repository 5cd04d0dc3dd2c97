import KeyedReflection.Text.Basic

/-!
# Files by path

How files are named, and how operations on them fail.
-/

namespace KeyedReflection

/-!
## Failures of the file system

The few ways in which reading, writing or running a file fails, with the words of the operating system
for them.
-/

/-- Why a file operation failed. -/
inductive FileFault where
  | notFound
  | permissionDenied
  | alreadyExists
  | notADirectory
  | isADirectory
  | nameTooLong
  /-- A program is to be run from a file that is none. -/
  | notAProgram
  | argumentTooLong
  /-- A path holds the character that ends paths. -/
  | nulInPath
  /-- The name or an argument of a program holds the character that ends them. -/
  | nulInArguments
  /-- The file is not text in UTF-8. -/
  | notText
  | other (description : String)
  deriving DecidableEq, Repr

/-- The words for a failure. -/
def FileFault.message : FileFault → String
  | .notFound => "No such file or directory (os error 2)"
  | .permissionDenied => "Permission denied (os error 13)"
  | .alreadyExists => "File exists (os error 17)"
  | .notADirectory => "Not a directory (os error 20)"
  | .isADirectory => "Is a directory (os error 21)"
  | .nameTooLong => "File name too long (os error 36)"
  | .argumentTooLong => "Argument list too long (os error 7)"
  | .notAProgram => "Exec format error (os error 8)"
  | .nulInPath => "file name contained an unexpected NUL byte"
  | .nulInArguments => "nul byte found in provided data"
  | .notText => "stream did not contain valid UTF-8"
  | .other description => description

/-!
## Paths

A path is a text in which slashes separate the names of directories and, at the end, of a file.  A path
is kept as it was written, because that is how it is shown in messages.  What is read off it here
depends on the text alone:

* empty pieces and single dots, which name nothing, are passed over, except that a dot in front of a
  relative path counts as its first name;
* two dots are a name like any other until the path is looked up.

Paths and the names in them are bounded in length, counted in bytes, and hold no NUL, which would end
them.
-/

namespace Path

/-- Whether the path starts at the root. -/
def isAbsolute (path : String) : Bool :=
  path.toList.head? == some '/'

/-- Whether the path ends in a slash, so that only a directory can be meant. -/
def endsInSlash (path : String) : Bool :=
  path.toList.getLast? == some '/'

/-- The most bytes that a name has. -/
def nameLimit : Nat := 255

/-- The most bytes that a path has. -/
def pathLimit : Nat := 4095

/-- Whether a name is longer than names may be. -/
def isNameTooLong (name : String) : Bool :=
  nameLimit < name.utf8ByteSize

def holdsNul (text : String) : Bool :=
  text.toList.contains '\x00'

/-- The path itself, if it can be followed at all: it holds no NUL and is not empty. -/
def usable (path : String) : Except FileFault String :=
  if holdsNul path then .error .nulInPath
  else if path = "" then .error .notFound
  else .ok path

/-- The path itself, if it can be handed over as a whole: it is usable and not too long. -/
def bounded (path : String) : Except FileFault String :=
  match usable path with
  | .error fault => .error fault
  | .ok path => if pathLimit < path.utf8ByteSize then .error .nameTooLong else .ok path

/-- What is between the slashes. -/
def pieces (path : String) : List String :=
  Text.splitOn '/' path

/-- Whether a piece names nothing. -/
def isIdle (piece : String) : Bool :=
  piece == "" || piece == "."

/-- The names to follow when the path is looked up, single dots among them. -/
def steps (path : String) : List String :=
  (pieces path).filter fun piece => piece != ""

/-- Drop the idle pieces at the end. -/
def dropIdleEnd (names : List String) : List String :=
  (names.reverse.dropWhile isIdle).reverse

/-- What comes before the names: the root, a single dot, or nothing. -/
inductive Start where
  | root
  | here
  | nothing
  deriving DecidableEq, Repr

/-- The start of a path and the pieces behind it, without idle pieces at the end. -/
def body (path : String) : Start × List String :=
  if isAbsolute path then (.root, dropIdleEnd ((pieces path).drop 1))
  else
    match pieces path with
    | "." :: rest => (.here, dropIdleEnd rest)
    | names => (.nothing, dropIdleEnd names)

/-- Write a path from its start and its pieces. -/
def render : Start → List String → String
  | .root, names => "/" ++ Text.join "/" names
  | .here, names => Text.join "/" ("." :: names)
  | .nothing, names => Text.join "/" names

/-- The path of the directory that a path lies in.  A single name lies in the empty path; the root and
the empty path lie in none. -/
def parent? (path : String) : Option String :=
  match body path with
  | (start, names) =>
    match names.getLast?, start with
    | some _, start => some (render start (dropIdleEnd names.dropLast))
    | none, .here => some ""
    | none, _ => none

/-- The last name of a path, when it is the name of a file. -/
def fileName? (path : String) : Option String :=
  (body path).2.getLast?.bind fun name => if name = ".." then none else some name

/-- A path seen from a directory: an absolute path stays as it is. -/
def rebase (base path : String) : String :=
  if isAbsolute path || base == "" then path
  else if endsInSlash base then base ++ path
  else base ++ "/" ++ path

end Path

end KeyedReflection
