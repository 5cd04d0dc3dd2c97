import KeyedReflection.Files.Path
import KeyedReflection.Files.FileSystem

/-!
# Hosts

The machine that commands work on, as operations of some monad and as a value.
-/

namespace KeyedReflection

/-!
## What commands ask of the machine

A command reads and writes files and runs a compiler.  All of that goes through a `Host`, which is
given the operations of some monad.  The same commands then work on the files of the machine and on a
file system that is a value (`Workspace`), about which statements can be proved.
-/

/-- What a program leaves when it has ended. -/
structure ProgramOutput where
  /-- The program ended without telling of a failure. -/
  succeeded : Bool
  output : String
  /-- What was written apart from the output, for messages. -/
  report : String
  deriving DecidableEq, Repr

/-- The operations of a machine. -/
structure Host (m : Type → Type) where
  readText : String → m (Except FileFault String)
  writeText : String → String → m (Except FileFault Unit)
  /-- Make a directory and the missing ones above it. -/
  makeDirectories : String → m (Except FileFault Unit)
  /-- The absolute path of an existing file or directory, without detours. -/
  canonicalPath : String → m (Except FileFault String)
  isDirectory : String → m Bool
  /-- Run a program with arguments. -/
  runProgram : String → List String → m (Except FileFault ProgramOutput)

/-!
## A host that is a value

A workspace is a file system and the calls of programs made so far.  What a program does is a function of
the text of its file, which may be that of no program.  A program sees the files and its arguments, and
does not change the files.
-/

/-- What a program does with its arguments in front of the files. -/
abbrev Program := FileSystem → List String → ProgramOutput

/-- The state of a machine as far as commands can tell. -/
structure Workspace where
  files : FileSystem
  /-- The arguments of every call of a program, the latest first. -/
  calls : List (List String)

namespace Workspace

/-- The most bytes that an argument of a program has. -/
def argumentLimit : Nat := 131071

/-- The text of the program of a given name.  A name without a slash is looked for in the directories of
the machine's programs, in which there is nothing but the directories themselves. -/
def findProgram (files : FileSystem) (name : String) : Except FileFault String :=
  if name.toList.contains '/' then
    match files.locate name with
    | .error fault => .error fault
    | .ok place =>
      match files.entry? place with
      | some (.executable text) => .ok text
      | _ => .error .permissionDenied
  else if name = "." ∨ name = ".." then .error .permissionDenied
  else if Path.isNameTooLong name then .error .nameTooLong
  else .error .notFound

/-- What to run for a program of a given name with some arguments. -/
def startProgram (programs : String → Option Program) (files : FileSystem) (name : String)
    (arguments : List String) : Except FileFault Program :=
  if (name :: arguments).any Path.holdsNul then .error .nulInArguments
  else
    match findProgram files name with
    | .error fault => .error fault
    | .ok text =>
      if arguments.any fun argument => argumentLimit < argument.utf8ByteSize then
        .error .argumentTooLong
      else
        match programs text with
        | some program => .ok program
        | none => .error .notAProgram

def run (programs : String → Option Program) (name : String) (arguments : List String)
    (workspace : Workspace) : Except FileFault ProgramOutput × Workspace :=
  match startProgram programs workspace.files name arguments with
  | .error fault => (.error fault, workspace)
  | .ok program =>
    (.ok (program workspace.files arguments),
      { workspace with calls := arguments :: workspace.calls })

def write (path text : String) (workspace : Workspace) : Except FileFault Unit × Workspace :=
  match workspace.files.writeText path text with
  | .ok files => (.ok (), { workspace with files })
  | .error fault => (.error fault, workspace)

def makeDirectories (path : String) (workspace : Workspace) : Except FileFault Unit × Workspace :=
  let (result, files) := workspace.files.makeDirectories path
  (result, { workspace with files })

/-- The host whose state is a workspace. -/
def host (programs : String → Option Program) : Host (StateM Workspace) where
  readText path := fun workspace => (workspace.files.readText path, workspace)
  writeText path text := write path text
  makeDirectories path := makeDirectories path
  canonicalPath path := fun workspace => (workspace.files.canonicalPath path, workspace)
  isDirectory path := fun workspace => (workspace.files.isDirectory path, workspace)
  runProgram name arguments := run programs name arguments

end Workspace

end KeyedReflection
