import KeyedReflection.Command.Basic

/-!
# The program

The commands on the files of the machine.  No other program is run from here, so that jobs with a schema
for their input are carried out and jobs with a source file fail where they ask for the compiler.
-/

namespace KeyedReflection

/-- The fault behind an error of the machine. -/
def faultOf : IO.Error → FileFault
  | .noFileOrDirectory .. => .notFound
  | .permissionDenied .. => .permissionDenied
  | .alreadyExists .. => .alreadyExists
  | .inappropriateType _ code _ => if code = 21 then .isADirectory else .notADirectory
  | .invalidArgument name code details =>
    if details = "name too long" then .nameTooLong
    else .other (toString (IO.Error.invalidArgument name code details))
  | error => .other (toString error)

/-- Do something on the machine and tell of the fault if it fails. -/
def attempt {α : Type} (operation : IO α) : IO (Except FileFault α) := do
  try
    let value ← operation
    pure (.ok value)
  catch error => pure (.error (faultOf error))

/-- Do something at a path that can be followed. -/
def attemptAt {α : Type} (path : String) (operation : String → IO α) : IO (Except FileFault α) :=
  match Path.usable path with
  | .error fault => pure (.error fault)
  | .ok path => attempt (operation path)

def machineHost : Host IO where
  readText path := attemptAt path fun path => IO.FS.readFile path
  writeText path text := attemptAt path fun path => IO.FS.writeFile path text
  makeDirectories path := attemptAt path fun path => IO.FS.createDirAll path
  canonicalPath path := attemptAt path fun path => do
    let found ← IO.FS.realPath path
    pure (toString found)
  isDirectory path := do
    match ← attemptAt path fun path => IO.FS.readFile (path ++ "/.") with
    | .error .isADirectory => pure true
    | _ => pure false
  runProgram _ _ := pure (.error (.other "programs are not run from here"))

end KeyedReflection

open KeyedReflection in
/-- Carry out the command that the arguments ask for. -/
def main (arguments : List String) : IO UInt32 := do
  match Command.parse arguments with
  | .error fault =>
    IO.eprintln fault.message
    pure 2
  | .ok command =>
    match ← (command.run machineHost).run with
    | .error failure =>
      IO.eprintln failure.report
      pure 1
    | .ok output =>
      IO.print output
      pure 0
