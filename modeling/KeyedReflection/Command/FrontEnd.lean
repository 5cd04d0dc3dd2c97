import KeyedReflection.Command.Failure
import KeyedReflection.Generation.Basic
import KeyedReflection.Host.Workspace

/-!
# Declarations from a compiler

The declarations of a source file come from a compiler, which is run twice: once to learn in which
directories it looks for included files, unless that is declined, and once to dump the declarations.
When it does not run the first time, the list of directories is empty; when the second run fails, so
does the command.
-/

namespace KeyedReflection

/-- How the compiler is run. -/
structure FrontEnd where
  compiler : String
  /-- When there are none, the compiler is told to read C++. -/
  arguments : List String
  includeDirectories : List String
  noDefaultIncludes : Bool
  deriving DecidableEq, Repr

/-- The compiler that is run when no other is asked for. -/
def defaultCompiler : String := "clang"

namespace FrontEnd

/-- The arguments with which both runs go. -/
def givenArguments (frontEnd : FrontEnd) : List String :=
  if frontEnd.arguments = [] then ["-xc++"] else frontEnd.arguments

/-- The arguments of the run that lists directories. -/
def listArguments (frontEnd : FrontEnd) : List String :=
  ["-E", "-v"] ++ frontEnd.givenArguments ++ ["-"]

/-- The arguments of the run that dumps the declarations of a source file. -/
def dumpArguments (frontEnd : FrontEnd) (directories : List String) (path : String) : List String :=
  ["-Xclang", "-ast-dump=json", "-fsyntax-only", "-fno-color-diagnostics"] ++
    frontEnd.givenArguments ++ directories.map (fun directory => "-I" ++ directory) ++ [path]

/-- The declarations in what the compiler left after it read the source file at an absolute path. -/
def readOutput (compiler path : String) (left : ProgramOutput) :
    Except GenerationError DeclarationTree :=
  let messages := CompilerMessage.readReport left.report
  if messages.any fun message => message.severity.stopsExtraction then
    .error (.parseFailed path messages)
  else if !left.succeeded then .error (.frontEnd (.failed compiler path left.report))
  else
    match Json.Value.parse left.output with
    | .error error => .error (.frontEnd (.undecodable path error))
    | .ok value => .ok ⟨Declaration.ofValue value, some path⟩

variable {m : Type → Type} [Monad m]

/-- A directory by its absolute path, if it exists. -/
def existing (host : Host m) (path : String) : m (Option String) := do
  if ← host.isDirectory path then
    match ← host.canonicalPath path with
    | .ok found => pure (some found)
    | .error _ => pure (some path)
  else pure none

/-- The directories in which the compiler looks for included files of its own accord. -/
def defaultIncludes (host : Host m) (frontEnd : FrontEnd) : m (List String) := do
  match ← host.runProgram frontEnd.compiler frontEnd.listArguments with
  | .error _ => pure []
  | .ok left => (includeSearchList (left.output ++ left.report)).filterMapM (existing host)

/-- All directories in which included files are looked for. -/
def directories (host : Host m) (frontEnd : FrontEnd) : m (List String) :=
  if frontEnd.noDefaultIncludes then pure frontEnd.includeDirectories
  else do
    let defaults ← frontEnd.defaultIncludes host
    pure (frontEnd.includeDirectories ++ defaults)

/-- The declarations of the source file at a path. -/
def declarations (host : Host m) (frontEnd : FrontEnd) (path : String) :
    m (Except GenerationError DeclarationTree) := do
  let directories ← frontEnd.directories host
  match ← host.canonicalPath path with
  | .error fault => pure (.error (.io fault))
  | .ok path =>
    match ← host.runProgram frontEnd.compiler (frontEnd.dumpArguments directories path) with
    | .error fault => pure (.error (.frontEnd (.notRun frontEnd.compiler path fault)))
    | .ok left => pure (readOutput frontEnd.compiler path left)

end FrontEnd
end KeyedReflection
