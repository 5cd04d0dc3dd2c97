import KeyedReflection.Command.Arguments
import KeyedReflection.Command.Manifest
import KeyedReflection.Schema.Export

/-!
# Commands

There are four commands: to export the records of a source file as a schema, to generate the units of
one record, to run the jobs of a manifest, and to list all diagnostics.  `Command.parse` takes them from
arguments, and `Command.run` carries them out on a host.  What a command prints is its result.
-/

namespace KeyedReflection

structure ExportRequest where
  source : String
  pattern : String
  /-- The schema is printed when no file is named. -/
  target : Option String
  withKeys : Bool
  separator : String
  overrides : List String
  keyStyle : Option KeyStyle
  frontEnd : FrontEnd
  deriving DecidableEq, Repr

/-- What can be asked of the program. -/
inductive Command where
  | exportSchema (request : ExportRequest)
  | generate (job : Job) (check : Bool)
  | batch (manifest : String) (check : Bool)
  | diagnostics
  deriving DecidableEq, Repr

namespace Command

/-! ## Reading commands from arguments -/

/-- The options that go with every command. -/
def commonOptions : List OptionRule :=
  [.switch "log-json"]

/-- The options about keys. -/
def keyOptions : List OptionRule :=
  [.text "key-sep", .texts "key", .text "key-style"]

/-- The options about the compiler. -/
def frontEndOptions : List OptionRule :=
  [.text "compiler", ⟨"compiler-arg", none, .repeated, false, true⟩,
    ⟨"include-dir", some 'I', .repeated, true, false⟩, .switch "no-default-includes"]

def exportOptions : List OptionRule :=
  [.path "source", .text "struct", .path "out-json", .switch "with-keys"] ++ keyOptions ++
    frontEndOptions ++ commonOptions

def generateOptions : List OptionRule :=
  [.path "source", .path "schema", .text "struct", .path "header", .path "impl", .texts "include",
    .text "header-include", .texts "parse", .texts "format", .switch "banner-input",
    .switch "check"] ++ keyOptions ++ frontEndOptions ++ commonOptions

def batchOptions : List OptionRule :=
  [.path "manifest", .switch "check"] ++ commonOptions

/-- The options that arguments give, each as often as it may be given. -/
def givenOptions (rules : List OptionRule) (arguments : List String) :
    Except ArgumentFault (List GivenOption) := do
  let given ← readOptions rules arguments
  match GivenOption.givenTwice? rules given with
  | some name => .error (.givenTwice name)
  | none => .ok given

open GivenOption

def givenKeyStyle (given : List GivenOption) : Except ArgumentFault (Option KeyStyle) :=
  match value? given "key-style" with
  | none => .ok none
  | some name =>
    match KeyStyle.ofName? name with
    | some style => .ok (some style)
    | none => .error (.unknownKeyStyle name)

def givenFrontEnd (given : List GivenOption) : FrontEnd where
  compiler := (value? given "compiler").getD defaultCompiler
  arguments := values given "compiler-arg"
  includeDirectories := values given "include-dir"
  noDefaultIncludes := has given "no-default-includes"

/-- The export that arguments ask for. -/
def parseExport (arguments : List String) : Except ArgumentFault Command := do
  let given ← givenOptions exportOptions arguments
  let source ← required given "source"
  let pattern ← required given "struct"
  let keyStyle ← givenKeyStyle given
  pure (.exportSchema
    { source
      pattern
      target := value? given "out-json"
      withKeys := has given "with-keys"
      separator := (value? given "key-sep").getD defaultSeparator
      overrides := values given "key"
      keyStyle
      frontEnd := givenFrontEnd given })

/-- The generation that arguments ask for.  Its input is a source or a schema. -/
def parseGenerate (arguments : List String) : Except ArgumentFault Command := do
  let given ← givenOptions generateOptions arguments
  let pattern ← required given "struct"
  let header ← required given "header"
  let implementation ← required given "impl"
  let keyStyle ← givenKeyStyle given
  match value? given "source", value? given "schema" with
  | some _, some _ => .error (.excluded "source" "schema")
  | none, none => .error (.missingOption "source")
  | source, schema =>
    pure (.generate
      { source
        schema
        pattern
        header
        implementation
        includes := values given "include"
        headerInclude := value? given "header-include"
        parsers := values given "parse"
        formatters := values given "format"
        separator := (value? given "key-sep").getD defaultSeparator
        overrides := values given "key"
        keyStyle
        frontEnd := givenFrontEnd given
        bannerInput := has given "banner-input" }
      (has given "check"))

/-- The batch that arguments ask for. -/
def parseBatch (arguments : List String) : Except ArgumentFault Command := do
  let given ← givenOptions batchOptions arguments
  let manifest ← required given "manifest"
  pure (.batch manifest (has given "check"))

def parseNamed (name : String) (arguments : List String) : Except ArgumentFault Command :=
  match name with
  | "export" => parseExport arguments
  | "generate" => parseGenerate arguments
  | "batch" => parseBatch arguments
  | "diagnostics" => (givenOptions commonOptions arguments).map fun _ => .diagnostics
  | _ => .error (.unknownCommand name)

/-- The command that arguments ask for.  The options that go with every command may also precede its
name. -/
def parse (arguments : List String) : Except ArgumentFault Command :=
  match arguments with
  | [] => .error .noCommand
  | ["--log-json"] => .error .noCommand
  | "--log-json" :: name :: rest =>
    if name = "--log-json" then .error (.givenTwice "log-json") else parseNamed name rest
  | name :: rest => parseNamed name rest

/-! ## Carrying commands out -/

variable {m : Type → Type} [Monad m]

/-- The text of the schema that a request asks for. -/
def renderSchema (host : Host m) (request : ExportRequest) : Action m String := do
  let source ← readSource host request.frontEnd request.source
  let records ← Action.ofGeneration (source.findRecords request.pattern)
  if records.isEmpty then Action.fail (.nothingToExport request.pattern request.source)
  else do
    let overrides ← Action.ofGeneration
      ((KeyOverrides.ofSpecs request.overrides).mapError .invalidOverride)
    let options : ExportOptions :=
      ⟨request.withKeys, request.separator, request.keyStyle, overrides⟩
    let document ← Action.ofGeneration
      ((Schema.ofRecords records options).mapError .duplicateKey)
    pure (Schema.render document)

/-- Export a schema: print it, or write it to the file that is named. -/
def runExport (host : Host m) (request : ExportRequest) : Action m String := do
  let text ← renderSchema host request
  match request.target with
  | none => pure text
  | some path => do
    Action.ofFile (.writingSchema path) (host.writeText path text)
    pure ""

/-- Carry out a command; the result is what it prints. -/
def run (host : Host m) (command : Command) : Action m String :=
  match command with
  | .exportSchema request => runExport host request
  | .generate job check => do
    job.run host check
    pure ""
  | .batch manifest check => do
    Manifest.run host check manifest
    pure ""
  | .diagnostics => pure DiagnosticCode.catalog

end Command
end KeyedReflection
