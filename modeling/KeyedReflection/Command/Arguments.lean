import KeyedReflection.SortedMap
import KeyedReflection.Text.Basic

/-!
# Command-line arguments

An option is written `--name value` or `--name=value`, and an option with a letter also `-L value`,
`-Lvalue` or `-L=value`.  A switch is an option without a value.  A value that starts with a hyphen is
mistaken for an option unless the option takes such values; a hyphen alone is a value.  Nothing but
options is accepted, and two hyphens by themselves only at the end.

`readOptions` takes arguments to the options given, in order, and refuses what is not an option.  How
often an option may be given, and which have to be, is for `OptionRule.arity` and the command to say.
-/

namespace KeyedReflection

/-- How often an option may be given, and whether it has a value. -/
inductive OptionArity where
  | switch
  | once
  | repeated
  deriving DecidableEq, Repr

/-- What is known of an option. -/
structure OptionRule where
  name : String
  letter : Option Char
  arity : OptionArity
  /-- An empty value is refused. -/
  isPath : Bool
  /-- Values may start with a hyphen. -/
  takesHyphens : Bool
  deriving DecidableEq, Repr

namespace OptionRule

def switch (name : String) : OptionRule :=
  ⟨name, none, .switch, false, false⟩

def text (name : String) : OptionRule :=
  ⟨name, none, .once, false, false⟩

def path (name : String) : OptionRule :=
  ⟨name, none, .once, true, false⟩

/-- An option for any number of texts. -/
def texts (name : String) : OptionRule :=
  ⟨name, none, .repeated, false, false⟩

end OptionRule

/-- Why arguments are refused. -/
inductive ArgumentFault where
  | noCommand
  | unknownCommand (name : String)
  | unexpected (argument : String)
  | missingValue (option : String)
  | unneededValue (option : String)
  | emptyPath (option : String)
  | givenTwice (option : String)
  | missingOption (option : String)
  | excluded (first second : String)
  | unknownKeyStyle (name : String)
  deriving DecidableEq, Repr

def ArgumentFault.message : ArgumentFault → String
  | .noCommand => "a command is required: export, generate, batch or diagnostics"
  | .unknownCommand name => "there is no command " ++ name
  | .unexpected argument => "unexpected argument " ++ argument
  | .missingValue option => "--" ++ option ++ " needs a value"
  | .unneededValue option => "--" ++ option ++ " takes no value"
  | .emptyPath option => "--" ++ option ++ " needs a path that is not empty"
  | .givenTwice option => "--" ++ option ++ " can be given only once"
  | .missingOption option => "--" ++ option ++ " is required"
  | .excluded first second => "--" ++ first ++ " cannot be used with --" ++ second
  | .unknownKeyStyle name => "there is no key style " ++ name

/-- An option as it was given; the value of a switch is empty. -/
structure GivenOption where
  name : String
  value : String
  deriving DecidableEq, Repr

/-- The forms in which an argument can be written. -/
inductive ArgumentForm where
  /-- Two hyphens by themselves. -/
  | terminator
  | long (name : String) (value : Option String)
  | short (letter : Char) (attached : List Char)
  | plain
  deriving DecidableEq, Repr

def ArgumentForm.of (argument : String) : ArgumentForm :=
  match argument.toList with
  | ['-', '-'] => .terminator
  | '-' :: '-' :: rest =>
    match Text.cut "=" (.ofList rest) with
    | some (name, value) => .long name (some value)
    | none => .long (.ofList rest) none
  | '-' :: letter :: attached => .short letter attached
  | _ => .plain

def ruleNamed (rules : List OptionRule) (name : String) : Option OptionRule :=
  rules.find? fun rule => rule.name == name

def ruleLettered (rules : List OptionRule) (letter : Char) : Option OptionRule :=
  rules.find? fun rule => rule.letter == some letter

/-- The value attached to a letter, with or without an equals sign. -/
def attachedValue : List Char → Option String
  | [] => none
  | '=' :: value => some (.ofList value)
  | value => some (.ofList value)

def giveAttached (rule : OptionRule) (value : String) : Except ArgumentFault GivenOption :=
  if rule.arity = .switch then .error (.unneededValue rule.name)
  else if rule.isPath ∧ value = "" then .error (.emptyPath rule.name)
  else .ok ⟨rule.name, value⟩

/-- The options that arguments give, in order. -/
def readOptions (rules : List OptionRule) : List String → Except ArgumentFault (List GivenOption)
  | [] => .ok []
  | argument :: rest =>
    /- An option without an attached value is a switch or takes the next argument. -/
    let detached (rule : OptionRule) : Except ArgumentFault (List GivenOption) :=
      if rule.arity = .switch then
        (readOptions rules rest).map fun later => ⟨rule.name, ""⟩ :: later
      else
        match rest with
        | [] => .error (.missingValue rule.name)
        | value :: rest =>
          if rule.takesHyphens ∨ ArgumentForm.of value = .plain then
            match giveAttached rule value with
            | .error fault => .error fault
            | .ok given => (readOptions rules rest).map fun later => given :: later
          else .error (.missingValue rule.name)
    let attached (rule : OptionRule) (value : String) : Except ArgumentFault (List GivenOption) :=
      match giveAttached rule value with
      | .error fault => .error fault
      | .ok given => (readOptions rules rest).map fun later => given :: later
    match ArgumentForm.of argument with
    | .terminator => if rest = [] then .ok [] else .error (.unexpected (rest.headD ""))
    | .plain => .error (.unexpected argument)
    | .long name value =>
      match ruleNamed rules name, value with
      | none, _ => .error (.unexpected argument)
      | some rule, none => detached rule
      | some rule, some value => attached rule value
    | .short letter characters =>
      match ruleLettered rules letter, attachedValue characters with
      | none, _ => .error (.unexpected argument)
      | some rule, none => detached rule
      | some rule, some value => attached rule value

/-! ## Looking at the options given -/

namespace GivenOption

/-- The values of an option, in order. -/
def values (given : List GivenOption) (name : String) : List String :=
  (given.filter fun option => option.name == name).map GivenOption.value

/-- The value of an option that is given once at most. -/
def value? (given : List GivenOption) (name : String) : Option String :=
  (values given name).head?

def has (given : List GivenOption) (name : String) : Bool :=
  (value? given name).isSome

/-- The value of an option that has to be given. -/
def required (given : List GivenOption) (name : String) : Except ArgumentFault String :=
  match value? given name with
  | some value => .ok value
  | none => .error (.missingOption name)

/-- The first option given more often than its rule allows. -/
def givenTwice? (rules : List OptionRule) (given : List GivenOption) : Option String :=
  (rules.find? fun rule =>
    rule.arity != .repeated && 1 < (values given rule.name).length).map OptionRule.name

end GivenOption
end KeyedReflection
