import KeyedReflection.Text.Basic

/-!
# Reports of a compiler

What a compiler reports is read line by line, with the severity that each message has.
-/

namespace KeyedReflection

/-!
## Severities

How grave a message is, from messages that are not shown up to those after which a compiler gives
up.  Extraction goes on after warnings and stops at errors.
-/

/-- How grave a message is. -/
inductive Severity where
  | ignored
  | note
  | warning
  | error
  | fatal
  deriving DecidableEq, Repr

namespace Severity

/-- The severity that a compiler's label names, white space around it left aside. -/
def ofLabel (label : String) : Option Severity :=
  match Text.trim label with
  | "ignored" => some .ignored
  | "note" => some .note
  | "remark" => some .note
  | "warning" => some .warning
  | "error" => some .error
  | "fatal error" => some .fatal
  | "fatal" => some .fatal
  | _ => none

/-- The one word for a severity. -/
def label : Severity → String
  | .ignored => "ignored"
  | .note => "note"
  | .warning => "warning"
  | .error => "error"
  | .fatal => "fatal"

/-- Whether records are not extracted after a message of this severity. -/
def stopsExtraction : Severity → Bool
  | .error => true
  | .fatal => true
  | _ => false

end Severity

/-!
## Messages of a compiler

A compiler reports line by line, in the form `file:line:column: label: message`.  A line without a
location, such as `error: no input files`, is a message too; a name in place of the location, as in
`clang: error: ...`, is the name of the tool and dropped.  All other lines are no messages.

The list of directories that a compiler searches for included files is read here as well.
-/

/-- A message with the place it is about; without a place the file is empty and the numbers are
zero. -/
structure CompilerMessage where
  severity : Severity
  file : String
  line : Nat
  column : Nat
  message : String
  deriving DecidableEq, Repr

namespace CompilerMessage

def render (m : CompilerMessage) : String :=
  "[clang:" ++ m.severity.label ++ "] " ++ m.file ++ ":" ++ toString m.line ++ ":" ++
    toString m.column ++ ": " ++ m.message

/-- The value of a run of decimal digits. -/
def decimalValue (digits : List Char) : Nat :=
  digits.foldl (fun value c => value * 10 + (c.toNat - '0'.toNat)) 0

/-- A line or column number: decimal digits, perhaps behind a plus sign, of a value that fits into
32 bits. -/
def readPlaceNumber (cs : List Char) : Option Nat :=
  let digits := match cs with
    | '+' :: rest => rest
    | _ => cs
  if digits ≠ [] ∧ digits.all Char.isDigit ∧ decimalValue digits < Nat.pow 2 32 then
    some (decimalValue digits)
  else none

/-- Cut a text at its last colon. -/
def cutLastColon (cs : List Char) : Option (List Char × List Char) :=
  (Text.Characters.cut [':'] cs.reverse).map fun (last, before) => (before.reverse, last.reverse)

/-- The file, line and column of a location. -/
def readPlace (location : List Char) : Option (String × Nat × Nat) :=
  match cutLastColon location with
  | none => none
  | some (location, column) =>
    match readPlaceNumber column, cutLastColon location with
    | some column, some (file, line) =>
      (readPlaceNumber line).map fun line => (String.ofList file, line, column)
    | _, _ => none

/-- What stands between a location and a message. -/
def mark : List Char := [':', ' ']

/-- A label and a message with `mark` between them. -/
def readLabelled (cs : List Char) : Option (Severity × String) :=
  match Text.Characters.cut mark cs with
  | none => none
  | some (label, message) =>
    (Severity.ofLabel (.ofList label)).map fun severity => (severity, String.ofList message)

/-- The first place in a line at which a label and a message follow; what precedes it is the
location.  The characters already passed are given last one first. -/
def readLocated (passed : List Char) : List Char → Option CompilerMessage
  | [] => none
  | ':' :: ' ' :: rest =>
    match readLabelled rest with
    | some (severity, message) =>
      let (file, line, column) := (readPlace passed.reverse).getD ("", 0, 0)
      some ⟨severity, file, line, column, message⟩
    | none => readLocated (' ' :: ':' :: passed) rest
  | c :: rest => readLocated (c :: passed) rest

/-- A message without a location: its label holds no colon. -/
def readBare (line : List Char) : Option CompilerMessage :=
  match Text.Characters.cut mark line with
  | none => none
  | some (label, message) =>
    if label.contains ':' then none
    else
      (Severity.ofLabel (.ofList label)).map fun severity =>
        ⟨severity, "", 0, 0, .ofList message⟩

def readLine (line : String) : Option CompilerMessage :=
  let line := Text.Characters.trimEnd line.toList
  match readLocated [] line with
  | some message => some message
  | none => readBare line

/-- The messages of a report, in order. -/
def readReport (report : String) : List CompilerMessage :=
  (Text.lines report).filterMap readLine

end CompilerMessage

/-! ### Included directories -/

/-- The directories that a compiler lists in its verbose report, between the first line that speaks
of inclusion and the line that ends the list. -/
def includeSearchList (report : String) : List String :=
  (((Text.lines report).dropWhile fun line => !Text.contains "#include" line).takeWhile
    fun line => !Text.contains "End of search list" line).filterMap fun line =>
      if line.toList.head? = some '#' then none
      else
        let path := Text.trim line
        some ((Text.dropEndMark " (framework directory)" path).getD path)

end KeyedReflection
