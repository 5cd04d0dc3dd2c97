/-!
# Where and why a text is not JSON

A reader that meets something it cannot accept stops with a `Fault`: the cause, and how many bytes
of the text had not been read at that moment.  Counting from the end lets every step of the reader
work on the rest of the text alone; `Fault.locate` turns the count into a line and a column once the
whole text is known.
-/

namespace KeyedReflection
namespace Json

/-- Why a text is not JSON. -/
inductive FaultCause where
  | endInValue
  | endInObject
  | endInList
  | endInString
  | expectedValue
  | expectedIdentifier
  | expectedColon
  | expectedCommaOrBrace
  | expectedCommaOrBracket
  | keyNotString
  | trailingComma
  | trailingCharacters
  | invalidNumber
  | invalidEscape
  | controlCharacter
  | loneSurrogate
  | unfinishedSurrogate
  | numberOutOfRange
  | tooDeep
  deriving DecidableEq, Repr

def FaultCause.message : FaultCause → String
  | .endInValue => "EOF while parsing a value"
  | .endInObject => "EOF while parsing an object"
  | .endInList => "EOF while parsing a list"
  | .endInString => "EOF while parsing a string"
  | .expectedValue => "expected value"
  | .expectedIdentifier => "expected ident"
  | .expectedColon => "expected `:`"
  | .expectedCommaOrBrace => "expected `,` or `\x7d`"
  | .expectedCommaOrBracket => "expected `,` or `]`"
  | .keyNotString => "key must be a string"
  | .trailingComma => "trailing comma"
  | .trailingCharacters => "trailing characters"
  | .invalidNumber => "invalid number"
  | .invalidEscape => "invalid escape"
  | .controlCharacter => "control character (\\u0000-\\u001F) found while parsing a string"
  | .loneSurrogate => "lone leading surrogate in hex escape"
  | .unfinishedSurrogate => "unexpected end of hex escape"
  | .numberOutOfRange => "number out of range"
  | .tooDeep => "recursion limit exceeded"

/-- The number of bytes in which a text is stored. -/
def byteCount (cs : List Char) : Nat :=
  cs.foldl (fun count c => count + c.utf8Size) 0

/-- A cause, and the number of bytes not read when it was met. -/
structure Fault where
  cause : FaultCause
  unread : Nat
  deriving DecidableEq, Repr

/-- A fault met with the whole of `rest` unread. -/
def Fault.before (cause : FaultCause) (rest : List Char) : Fault :=
  ⟨cause, byteCount rest⟩

/-- A fault at the first byte of `rest`, which counts as read; at the end of the text there is no
such byte. -/
def Fault.at (cause : FaultCause) (rest : List Char) : Fault :=
  ⟨cause, byteCount rest - 1⟩

/-- The line, counted from one, and the column after a number of bytes. -/
def positionAfter : Nat → List Char → Nat × Nat → Nat × Nat
  | _, [], position => position
  | bytes, c :: cs, (line, column) =>
    if bytes = 0 then (line, column)
    else if bytes < c.utf8Size then (line, column + bytes)
    else positionAfter (bytes - c.utf8Size) cs
      (if c = '\n' then (line + 1, 0) else (line, column + c.utf8Size))

/-- A cause with its line and column. -/
structure SyntaxError where
  cause : FaultCause
  line : Nat
  column : Nat
  deriving DecidableEq, Repr

/-- The line and column of a fault in a text. -/
def Fault.locate (fault : Fault) (text : List Char) : SyntaxError :=
  let (line, column) := positionAfter (byteCount text - fault.unread) text (1, 0)
  ⟨fault.cause, line, column⟩

/-- The words for an error, with its position. -/
def SyntaxError.message (error : SyntaxError) : String :=
  error.cause.message ++ " at line " ++ toString error.line ++ " column " ++ toString error.column

end Json
end KeyedReflection
