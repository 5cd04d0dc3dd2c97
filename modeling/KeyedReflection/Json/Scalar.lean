import KeyedReflection.Json.Fault
import KeyedReflection.Json.Value

/-!
# Reading keywords, numbers and strings

Each function takes the rest of a text and gives what it read together with what remains, or the
fault that stopped it.

Numbers are scanned before they are valued.  A number without fraction and exponent is a whole
number when it fits into 64 bits, signed or unsigned; every other number, and minus zero, is a
number of the binary format.  Its digits count as long as they fit into 64 bits; further digits only
move the decimal point.
-/

namespace KeyedReflection
namespace Json

/-- What a reading step gives. -/
abbrev Step (α : Type) := Except Fault (α × List Char)

/-- Drop the white space between tokens. -/
def skipBlank : List Char → List Char
  | [] => []
  | c :: cs =>
    if c = ' ' ∨ c = '\n' ∨ c = '\t' ∨ c = '\r' then skipBlank cs else c :: cs

/-- Read the rest of a keyword. -/
def readKeyword : List Char → List Char → Except Fault (List Char)
  | [], cs => .ok cs
  | _ :: _, [] => .error (.before .endInValue [])
  | k :: ks, c :: cs => if c = k then readKeyword ks cs else .error (.at .expectedIdentifier (c :: cs))

/-! ## Numbers -/

/-- A number as it is written. -/
structure Numeral where
  negative : Bool
  whole : List Char
  fraction : Option (List Char)
  /-- The sign of the exponent and its digits. -/
  exponent : Option (Bool × List Char)

/-- The fault of an unread place where a digit has to stand. -/
def missingDigit (rest : List Char) : Fault :=
  match rest with
  | [] => .before .endInValue []
  | _ :: _ => .at .invalidNumber rest

/-- Read the exponent of a number whose whole part and fraction have been read. -/
def readExponent (negative : Bool) (whole : List Char) (fraction : Option (List Char))
    (cs : List Char) : Step Numeral :=
  match cs with
  | c :: rest =>
    if c = 'e' ∨ c = 'E' then
      let (growing, digits) :=
        match rest with
        | '+' :: r => (true, r)
        | '-' :: r => (false, r)
        | r => (true, r)
      match digits.takeWhile Char.isDigit with
      | [] => .error (missingDigit digits)
      | places => .ok (⟨negative, whole, fraction, some (growing, places)⟩,
          digits.dropWhile Char.isDigit)
    else .ok (⟨negative, whole, fraction, none⟩, cs)
  | [] => .ok (⟨negative, whole, fraction, none⟩, [])

/-- Read the fraction of a number whose whole part has been read, and its exponent. -/
def readFraction (negative : Bool) (whole cs : List Char) : Step Numeral :=
  match cs with
  | '.' :: rest =>
    match rest.takeWhile Char.isDigit with
    | [] => .error (missingDigit rest)
    | places => readExponent negative whole (some places) (rest.dropWhile Char.isDigit)
  | _ => readExponent negative whole none cs

/-- Read a number behind its sign. -/
def readNumeral (negative : Bool) (cs : List Char) : Step Numeral :=
  match cs with
  | [] => .error (.before .endInValue [])
  | '0' :: rest =>
    match rest with
    | [] => readFraction negative ['0'] []
    | c :: _ =>
      if c.isDigit then .error (.at .invalidNumber rest) else readFraction negative ['0'] rest
  | c :: _ =>
    if c.isDigit then readFraction negative (cs.takeWhile Char.isDigit) (cs.dropWhile Char.isDigit)
    else .error (.at .invalidNumber cs)

def digitValue (c : Char) : Nat :=
  c.toNat - '0'.toNat

/-- The first number that does not fit into 64 bits. -/
def wordLimit : Nat := Nat.pow 2 64

/-- Take up digits as long as the number stays below the limit; the digits left over. -/
def takeDigits (limit : Nat) (value : Nat) : List Char → Nat × List Char
  | [] => (value, [])
  | c :: cs =>
    let next := value * 10 + digitValue c
    if next < limit then takeDigits limit next cs else (value, c :: cs)

/-- The greatest exponent that is counted exactly, plus one. -/
def exponentLimit : Nat := Nat.pow 2 31

/-- The value of a scanned number that is followed by `rest`. -/
def Numeral.value (numeral : Numeral) (rest : List Char) : Except Fault Value :=
  let (whole, moved) := takeDigits wordLimit 0 numeral.whole
  let outOfRange (unread : Nat) : Except Fault Value := .error ⟨.numberOutOfRange, unread⟩
  let rounded (digits : Nat) (power : Int) : Except Fault Value :=
    match Binary64.ofDecimal numeral.negative digits power with
    | some x => .ok (.double x)
    | none => outOfRange (byteCount rest)
  match numeral.fraction, numeral.exponent, moved with
  | none, none, [] =>
    if !numeral.negative then .ok (.integer whole)
    else if whole = 0 ∨ Nat.pow 2 63 < whole then rounded whole 0
    else .ok (.integer (-(whole : Int)))
  | fraction, exponent, _ =>
    let places := fraction.getD []
    let (digits, unused) := takeDigits wordLimit whole places
    let power : Int := (moved.length : Int) - (places.length - unused.length : Nat)
    match exponent with
    | none => rounded digits power
    | some (growing, written) =>
      match takeDigits exponentLimit 0 written with
      | (size, []) => rounded digits (if growing then power + size else power - size)
      | (_, excess) =>
        if digits ≠ 0 ∧ growing then outOfRange (byteCount rest + excess.length - 1)
        else .ok (.double (.zero numeral.negative))

/-- Read a number behind its sign and value it. -/
def readNumber (negative : Bool) (cs : List Char) : Step Value :=
  match readNumeral negative cs with
  | .ok (numeral, rest) => (numeral.value rest).map fun value => (value, rest)
  | .error fault => .error fault

/-! ## Strings -/

/-- The value of a hexadecimal digit. -/
def hexValue (c : Char) : Option Nat :=
  if c.isDigit then some (c.toNat - '0'.toNat)
  else if 'a' ≤ c ∧ c ≤ 'f' then some (c.toNat - 'a'.toNat + 10)
  else if 'A' ≤ c ∧ c ≤ 'F' then some (c.toNat - 'A'.toNat + 10)
  else none

/-- The fault of an escape whose four hexadecimal digits are not all there.  Four bytes are read before
they are looked at. -/
def missingHex (cs : List Char) : Fault :=
  if byteCount cs < 4 then .before .endInString [] else ⟨.invalidEscape, byteCount cs - 4⟩

/-- Read the four hexadecimal digits of an escape. -/
def readUnit (cs : List Char) : Step Nat :=
  match cs with
  | a :: b :: c :: d :: rest =>
    match hexValue a, hexValue b, hexValue c, hexValue d with
    | some a, some b, some c, some d => .ok (((a * 16 + b) * 16 + c) * 16 + d, rest)
    | _, _, _, _ => .error (missingHex cs)
  | _ => .error (missingHex cs)

/-- Whether the unit is the first of a surrogate pair. -/
def isLeadingUnit (n : Nat) : Bool := 0xD800 ≤ n && n ≤ 0xDBFF

/-- Whether the unit is the second of a surrogate pair. -/
def isTrailingUnit (n : Nat) : Bool := 0xDC00 ≤ n && n ≤ 0xDFFF

/-- Read the second unit of a surrogate pair, with the backslash before it. -/
def readTrailingUnit (leading : Nat) (cs : List Char) : Step Char :=
  match cs with
  | [] => .error (.before .endInString [])
  | '\\' :: [] => .error (.before .endInString [])
  | '\\' :: 'u' :: rest =>
    match readUnit rest with
    | .ok (trailing, rest) =>
      if isTrailingUnit trailing then
        .ok (Char.ofNat (0x10000 + (leading - 0xD800) * 0x400 + (trailing - 0xDC00)), rest)
      else .error (.before .loneSurrogate rest)
    | .error fault => .error fault
  | '\\' :: rest => .error (.at .unfinishedSurrogate rest)
  | _ => .error (.at .unfinishedSurrogate cs)

/-- Read an escape behind its backslash. -/
def readEscape (cs : List Char) : Step Char :=
  match cs with
  | [] => .error (.before .endInString [])
  | '"' :: rest => .ok ('"', rest)
  | '\\' :: rest => .ok ('\\', rest)
  | '/' :: rest => .ok ('/', rest)
  | 'b' :: rest => .ok ('\x08', rest)
  | 'f' :: rest => .ok ('\x0c', rest)
  | 'n' :: rest => .ok ('\n', rest)
  | 'r' :: rest => .ok ('\r', rest)
  | 't' :: rest => .ok ('\t', rest)
  | 'u' :: rest =>
    match readUnit rest with
    | .ok (unit, rest) =>
      if isTrailingUnit unit then .error (.before .loneSurrogate rest)
      else if isLeadingUnit unit then readTrailingUnit unit rest
      else .ok (Char.ofNat unit, rest)
    | .error fault => .error fault
  | _ => .error (.at .invalidEscape cs)

/-- Read the characters of a string up to its closing quote.  The number of steps is bounded by the
first argument, for which the length of the text is enough. -/
def readCharacters : Nat → List Char → List Char → Step (List Char)
  | 0, _, cs => .error (.before .endInString cs)
  | steps + 1, read, cs =>
    match cs with
    | [] => .error (.before .endInString [])
    | '"' :: rest => .ok (read.reverse, rest)
    | '\\' :: rest =>
      match readEscape rest with
      | .ok (c, rest) => readCharacters steps (c :: read) rest
      | .error fault => .error fault
    | c :: rest =>
      if c.toNat < 0x20 then .error (.before .controlCharacter rest)
      else readCharacters steps (c :: read) rest

/-- Read a string behind its opening quote, in a number of steps that is large enough for the text. -/
def readStringWithin (steps : Nat) (cs : List Char) : Step String :=
  match readCharacters steps [] cs with
  | .ok (read, rest) => .ok (.ofList read, rest)
  | .error fault => .error fault

/-- Read a string behind its opening quote. -/
def readString (cs : List Char) : Step String :=
  readStringWithin (cs.length + 1) cs

end Json
end KeyedReflection
