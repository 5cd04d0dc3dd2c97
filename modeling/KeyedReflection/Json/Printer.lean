import KeyedReflection.Json.Value
import KeyedReflection.Text.Quoted

/-!
# Writing JSON

Values are written in two layouts: compactly, without any white space, and with one item or member
to a line, indented by two spaces for each level.  Strings escape the quote, the backslash and the
controls below the space, and nothing else.

Each function writes in front of a given rest, in the same way in which a reader leaves the rest of what
it read, so that no text is written twice.
-/

namespace KeyedReflection
namespace Json

/-- The letter that stands for a character behind a backslash, if the character has one. -/
def escapeLetter? : Char → Option Char
  | '"' => some '"'
  | '\\' => some '\\'
  | '\x08' => some 'b'
  | '\t' => some 't'
  | '\n' => some 'n'
  | '\x0c' => some 'f'
  | '\r' => some 'r'
  | _ => none

/-- One character of a written string. -/
def writeCharacter (c : Char) (rest : List Char) : List Char :=
  match escapeLetter? c with
  | some letter => '\\' :: letter :: rest
  | none =>
    if c.toNat < 0x20 then
      '\\' :: 'u' :: '0' :: '0' :: Nat.digitChar (c.toNat / 16) :: Nat.digitChar (c.toNat % 16) :: rest
    else c :: rest

/-- A string between its quotes. -/
def writeString (s : String) (rest : List Char) : List Char :=
  '"' :: s.toList.foldr writeCharacter ('"' :: rest)

namespace Value

mutual

/-- The compact layout. -/
def writeCompact : Value → List Char → List Char
  | .null, rest => 'n' :: 'u' :: 'l' :: 'l' :: rest
  | .bool true, rest => 't' :: 'r' :: 'u' :: 'e' :: rest
  | .bool false, rest => 'f' :: 'a' :: 'l' :: 's' :: 'e' :: rest
  | .integer n, rest => (toString n).toList ++ rest
  | .double x, rest => x.render.toList ++ rest
  | .string s, rest => writeString s rest
  | .array items, rest => '[' :: writeCompactItems items (']' :: rest)
  | .object members, rest => '\x7b' :: writeCompactMembers members ('\x7d' :: rest)

/-- Items with commas between them. -/
def writeCompactItems : List Value → List Char → List Char
  | [], rest => rest
  | [item], rest => writeCompact item rest
  | item :: items, rest => writeCompact item (',' :: writeCompactItems items rest)

/-- Members with commas between them. -/
def writeCompactMembers : Members → List Char → List Char
  | [], rest => rest
  | [(name, value)], rest => writeString name (':' :: writeCompact value rest)
  | (name, value) :: members, rest =>
    writeString name (':' :: writeCompact value (',' :: writeCompactMembers members rest))

end

/-- A line break and the indentation of a level. -/
def breakLine (level : Nat) (rest : List Char) : List Char :=
  '\n' :: (List.replicate (2 * level) ' ' ++ rest)

mutual

/-- The indented layout of a value that stands at a level. -/
def writeIndented (level : Nat) : Value → List Char → List Char
  | .array (item :: items), rest =>
    '[' :: breakLine (level + 1) (writeIndented (level + 1) item
      (writeIndentedItems (level + 1) items (breakLine level (']' :: rest))))
  | .object ((name, value) :: members), rest =>
    '\x7b' :: breakLine (level + 1) (writeString name (':' :: ' ' ::
      writeIndented (level + 1) value
        (writeIndentedMembers (level + 1) members (breakLine level ('\x7d' :: rest)))))
  | value, rest => writeCompact value rest

/-- Further items, each after a comma and a line break. -/
def writeIndentedItems (level : Nat) : List Value → List Char → List Char
  | [], rest => rest
  | item :: items, rest =>
    ',' :: breakLine level (writeIndented level item (writeIndentedItems level items rest))

/-- Further members, each after a comma and a line break. -/
def writeIndentedMembers (level : Nat) : Members → List Char → List Char
  | [], rest => rest
  | (name, value) :: members, rest =>
    ',' :: breakLine level (writeString name (':' :: ' ' ::
      writeIndented level value (writeIndentedMembers level members rest)))

end

/-- The value without any white space. -/
def compact (value : Value) : String :=
  .ofList (value.writeCompact [])

/-- The value with two-space indentation. -/
def indented (value : Value) : String :=
  .ofList (value.writeIndented 0 [])

end Value
end Json
end KeyedReflection
