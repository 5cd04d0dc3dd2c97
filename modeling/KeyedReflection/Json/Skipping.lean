import KeyedReflection.Json.Scalar

/-!
# Passing over values

A reader that expects a particular shape may have no use for a member.  Its value is passed over: it has
to be JSON as far as its brackets, marks and letters go, but numbers are not valued, escapes need not
stand for characters, and there is no limit to nesting.

Inside a value that is passed over, a comma is taken to announce another item, so that what is missing
behind it is missed as an item and not as a closing bracket.
-/

namespace KeyedReflection
namespace Json

/-- Pass over a run of digits that holds at least one. -/
def skipDigits (cs : List Char) : Except Fault (List Char) :=
  match cs with
  | c :: rest =>
    if c.isDigit then .ok (rest.dropWhile Char.isDigit) else .error (.at .invalidNumber cs)
  | [] => .error (.before .invalidNumber [])

/-- Pass over an exponent behind its letter. -/
def skipExponent (cs : List Char) : Except Fault (List Char) :=
  match cs with
  | '+' :: rest => skipDigits rest
  | '-' :: rest => skipDigits rest
  | _ => skipDigits cs

/-- Pass over what may follow the whole part or the fraction of a number. -/
def skipOptionalExponent (cs : List Char) : Except Fault (List Char) :=
  match cs with
  | c :: rest => if c = 'e' ∨ c = 'E' then skipExponent rest else .ok cs
  | [] => .ok []

/-- Pass over the fraction of a number and its exponent, as far as there are any. -/
def skipFraction (cs : List Char) : Except Fault (List Char) :=
  match cs with
  | '.' :: rest =>
    match skipDigits rest with
    | .error fault => .error fault
    | .ok rest => skipOptionalExponent rest
  | _ => skipOptionalExponent cs

/-- Pass over a number behind its sign. -/
def skipNumber (cs : List Char) : Except Fault (List Char) :=
  match cs with
  | '0' :: c :: rest =>
    if c.isDigit then .error (.at .invalidNumber (c :: rest)) else skipFraction (c :: rest)
  | _ =>
    match skipDigits cs with
    | .error fault => .error fault
    | .ok rest => skipFraction rest

/-- Pass over an escape behind its backslash. -/
def skipEscape (cs : List Char) : Except Fault (List Char) :=
  match cs with
  | [] => .error (.before .endInString [])
  | 'u' :: rest => (readUnit rest).map Prod.snd
  | c :: rest =>
    if c ∈ ['"', '\\', '/', 'b', 'f', 'n', 'r', 't'] then .ok rest
    else .error (.at .invalidEscape cs)

/-- Pass over a string up to its closing quote.  The number of steps is bounded by the first argument,
for which the length of the text is enough. -/
def skipCharacters : Nat → List Char → Except Fault (List Char)
  | 0, cs => .error (.before .endInString cs)
  | steps + 1, cs =>
    match cs with
    | [] => .error (.before .endInString [])
    | '"' :: rest => .ok rest
    | '\\' :: rest =>
      match skipEscape rest with
      | .ok rest => skipCharacters steps rest
      | .error fault => .error fault
    | c :: rest =>
      if c.toNat < 0x20 then .error (.before .controlCharacter rest) else skipCharacters steps rest

/-- Pass over the name of a member and the colon behind it, in a number of steps that is large enough
for the text. -/
def skipName (steps : Nat) (cs : List Char) : Except Fault (List Char) :=
  match skipBlank cs with
  | '"' :: rest =>
    match skipCharacters steps rest with
    | .error fault => .error fault
    | .ok rest =>
      match skipBlank rest with
      | [] => .error (.before .endInObject [])
      | ':' :: rest => .ok rest
      | other => .error (.at .expectedColon other)
  | [] => .error (.before .endInObject [])
  | other => .error (.at .keyNotString other)

mutual

/-- Pass over a value.  The first argument bounds the number of steps. -/
def skipValueWithin : Nat → List Char → Except Fault (List Char)
  | 0, cs => .error (.before .endInValue cs)
  | steps + 1, cs =>
    match skipBlank cs with
    | [] => .error (.before .endInValue [])
    | 'n' :: rest => readKeyword ['u', 'l', 'l'] rest
    | 't' :: rest => readKeyword ['r', 'u', 'e'] rest
    | 'f' :: rest => readKeyword ['a', 'l', 's', 'e'] rest
    | '-' :: rest => skipNumber rest
    | '"' :: rest => skipCharacters steps rest
    | '[' :: rest =>
      match skipBlank rest with
      | [] => .error (.before .endInList [])
      | ']' :: rest => .ok rest
      | rest => skipItemsWithin steps rest
    | '\x7b' :: rest =>
      match skipBlank rest with
      | [] => .error (.before .endInObject [])
      | '\x7d' :: rest => .ok rest
      | rest => skipMembersWithin steps rest
    | c :: rest =>
      if c.isDigit then skipNumber (c :: rest) else .error (.at .expectedValue (c :: rest))

/-- Pass over the items of an array that is not empty, and its closing bracket. -/
def skipItemsWithin : Nat → List Char → Except Fault (List Char)
  | 0, cs => .error (.before .endInList cs)
  | steps + 1, cs =>
    match skipValueWithin steps cs with
    | .error fault => .error fault
    | .ok rest =>
      match skipBlank rest with
      | [] => .error (.before .endInList [])
      | ']' :: rest => .ok rest
      | ',' :: rest => skipItemsWithin steps rest
      | other => .error (.at .expectedCommaOrBracket other)

/-- Pass over the members of an object that is not empty, and its closing brace. -/
def skipMembersWithin : Nat → List Char → Except Fault (List Char)
  | 0, cs => .error (.before .endInObject cs)
  | steps + 1, cs =>
    match skipName steps cs with
    | .error fault => .error fault
    | .ok cs =>
      match skipValueWithin steps cs with
      | .error fault => .error fault
      | .ok rest =>
        match skipBlank rest with
        | [] => .error (.before .endInObject [])
        | '\x7d' :: rest => .ok rest
        | ',' :: rest => skipMembersWithin steps rest
        | other => .error (.at .expectedCommaOrBrace other)

end

/-- Pass over a value. -/
def skipValue (cs : List Char) : Except Fault (List Char) :=
  skipValueWithin (2 * cs.length + 2) cs

end Json
end KeyedReflection
