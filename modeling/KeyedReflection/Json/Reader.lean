import KeyedReflection.Json.Value
import KeyedReflection.Json.Scalar

/-!
# Reading JSON

`Value.parse` reads one value from a whole text.  The grammar is strict: no trailing commas, no
comments, member names are strings, and arrays and objects nest at most 127 deep.

`nextItem` and `nextMember` are the steps between the items of an array and the members of an
object.  They are public because a reader that expects a particular shape walks through a document
with the same steps and reports the same faults.
-/

namespace KeyedReflection
namespace Json

/-- How deep arrays and objects may nest. -/
def depthLimit : Nat := 127

/-- Move to the next item of an array: nothing when the closing bracket is next, which stays
unread. -/
def nextItem (isFirst : Bool) (cs : List Char) : Except Fault (Option (List Char)) :=
  match skipBlank cs with
  | [] => .error (.before .endInList [])
  | c :: rest =>
    if c = ']' then .ok none
    else if isFirst then .ok (some (c :: rest))
    else if c = ',' then
      match skipBlank rest with
      | [] => .error (.before .endInValue [])
      | ']' :: after => .error (.at .trailingComma (']' :: after))
      | next => .ok (some next)
    else .error (.at .expectedCommaOrBracket (c :: rest))

/-- Move behind the opening quote of the next member name of an object: nothing when the closing
brace is next, which stays unread. -/
def nextMember (isFirst : Bool) (cs : List Char) : Except Fault (Option (List Char)) :=
  match skipBlank cs with
  | [] => .error (.before .endInObject [])
  | c :: rest =>
    if c = '\x7d' then .ok none
    else if isFirst then
      if c = '"' then .ok (some rest) else .error (.at .keyNotString (c :: rest))
    else if c = ',' then
      match skipBlank rest with
      | [] => .error (.before .endInValue [])
      | '"' :: after => .ok (some after)
      | '\x7d' :: after => .error (.at .trailingComma ('\x7d' :: after))
      | next => .error (.at .keyNotString next)
    else .error (.at .expectedCommaOrBrace (c :: rest))

/-- Move behind the colon that follows a member name. -/
def skipColon (cs : List Char) : Except Fault (List Char) :=
  match skipBlank cs with
  | [] => .error (.before .endInObject [])
  | ':' :: rest => .ok rest
  | other => .error (.at .expectedColon other)

mutual

/-- Read a value.  The first argument bounds the number of steps, and the length of the text is
enough; the second is how many more levels may open. -/
def readValue : Nat → Nat → List Char → Step Value
  | 0, _, cs => .error (.before .endInValue cs)
  | steps + 1, depth, cs =>
    match skipBlank cs with
    | [] => .error (.before .endInValue [])
    | 'n' :: rest => (readKeyword ['u', 'l', 'l'] rest).map fun rest => (.null, rest)
    | 't' :: rest => (readKeyword ['r', 'u', 'e'] rest).map fun rest => (.bool true, rest)
    | 'f' :: rest => (readKeyword ['a', 'l', 's', 'e'] rest).map fun rest => (.bool false, rest)
    | '-' :: rest => readNumber true rest
    | '"' :: rest => (readStringWithin steps rest).map fun (s, rest) => (.string s, rest)
    | '[' :: rest =>
      match depth with
      | 0 => .error (.at .tooDeep ('[' :: rest))
      | depth + 1 => readItems steps depth true [] rest
    | '\x7b' :: rest =>
      match depth with
      | 0 => .error (.at .tooDeep ('\x7b' :: rest))
      | depth + 1 => readMembers steps depth true [] rest
    | c :: rest =>
      if c.isDigit then readNumber false (c :: rest) else .error (.at .expectedValue (c :: rest))

/-- Read the items of an array up to its closing bracket, after those already read. -/
def readItems : Nat → Nat → Bool → List Value → List Char → Step Value
  | 0, _, _, _, cs => .error (.before .endInList cs)
  | steps + 1, depth, isFirst, read, cs =>
    match nextItem isFirst cs with
    | .error fault => .error fault
    | .ok none => .ok (.array read.reverse, (skipBlank cs).drop 1)
    | .ok (some cs) =>
      match readValue steps depth cs with
      | .error fault => .error fault
      | .ok (item, rest) => readItems steps depth false (item :: read) rest

/-- Read the members of an object up to its closing brace, after those already read. -/
def readMembers : Nat → Nat → Bool → Members → List Char → Step Value
  | 0, _, _, _, cs => .error (.before .endInObject cs)
  | steps + 1, depth, isFirst, read, cs =>
    match nextMember isFirst cs with
    | .error fault => .error fault
    | .ok none => .ok (.object (Members.collect read.reverse), (skipBlank cs).drop 1)
    | .ok (some cs) =>
      match readStringWithin steps cs with
      | .error fault => .error fault
      | .ok (name, cs) =>
        match skipColon cs with
        | .error fault => .error fault
        | .ok cs =>
          match readValue steps depth cs with
          | .error fault => .error fault
          | .ok (value, rest) => readMembers steps depth false ((name, value) :: read) rest

end

/-- Accept the end of a text, where nothing but white space may be left. -/
def expectEnd (cs : List Char) : Except Fault Unit :=
  match skipBlank cs with
  | [] => .ok ()
  | rest => .error (.at .trailingCharacters rest)

/-- Read the one value that a text holds, nested down to a depth. -/
def readDocument (depth : Nat) (text : List Char) : Except Fault Value :=
  match readValue (2 * text.length + 2) depth text with
  | .error fault => .error fault
  | .ok (value, rest) => (expectEnd rest).map fun _ => value

/-- The value written in a text. -/
def Value.parse (text : String) : Except SyntaxError Value :=
  (readDocument depthLimit text.toList).mapError fun fault => fault.locate text.toList

end Json
end KeyedReflection
