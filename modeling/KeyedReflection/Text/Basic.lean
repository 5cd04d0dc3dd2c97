/-!
# Cutting text

Everything the library reads arrives as text: type spellings, dotted paths, specs, comments and
compiler reports.  This module holds the few ways in which such text is cut up.  Each operation is
a function on lists of characters, in the namespace `Characters`, so that it can be reasoned about
by induction, and a function of the same name on `String` that the rest of the library calls.

* White space is Unicode's property `White_Space`.
* A line ends at a line feed; one carriage return directly before that line feed belongs to the
  line break and not to the line.
* A cut is always made at the first occurrence of its mark.
-/

namespace KeyedReflection
namespace Text

/-- The characters with Unicode's property `White_Space`. -/
def isBlank (c : Char) : Bool :=
  let n := c.toNat
  (9 ≤ n && n ≤ 13) || n == 0x20 || n == 0x85 || n == 0xA0 || n == 0x1680 ||
    (0x2000 ≤ n && n ≤ 0x200A) || n == 0x2028 || n == 0x2029 || n == 0x202F || n == 0x205F ||
    n == 0x3000

/-- The letters, the digits and the underscore of ASCII: the characters of an identifier. -/
def isWordCharacter (c : Char) : Bool :=
  c == '_' || c.isAlphanum

namespace Characters

/-- Drop the white space in front. -/
def trimStart (cs : List Char) : List Char :=
  cs.dropWhile isBlank

/-- Drop the white space at the end. -/
def trimEnd (cs : List Char) : List Char :=
  (cs.reverse.dropWhile isBlank).reverse

/-- Drop the white space at both ends. -/
def trim (cs : List Char) : List Char :=
  trimEnd (trimStart cs)

/-- What follows `mark`, when the text starts with it. -/
def dropMark : List Char → List Char → Option (List Char)
  | [], cs => some cs
  | _ :: _, [] => none
  | m :: mark, c :: cs => if m = c then dropMark mark cs else none

/-- What precedes `mark`, when the text ends with it. -/
def dropEndMark (mark cs : List Char) : Option (List Char) :=
  (dropMark mark.reverse cs.reverse).map List.reverse

/-- The text before the first occurrence of `mark` and the text after it. -/
def cut (mark : List Char) : List Char → Option (List Char × List Char)
  | [] => if mark = [] then some ([], []) else none
  | c :: cs =>
    match dropMark mark (c :: cs) with
    | some rest => some ([], rest)
    | none => (cut mark cs).map fun (before, rest) => (c :: before, rest)

/-- Whether `mark` occurs somewhere in the text. -/
def contains (mark cs : List Char) : Bool :=
  (cut mark cs).isSome

/-- The lines of a text.  A last line without a line feed counts when it is not empty. -/
def lines : List Char → List (List Char)
  | [] => []
  | '\n' :: cs => [] :: lines cs
  | '\r' :: '\n' :: cs => [] :: lines cs
  | c :: cs =>
    match lines cs with
    | [] => [[c]]
    | line :: rest => (c :: line) :: rest

/-- The pieces between double colons, which are looked for from the left and do not overlap. -/
def splitScopes : List Char → List (List Char)
  | [] => [[]]
  | ':' :: ':' :: cs => [] :: splitScopes cs
  | c :: cs =>
    match splitScopes cs with
    | [] => [[c]]
    | piece :: rest => (c :: piece) :: rest

/-- The pieces between occurrences of one character; a text without it is a single piece. -/
def splitOn (mark : Char) : List Char → List (List Char)
  | [] => [[]]
  | c :: cs =>
    if c = mark then [] :: splitOn mark cs
    else
      match splitOn mark cs with
      | [] => [[c]]
      | piece :: rest => (c :: piece) :: rest

end Characters

def trimStart (s : String) : String :=
  .ofList (Characters.trimStart s.toList)

def trimEnd (s : String) : String :=
  .ofList (Characters.trimEnd s.toList)

def trim (s : String) : String :=
  .ofList (Characters.trim s.toList)

def dropMark (mark s : String) : Option String :=
  (Characters.dropMark mark.toList s.toList).map .ofList

def dropEndMark (mark s : String) : Option String :=
  (Characters.dropEndMark mark.toList s.toList).map .ofList

def cut (mark s : String) : Option (String × String) :=
  (Characters.cut mark.toList s.toList).map fun (before, rest) =>
    (String.ofList before, String.ofList rest)

def contains (mark s : String) : Bool :=
  Characters.contains mark.toList s.toList

def lines (s : String) : List String :=
  (Characters.lines s.toList).map .ofList

/-- The pieces between double colons. -/
def splitScopes (s : String) : List String :=
  (Characters.splitScopes s.toList).map .ofList

/-- The pieces between occurrences of one character. -/
def splitOn (mark : Char) (s : String) : List String :=
  (Characters.splitOn mark s.toList).map .ofList

/-- Put `separator` between the pieces. -/
def join (separator : String) (pieces : List String) : String :=
  separator.intercalate pieces

/-- Put `next` behind `before`, with a separator in between unless nothing precedes. -/
def joinAfter (separator before next : String) : String :=
  if before = "" then next else before ++ separator ++ next

/-- Whether the text is an identifier: a letter or an underscore, then letters, digits and
underscores, all of them ASCII. -/
def isIdentifier (s : String) : Bool :=
  match s.toList with
  | [] => false
  | c :: cs => (c == '_' || c.isAlpha) && cs.all isWordCharacter

/-- The bytes of the UTF-8 form of a text. -/
def utf8 (s : String) : List UInt8 :=
  s.toList.flatMap String.utf8EncodeChar

end Text
end KeyedReflection
