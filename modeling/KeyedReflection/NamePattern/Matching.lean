import KeyedReflection.NamePattern.Basic
import KeyedReflection.Text.Basic

/-!
# Matching names

A pattern matches the bytes of a name in UTF-8, and it has to match all of them.  Matching starts at
the place in front of the name and carries a set of places through the tokens of the pattern: the
places that the tokens so far can end at.  A token maps a whole set at once, in a time that is linear in
the length of the name, so that neither stars nor choices multiply.
-/

namespace KeyedReflection
namespace PatternToken

/-- A set of places in a name: a mark for the place in front of each byte, and one for the end. -/
abbrev Places := List Bool

/-- The byte of a slash. -/
def slash : UInt8 := 0x2F

/-- The bytes covered by a range of characters: the range itself between two ASCII characters.  A
longer character puts in its bytes one by one, and the range spans from the last byte of its first
character to the first byte of its last. -/
def rangeCovers (byte : UInt8) (range : Char × Char) : Bool :=
  let first := String.utf8EncodeChar range.1
  let last := String.utf8EncodeChar range.2
  if range.1 = range.2 then first.contains byte
  else
    first.dropLast.contains byte || (last.drop 1).contains byte ||
      (first.getLastD 0 ≤ byte && byte ≤ last.headD 0)

/-- The places in one of two sets. -/
def union (first second : Places) : Places :=
  List.zipWith (fun a b => a || b) first second

/-- The places behind a byte that qualifies, where the place in front of it is in the set. -/
def afterByte (qualifies : UInt8 → Bool) (name : List UInt8) (places : Places) : Places :=
  false :: List.zipWith (fun mark byte => mark && qualifies byte) places name

/-- Every place from some place of the set on.  The first argument tells whether such a place was
passed already. -/
def spread : Bool → Places → Places
  | _, [] => []
  | passed, mark :: marks => (passed || mark) :: spread (passed || mark) marks

/-- The places of a set, and behind them the places that follow a slash. -/
def afterFolders (name : List UInt8) (places : Places) : Places :=
  union places (afterByte (fun byte => byte = slash) name (spread false places))

mutual

/-- A token that can stand only for nothing, because it is a choice without a branch that says
anything. -/
def isBlank : PatternToken → Bool
  | .choice branches => branchesBlank branches
  | _ => false

/-- A branch made of such tokens. -/
def tokensBlank : List PatternToken → Bool
  | [] => true
  | token :: tokens => isBlank token && tokensBlank tokens

/-- Several such branches. -/
def branchesBlank : List (List PatternToken) → Bool
  | [] => true
  | branch :: branches => tokensBlank branch && branchesBlank branches

end

mutual

/-- The places behind a token, where it begins at a place of the set. -/
def after (name : List UInt8) : PatternToken → Places → Places
  | .literal c, places =>
    (String.utf8EncodeChar c).foldl (fun places byte => afterByte (fun b => b = byte) name places) places
  | .anyByte, places => afterByte (fun _ => true) name places
  | .anyBytes, places => spread false places
  | .leadingStars, places => afterFolders name places
  | .trailingStars, places => spread false (afterByte (fun byte => byte = slash) name places)
  | .innerStars, places => afterFolders name (afterByte (fun byte => byte = slash) name places)
  | .byteClass negated ranges, places =>
    afterByte (fun byte => ranges.any (rangeCovers byte) != negated) name places
  | .choice branches, places =>
    if branchesBlank branches then places else afterBranches name branches places

/-- The places behind a sequence of tokens. -/
def afterAll (name : List UInt8) : List PatternToken → Places → Places
  | [], places => places
  | token :: tokens, places => afterAll name tokens (after name token places)

/-- The places behind one of several branches.  A branch that says nothing is dropped. -/
def afterBranches (name : List UInt8) : List (List PatternToken) → Places → Places
  | [], places => places.map fun _ => false
  | branch :: branches, places =>
    if tokensBlank branch then afterBranches name branches places
    else union (afterAll name branch places) (afterBranches name branches places)

end

/-- The place in front of a name. -/
def start (name : List UInt8) : Places :=
  true :: name.map fun _ => false

/-- Whether a sequence of tokens, from the front of a name on, can end at its end. -/
def coverAll (tokens : List PatternToken) (name : List UInt8) : Bool :=
  (afterAll name tokens (start name)).getLastD false

end PatternToken

/-- Whether the pattern matches the whole of a name.  The pattern that is nothing but a double star
in front matches every name. -/
def NamePattern.matches (pattern : NamePattern) (name : String) : Bool :=
  match pattern.tokens with
  | [.leadingStars] => true
  | tokens => PatternToken.coverAll tokens (Text.utf8 name)

end KeyedReflection
