/-!
# Patterns over qualified names

A name pattern selects records by their qualified names, in the manner of shell patterns.  This
module holds the parsed form of a pattern and the reading of its text.

Outside brackets and braces, `?` stands for one byte, `*` for any bytes, and a backslash takes the
next character literally.  Brackets hold a class of bytes, braces a choice between branches.  A
double star is recursive where it stands between slashes or at an end, and is two stars elsewhere.
-/

namespace KeyedReflection

/-- A part of a name pattern. -/
inductive PatternToken where
  /-- A character that stands for itself. -/
  | literal (c : Char)
  | anyByte
  /-- Any number of bytes. -/
  | anyBytes
  /-- A double star in front: nothing, or anything that ends in a slash. -/
  | leadingStars
  /-- A double star at the end: a slash and anything after it. -/
  | trailingStars
  /-- A double star between slashes: a slash, or anything between two slashes. -/
  | innerStars
  /-- One byte in, or not in, one of the ranges. -/
  | byteClass (negated : Bool) (ranges : List (Char × Char))
  /-- One of several branches. -/
  | choice (branches : List (List PatternToken))

/-- Why a text is not a name pattern. -/
inductive PatternCause where
  | unclosedClass
  | invalidRange (first last : Char)
  | unopenedBraces
  | unclosedBraces
  | danglingBackslash
  deriving DecidableEq, Repr

def PatternCause.message : PatternCause → String
  | .unclosedClass => "unclosed character class; missing ']'"
  | .invalidRange first last =>
    "invalid range; '" ++ first.toString ++ "' > '" ++ last.toString ++ "'"
  | .unopenedBraces =>
    "unopened alternate group; missing '\x7b' (maybe escape '\x7d' with '[\x7d]'?)"
  | .unclosedBraces =>
    "unclosed alternate group; missing '\x7d' (maybe escape '\x7b' with '[\x7b]'?)"
  | .danglingBackslash => "dangling '\\'"

/-- A pattern text that cannot be read, and why. -/
structure PatternFault where
  text : String
  cause : PatternCause
  deriving DecidableEq, Repr

def PatternFault.message (fault : PatternFault) : String :=
  "error parsing glob '" ++ fault.text ++ "': " ++ fault.cause.message

namespace PatternToken

/-! ## Classes -/

/-- A class under construction: its ranges, the last one first. -/
structure ClassDraft where
  ranges : List (Char × Char)
  /-- The last range waits for its end. -/
  isOpen : Bool

/-- Take up one character of a class. -/
def ClassDraft.take (draft : ClassDraft) (c : Char) : Except PatternCause ClassDraft :=
  match draft.ranges with
  | [] => .ok ⟨[(c, c)], false⟩
  | (first, last) :: rest =>
    if draft.isOpen then
      if c < first then .error (.invalidRange first c) else .ok ⟨(first, c) :: rest, false⟩
    else if c = '-' then .ok ⟨draft.ranges, true⟩
    else .ok ⟨(c, c) :: (first, last) :: rest, false⟩

/-- The ranges of a finished class. A dash that opened no range stands for itself. -/
def ClassDraft.finish (draft : ClassDraft) : List (Char × Char) :=
  (if draft.isOpen then ('-', '-') :: draft.ranges else draft.ranges).reverse

/-- Read a class up to its closing bracket.  A closing bracket in first place belongs to the
class. -/
def readRanges (draft : ClassDraft) : List Char → Except PatternCause (List (Char × Char) × List Char)
  | [] => .error .unclosedClass
  | c :: cs =>
    if c = ']' ∧ draft.ranges ≠ [] then .ok (draft.finish, cs)
    else
      match draft.take c with
      | .ok draft => readRanges draft cs
      | .error cause => .error cause

/-- Read a class behind its opening bracket. -/
def readClass (cs : List Char) : Except PatternCause (PatternToken × List Char) :=
  let negated := cs.head? = some '!' ∨ cs.head? = some '^'
  (readRanges ⟨[], false⟩ (if negated then cs.drop 1 else cs)).map fun (ranges, rest) =>
    (.byteClass negated ranges, rest)

/-! ## Branches -/

/-- A pattern under construction.  The tokens of the branch being read and the branches that are
already complete are held last one first. -/
structure Draft where
  tokens : List PatternToken
  /-- The open braces, innermost first: the branches completed in each, and the tokens before it. -/
  groups : List (List (List PatternToken) × List PatternToken)
  /-- The last character read. -/
  previous : Option Char

/-- Add tokens to the branch being read. -/
def Draft.push (draft : Draft) (tokens : List PatternToken) : Draft :=
  { draft with tokens := tokens.reverse ++ draft.tokens }

/-- Begin a choice. -/
def Draft.openGroup (draft : Draft) : Draft :=
  { draft with tokens := [], groups := ([], draft.tokens) :: draft.groups }

/-- End a choice: it becomes a token of the branch around it. -/
def Draft.closeGroup (draft : Draft) : Except PatternCause Draft :=
  match draft.groups with
  | [] => .error .unopenedBraces
  | (branches, outer) :: groups =>
    .ok { draft with
      tokens := .choice ((draft.tokens.reverse :: branches).reverse) :: outer, groups }

/-- Begin the next branch of a choice; outside braces a comma stands for itself. -/
def Draft.comma (draft : Draft) : Draft :=
  match draft.groups with
  | [] => draft.push [.literal ',']
  | (branches, outer) :: groups =>
    { draft with tokens := [], groups := (draft.tokens.reverse :: branches, outer) :: groups }

/-- A double star that ends or joins what precedes it takes the place of the slash before it, unless
a double star stands there already. -/
def Draft.replaceSlash (draft : Draft) (stars : PatternToken) : Draft :=
  match draft.tokens with
  | .leadingStars :: _ => draft
  | .trailingStars :: _ => draft
  | _ :: rest => { draft with tokens := stars :: rest }
  | [] => { draft with tokens := [stars] }

/-- Take up a double star, where `before` is the character in front of it.  The result tells whether
the slash behind it is used up. -/
def Draft.doubleStar (draft : Draft) (before : Option Char) (rest : List Char) : Draft × Bool :=
  let plain := draft.push [.anyBytes, .anyBytes]
  let inGroup := !draft.groups.isEmpty
  let atSlash := rest.head? == some '/'
  if draft.tokens.isEmpty then
    if rest.isEmpty || atSlash then (draft.push [.leadingStars], atSlash) else (plain, false)
  else if before == some '/' || (inGroup && (before == some ',' || before == some '\x7b')) then
    if rest.isEmpty || (inGroup && (rest.head? == some ',' || rest.head? == some '\x7d')) then
      (draft.replaceSlash .trailingStars, false)
    else if atSlash then (draft.replaceSlash .innerStars, true)
    else (plain, false)
  else (plain, false)

/-- Read the rest of a pattern.  The number of steps is bounded by the first argument, for which the
length of the text is enough. -/
def readTokens : Nat → Draft → List Char → Except PatternCause (List PatternToken)
  | 0, _, _ => .error .unclosedBraces
  | steps + 1, draft, cs =>
    match cs with
    | [] => if draft.groups.isEmpty then .ok draft.tokens.reverse else .error .unclosedBraces
    | '*' :: '*' :: rest =>
      match draft.doubleStar draft.previous rest with
      | (draft, true) => readTokens steps { draft with previous := some '/' } (rest.drop 1)
      | (draft, false) => readTokens steps { draft with previous := some '*' } rest
    | '[' :: rest =>
      match readClass rest with
      | .error cause => .error cause
      | .ok (token, rest) =>
        readTokens steps { draft.push [token] with previous := some ']' } rest
    | '\\' :: rest =>
      match rest with
      | [] => .error .danglingBackslash
      | c :: rest => readTokens steps { draft.push [.literal c] with previous := some c } rest
    | c :: rest =>
      let next : Except PatternCause Draft :=
        if c = '?' then .ok (draft.push [.anyByte])
        else if c = '*' then .ok (draft.push [.anyBytes])
        else if c = '\x7b' then .ok draft.openGroup
        else if c = '\x7d' then draft.closeGroup
        else if c = ',' then .ok draft.comma
        else .ok (draft.push [.literal c])
      match next with
      | .error cause => .error cause
      | .ok draft => readTokens steps { draft with previous := some c } rest

end PatternToken

/-- A parsed name pattern. -/
structure NamePattern where
  tokens : List PatternToken

def NamePattern.parse (text : String) : Except PatternFault NamePattern :=
  match PatternToken.readTokens (text.toList.length + 1) ⟨[], [], none⟩ text.toList with
  | .ok tokens => .ok ⟨tokens⟩
  | .error cause => .error ⟨text, cause⟩

end KeyedReflection
