import KeyedReflection.Record
import KeyedReflection.SortedMap
import KeyedReflection.Text.Basic
import KeyedReflection.Text.Quoted

/-!
# Keys

A leaf is addressed by a key, which has one segment for each level of nesting.  The segments come from the
identifiers of the fields, spelled in a style, or from overrides.
-/

namespace KeyedReflection

/-!
## Key styles

A key is made of one segment for each level of nesting.  The style says how a field's identifier is
spelled as a segment when nothing else is asked for.
-/

/-- How identifiers are spelled in keys. -/
inductive KeyStyle where
  /-- Underscores become hyphens. -/
  | hyphenated
  /-- Identifiers stay as they are. -/
  | verbatim
  deriving DecidableEq, Repr

namespace KeyStyle

/-- Identifiers from source files are hyphenated.  A schema already names its fields as wished. -/
def forOrigin : Origin → KeyStyle
  | .source => .hyphenated
  | .schema => .verbatim

def segment (style : KeyStyle) (identifier : String) : String :=
  match style with
  | .hyphenated => .ofList (identifier.toList.map fun c => if c = '_' then '-' else c)
  | .verbatim => identifier

def ofName? (name : String) : Option KeyStyle :=
  match name with
  | "hyphenated" => some .hyphenated
  | "verbatim" => some .verbatim
  | _ => none

/-- The words for a name that is no style. -/
def unknownMessage (name : String) : String :=
  "unknown key style " ++ Text.quote name ++ " (expected 'hyphenated' or 'verbatim')"

end KeyStyle

/-!
## Key overrides

An override `dotted.path=Segment` replaces the segment of one field, named by its full dotted path,
in the keys of the field and of everything below it.
-/

/-- Replacement segments by dotted path. -/
abbrev KeyOverrides := SortedMap String

/-- Why a text is not an override. -/
inductive OverrideCause where
  | missingEquals
  | emptyPathSegment
  | emptyReplacement
  deriving DecidableEq, Repr

def OverrideCause.message : OverrideCause → String
  | .missingEquals => "expected `dotted.path=Segment`"
  | .emptyPathSegment => "empty path segment"
  | .emptyReplacement => "empty replacement segment"

/-- An override that cannot be read, and why. -/
structure OverrideFault where
  spec : String
  cause : OverrideCause
  deriving DecidableEq, Repr

namespace KeyOverrides

/-- Read an override: the path is what precedes the first equals sign, without white space around
it, and the segment is all that follows. -/
def readSpec (spec : String) : Except OverrideCause (String × String) :=
  match Text.cut "=" spec with
  | none => .error .missingEquals
  | some (path, segment) =>
    let path := Text.trim path
    if path = "" ∨ "" ∈ Text.splitOn '.' path then .error .emptyPathSegment
    else if segment = "" then .error .emptyReplacement
    else .ok (path, segment)

/-- Add one override.  An earlier override of the same path gives way. -/
def addSpec (overrides : KeyOverrides) (spec : String) : Except OverrideFault KeyOverrides :=
  match readSpec spec with
  | .ok (path, segment) => .ok (overrides.insert path segment)
  | .error cause => .error ⟨spec, cause⟩

def ofSpecs (specs : List String) : Except OverrideFault KeyOverrides :=
  specs.foldlM addSpec SortedMap.empty

end KeyOverrides

/-!
## Keys of leaves

The key of a leaf joins the segments of all levels from the first down to the leaf.  A segment is the
override for the dotted path up to its level, or else the styled identifier.

The keys of the levels above a leaf are shared by many leaves, so they are remembered: a `KeyCache`
holds the key of every dotted path met so far.  A resolver passes its cache on, and a cache must only
be used with the rules it was filled under.
-/

/-- What decides the keys of a tree. -/
structure KeyRules where
  overrides : KeyOverrides
  separator : String
  style : KeyStyle

/-- Keys by dotted path. -/
abbrev KeyCache := SortedMap String

/-- A leaf with its key and its dotted id. -/
structure KeyedLeaf where
  key : String
  dottedId : String
  leaf : Leaf
  deriving DecidableEq, Repr, Inhabited

/-- Two leaves with the same key. -/
structure KeyClash where
  key : String
  /-- The dotted id of the leaf that had the key first. -/
  first : String
  second : String
  deriving DecidableEq, Repr

namespace KeyRules

/-- A path on the way down: its dotted form and its key. -/
structure PartialKey where
  dotted : String
  key : String

/-- Go down one level. -/
def descend (rules : KeyRules) (cache : KeyCache) (above : PartialKey) (segment : String) :
    PartialKey × KeyCache :=
  let dotted := Text.joinAfter "." above.dotted segment
  match cache.find? dotted with
  | some key => (⟨dotted, key⟩, cache)
  | none =>
    let part := (rules.overrides.find? dotted).getD (rules.style.segment segment)
    let key := Text.joinAfter rules.separator above.key part
    (⟨dotted, key⟩, cache.insert dotted key)

/-- Go down a path. -/
def descendAll (rules : KeyRules) (cache : KeyCache) (above : PartialKey) :
    List String → PartialKey × KeyCache
  | [] => (above, cache)
  | segment :: rest =>
    let (next, cache) := rules.descend cache above segment
    rules.descendAll cache next rest

/-- The key of a path, from its segments. -/
def keyFor (rules : KeyRules) (cache : KeyCache) (segments : List String) : String × KeyCache :=
  let (path, cache) := rules.descendAll cache ⟨"", ""⟩ segments
  (path.key, cache)

/-- Key the leaves at some paths of a tree.  `seen` maps the keys already given to dotted ids. -/
def resolvePaths (rules : KeyRules) (tree : FieldTree) (cache : KeyCache)
    (seen : SortedMap String) : List LeafPath → Except KeyClash (List KeyedLeaf) × KeyCache
  | [] => (.ok [], cache)
  | path :: rest =>
    let segments := path.segments tree
    let (key, cache) := rules.keyFor cache segments
    let dottedId := Text.join "." segments
    match seen.find? key with
    | some first => (.error ⟨key, first, dottedId⟩, cache)
    | none =>
      let (keyed, cache) := rules.resolvePaths tree cache (seen.insert key dottedId) rest
      (keyed.map (⟨key, dottedId, (tree.leaf? path.leaf).getD default⟩ :: ·), cache)

/-- Key every leaf of a tree, in declaration order, starting from a cache. -/
def resolveFrom (rules : KeyRules) (cache : KeyCache) (tree : FieldTree) :
    Except KeyClash (List KeyedLeaf) × KeyCache :=
  rules.resolvePaths tree cache SortedMap.empty tree.leaves

/-- Key every leaf of a tree, in declaration order. -/
def resolve (rules : KeyRules) (tree : FieldTree) : Except KeyClash (List KeyedLeaf) :=
  (rules.resolveFrom SortedMap.empty tree).1

end KeyRules

end KeyedReflection
