import KeyedReflection.Module.Basic
import KeyedReflection.Text.Basic

/-!
# Modules as C++

The text of the two units of a module, and of the string literals in it.
-/

namespace KeyedReflection
namespace Cpp

/-!
## C++ string literals

A text is written as a string literal in printable ASCII alone.  Quotes and backslashes are escaped,
the line feed and the tab have their short escapes, and every other byte of the text's UTF-8 form is
written as an octal escape of three digits.  Three digits are the most that an octal escape takes, so
that a digit after it is never read as part of it.
-/

/-- A byte as an octal escape of three digits. -/
def octalEscape (byte : UInt8) : List Char :=
  let n := byte.toNat
  ['\\', Nat.digitChar (n / 64), Nat.digitChar (n / 8 % 8), Nat.digitChar (n % 8)]

def literalCharacter (c : Char) : List Char :=
  if c = '"' then ['\\', '"']
  else if c = '\\' then ['\\', '\\']
  else if c = '\n' then ['\\', 'n']
  else if c = '\t' then ['\\', 't']
  else if 0x20 ≤ c.toNat ∧ c.toNat < 0x7F then [c]
  else (String.utf8EncodeChar c).flatMap octalEscape

def stringLiteral (s : String) : String :=
  .ofList ('"' :: (s.toList.flatMap literalCharacter ++ ['"']))

/-!
## The C++ units of a module

A module is written as two units: the declarations, which other code includes, and the definitions.
Both open with the banner and put everything into the module's namespace.

The key constants and the bodies of functions are given as lists of lines, because what can be said
about them is about their lines; the units put these lines into place.
-/

/-- What is written around the module itself. -/
structure UnitOptions where
  /-- Headers that the declarations include. -/
  includes : List String
  /-- The header under which the definitions include the declarations. -/
  headerInclude : String
  /-- Comment lines at the top. -/
  banner : List String
  deriving DecidableEq, Repr

/-- The two units. -/
structure Units where
  declarations : String
  definitions : String
  deriving DecidableEq, Repr

/-- Lines, each with its line feed. -/
def unlines (lines : List String) : String :=
  String.join (lines.map fun line => line ++ "\n")

/-- A number of spaces, two for each level. -/
def indentation (level : Nat) : String :=
  .ofList (List.replicate (2 * level) ' ')

/-- The headers of the standard library that the declarations need. -/
def standardHeaders : List String :=
  ["<algorithm>", "<array>", "<cstddef>", "<functional>", "<iterator>", "<map>", "<optional>",
    "<stdexcept>", "<string>", "<variant>"]

/-- The classes of failures with the words before the key. -/
def failureClasses : List (String × String) :=
  [("unknown_key", "unknown key: "), ("non_optional_key", "non-optional key: ")]

/-- The line between the includes and the namespace. -/
def rule : String :=
  .ofList (List.replicate 80 '/')

/-- A header between quotes, unless it comes with its own delimiters. -/
def quoteInclude (header : String) : String :=
  if header.toList.head? = some '<' ∨ header.toList.head? = some '"' then header
  else "\"" ++ header ++ "\""

/-! ### Key constants -/

/-- A field's documentation as comment lines. -/
def docLines (indent doc : String) : List String :=
  (Text.lines doc).map fun line =>
    if line = "" then indent ++ "///" else indent ++ "/// " ++ line

mutual

def keyItemLines (level : Nat) : KeyItem → List String
  | .constant name key doc =>
    let indent := indentation level
    docLines indent doc ++ [indent ++ "const K " ++ name ++ " = " ++ stringLiteral key ++ ";"]
  | .group name doc items =>
    let indent := indentation level
    docLines indent doc ++ [indent ++ "const struct " ++ name ++ " \x7b"] ++
      keyItemsLines (level + 1) items ++ [indent ++ "\x7d " ++ name ++ ";"]

def keyItemsLines (level : Nat) : List KeyItem → List String
  | [] => []
  | item :: items => keyItemLines level item ++ keyItemsLines level items

end

/-! ### Functions -/

def signature (f : ModuleFunction) : String :=
  match f.kind with
  | .get => "std::optional<V> get(const S& s, const K& key)"
  | .set => "void set(S& s, const K& key, const V& value)"
  | .unset => "void unset(S& s, const K& key)"
  | .diff => "Diff diff(const S& current, const S& previous)"
  | .apply => "void apply(S& s, const Diff& diff)"
  | .type => "std::string type(const K& key)"
  | .parse spec => "V " ++ f.name ++ "(const K& key, const " ++ spec.carrierType ++ "& value)"
  | .format spec => spec.carrierType ++ " " ++ f.name ++ "(const K& key, const V& value)"

/-- The documentation of a function, with its failures. -/
def docComment (f : ModuleFunction) : String :=
  let lines := f.doc ++
    (if f.throws.unknownKey then ["Throws `unknown_key` exception on unknown key."] else []) ++
    (if f.throws.nonOptionalKey then
      ["Throws `non_optional_key` exception on non-optional key."] else [])
  if lines.isEmpty then "" else "/** " ++ Text.join "\n" lines ++ " */\n"

def statement : Statement → String
  | .returnField id => "return s." ++ id ++ ";"
  | .assignField id canonicalType =>
    "s." ++ id ++ " = std::get<" ++ canonicalType ++ ">(value); break;"
  | .resetField id => "s." ++ id ++ " = std::nullopt; break;"
  | .returnTypeName declaredType => "return " ++ stringLiteral declaredType ++ ";"
  | .returnParsed function => "return " ++ function ++ "(value);"
  | .returnFormatted function canonicalType =>
    "return " ++ function ++ "(std::get<" ++ canonicalType ++ ">(value));"

/-- The line of a label, with the key at its position as a comment. -/
def caseLine (table : DispatchTable) (index : Nat) : String :=
  let key := match table.entries[index]? with
    | some entry => entry.key
    | none => ""
  "  case " ++ toString index ++ ": // " ++ stringLiteral key

def branchLines (table : DispatchTable) (branch : Branch Statement) : List String :=
  branch.labels.map (caseLine table) ++ ["    " ++ statement branch.body]

/-- The line for the positions without a branch. -/
def defaultLine : DefaultBranch → String
  | .unreachable => "  default: throw std::invalid_argument(key); // unreachable"
  | .notOptional => "  default: throw non_optional_key(key);"

/-- The lines of a switch on the position of the key. -/
def switchLines (table : DispatchTable) (switch : Switch Statement) : List String :=
  ["switch(key_index(key))\x7b"] ++ switch.branches.flatMap (branchLines table) ++
    [defaultLine switch.default, "\x7d"]

/-- The line that compares a field. -/
def diffLine (field : DiffField) : String :=
  "if(current." ++ field.id ++ " != previous." ++ field.id ++ ") d[keys." ++ field.id ++
    "] = current." ++ field.id ++ ";"

/-- The lines of a function's body. -/
def bodyLines (table : DispatchTable) (f : ModuleFunction) : List String :=
  match f.body with
  | .switch switch => switchLines table switch
  | .diff fields => ["Diff d;"] ++ fields.map diffLine ++ ["return d;"]
  | .apply =>
    ["for (const auto& item : diff)", "  if (item.second.has_value())",
      "    set(s, item.first, item.second.value());", "  else", "    unset(s, item.first);"]

/-! ### Looking keys up -/

/-- An expression for a place in the list of sorted keys, or for the end of the list. -/
inductive PlaceExpression where
  | start
  | stop
  /-- The variable for the lower bound of the key. -/
  | lower

def PlaceExpression.text : PlaceExpression → String
  | .start => "sorted_keys.begin()"
  | .stop => "sorted_keys.end()"
  | .lower => "lower"

/-- A condition on places. -/
inductive LookupCondition where
  | same (left right : PlaceExpression)
  /-- At the place there is another key than the one that is looked for. -/
  | holdsOther (place : PlaceExpression)
  /-- The condition on the right counts only where the one on the left does not hold. -/
  | either (left right : LookupCondition)

def LookupCondition.text : LookupCondition → String
  | .same left right => left.text ++ " == " ++ right.text
  | .holdsOther place => "*" ++ place.text ++ " != key"
  | .either left right => left.text ++ " || " ++ right.text

/-- A statement of the function that finds the position of a key. -/
inductive LookupStatement where
  /-- Let the variable be the lower bound of the key between two places. -/
  | findLower (first last : PlaceExpression)
  | choose (condition : LookupCondition) (holds otherwise : LookupStatement)
  | throwUnknown
  | returnDistance (first last : PlaceExpression)

def LookupStatement.lines : LookupStatement → List String
  | .findLower first last =>
    ["const auto lower = std::lower_bound(" ++ first.text ++ ", " ++ last.text ++ ", key);"]
  | .choose condition holds otherwise =>
    ["if (" ++ condition.text ++ ")"] ++ holds.lines.map (fun line => "  " ++ line) ++
      ["else"] ++ otherwise.lines.map fun line => "  " ++ line
  | .throwUnknown => ["throw unknown_key(key);"]
  | .returnDistance first last =>
    ["return std::distance(" ++ first.text ++ ", " ++ last.text ++ ");"]

/-- The body of the function that finds the position of a key. -/
def keyIndexBody : List LookupStatement :=
  [.findLower .start .stop,
    .choose (.either (.same .lower .stop) (.holdsOther .lower)) .throwUnknown
      (.returnDistance .start .lower)]

/-! ### Units -/

/-- The banner as comment lines. -/
def bannerLines (banner : List String) : List String :=
  banner.map fun line => "// " ++ line

/-- An alternative of the value type, with its declared types as a comment. -/
def alternative (valueType : ValueType) (canonicalType : String) : String :=
  match valueType.aliasNote? canonicalType with
  | some note => "  " ++ canonicalType ++ " /* " ++ note ++ " */"
  | none => "  " ++ canonicalType

/-- The alternatives of the value type, with commas between them. -/
def alternatives (valueType : ValueType) : String :=
  match valueType.alternatives.keys with
  | [] => ""
  | types => Text.join ",\n" (types.map (alternative valueType)) ++ "\n"

/-- The block of key constants. -/
def keyBlock (keys : List KeyItem) : String :=
  unlines (["const struct keys \x7b"] ++ keyItemsLines 1 keys ++ ["\x7d keys;"])

def functionDeclaration (f : ModuleFunction) : String :=
  docComment f ++ signature f ++ ";\n\n"

def failureClass (name words : String) : String :=
  unlines ["class " ++ name ++ " : public std::out_of_range \x7b", "public:",
    "  explicit " ++ name ++ "(const K& key):",
    "    std::out_of_range(\"" ++ words ++ "\" + key) \x7b\x7d", "\x7d;", ""]

/-- The line that ends the namespace. -/
def closingLine (m : ReflectionModule) : String :=
  "\x7d // namespace " ++ m.scope ++ "\n"

/-- The lines from the includes to the namespace. -/
def openingLines (m : ReflectionModule) : List String :=
  ["", "", rule, "namespace " ++ m.scope ++ " \x7b", ""]

def declarations (m : ReflectionModule) (options : UnitOptions) : String :=
  unlines (bannerLines options.banner ++ ["#pragma once", ""] ++
      standardHeaders.map (fun header => "#include " ++ header) ++
      (if options.includes.isEmpty then []
        else "" :: options.includes.map fun header => "#include " ++ quoteInclude header) ++
      openingLines m ++
      ["typedef ::" ++ m.recordName ++ " S; // Struct", "typedef std::string K; // Key",
        "typedef std::variant<"]) ++
    alternatives m.valueType ++
    unlines ["> V; // Value", "typedef std::map<K, std::optional<V>> Diff;", ""] ++
    keyBlock m.keys ++ "\n" ++
    String.join (m.functions.map functionDeclaration) ++
    String.join (failureClasses.map fun (name, words) => failureClass name words) ++
    closingLine m

/-- The line of a key in the list of sorted keys. -/
def sortedKeyLine (entry : KeyedLeaf) (index : Nat) : String :=
  "  keys." ++ entry.dottedId ++ ", // " ++ toString index ++ " " ++ stringLiteral entry.key

/-- The list of sorted keys. -/
def sortedKeys (table : DispatchTable) : String :=
  unlines (["const std::array<K, " ++ toString table.size ++ "> sorted_keys = \x7b"] ++
    table.entries.toList.zipIdx.map (fun (entry, index) => sortedKeyLine entry index) ++
    ["\x7d;", ""])

/-- The function that finds the position of a key. -/
def keyIndexFunction : String :=
  unlines (["inline size_t key_index(const K& key) \x7b"] ++
    (keyIndexBody.flatMap LookupStatement.lines).map (fun line => "  " ++ line) ++ ["\x7d", ""])

/-- The lines of the function that finds the position of a key. -/
theorem keyIndexFunction_eq : keyIndexFunction =
    unlines ["inline size_t key_index(const K& key) \x7b",
      "  const auto lower = std::lower_bound(sorted_keys.begin(), sorted_keys.end(), key);",
      "  if (lower == sorted_keys.end() || *lower != key)", "    throw unknown_key(key);", "  else",
      "    return std::distance(sorted_keys.begin(), lower);", "\x7d", ""] := by
  apply congrArg unlines
  decide +kernel

def functionDefinition (table : DispatchTable) (f : ModuleFunction) : String :=
  unlines ([signature f ++ " \x7b"] ++ (bodyLines table f).map (fun line => "  " ++ line) ++
    ["\x7d", ""])

def definitions (m : ReflectionModule) (options : UnitOptions) : String :=
  unlines (bannerLines options.banner ++ ["#include " ++ quoteInclude options.headerInclude] ++
      openingLines m) ++
    sortedKeys m.table ++ keyIndexFunction ++
    String.join (m.functions.map (functionDefinition m.table)) ++ closingLine m

/-- Both units of a module. -/
def units (m : ReflectionModule) (options : UnitOptions) : Units :=
  ⟨declarations m options, definitions m options⟩

end Cpp

end KeyedReflection
