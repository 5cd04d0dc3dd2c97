import KeyedReflection.Cpp.Units
import KeyedReflection.Proofs.Text.Bytes
import Mathlib.Tactic.SplitIfs

/-!
# Literals are read as what they were written for

A compiler reads a literal up to the first quote that no backslash escapes (`readLiteral`).  Of an octal
escape it takes all the digits there are, but no more than three, so that an escape of fewer digits would
swallow a digit behind it.  Since three digits are written for every byte, each character of a text is read as
its own bytes, whatever follows (`readBody_literalCharacter`), and the literal of a text as the bytes of the
text (`readLiteral_stringLiteral`).
-/

namespace KeyedReflection
namespace Cpp

/-! ## How a compiler reads a literal -/

/-- What may stand between the quotes of a literal: a quote or a backslash stands behind a backslash, and a
line feed nowhere. -/
inductive IsLiteralBody : List Char → Prop
  | nil : IsLiteralBody []
  | plain {c : Char} {cs : List Char} (noQuote : c ≠ '"') (straight : c ≠ '\\') (noFeed : c ≠ '\n')
      (further : IsLiteralBody cs) : IsLiteralBody (c :: cs)
  | escaped {c : Char} {cs : List Char} (noFeed : c ≠ '\n') (further : IsLiteralBody cs) :
      IsLiteralBody ('\\' :: c :: cs)

/-- The characters that stand for a byte behind a backslash. -/
def simpleEscapes : List (Char × UInt8) :=
  [(.ofNat 0x27, 0x27), ('"', 0x22), ('?', 0x3F), ('\\', 0x5C), ('a', 0x07), ('b', 0x08), ('f', 0x0C),
    ('n', 0x0A), ('r', 0x0D), ('t', 0x09), ('v', 0x0B)]

def isOctalDigit (c : Char) : Bool :=
  '0' ≤ c && c ≤ '7'

/-- The digits of an octal escape: all there are, but no more than three. -/
def octalDigits (cs : List Char) : List Char :=
  (cs.take 3).takeWhile isOctalDigit

/-- The byte for what stands behind a backslash, and the rest. -/
def readEscape (cs : List Char) : Option (UInt8 × List Char) :=
  if octalDigits cs = [] then
    match cs with
    | [] => none
    | c :: rest => (simpleEscapes.lookup c).map fun byte => (byte, rest)
  else
    let value := Nat.ofDigitChars 8 (octalDigits cs) 0
    if value < 256 then some (.ofNat value, cs.drop (octalDigits cs).length) else none

theorem length_of_readEscape {cs rest : List Char} {byte : UInt8}
    (read : readEscape cs = some (byte, rest)) : rest.length ≤ cs.length := by
  unfold readEscape at read
  dsimp only at read
  split_ifs at read with simple small
  · cases cs with
    | nil => cases read
    | cons c cs =>
        rcases Option.map_eq_some_iff.mp read with ⟨byte, _, same⟩
        cases same
        exact Nat.le_succ _
  · cases read
    rw [List.length_drop]
    exact Nat.sub_le _ _

/-- Put the bytes that are read before others in front of them. -/
def readBefore (bytes : List UInt8) (read : Option (List UInt8 × List Char)) :
    Option (List UInt8 × List Char) :=
  read.map fun (further, behind) => (bytes ++ further, behind)

/-- The bytes up to the quote that ends a literal, and what stands behind it. -/
def readBody (cs : List Char) : Option (List UInt8 × List Char) :=
  match cs with
  | [] => none
  | c :: cs =>
    if c = '"' then some ([], cs)
    else if c = '\n' then none
    else if c = '\\' then
      match _read : readEscape cs with
      | none => none
      | some (byte, rest) => readBefore [byte] (readBody rest)
    else readBefore (String.utf8EncodeChar c) (readBody cs)
termination_by cs.length
decreasing_by
  · have shorter := length_of_readEscape ‹_›
    simp only [List.length_cons]
    omega
  · simp

/-- The bytes of a literal, and what stands behind it. -/
def readLiteral : List Char → Option (List UInt8 × List Char)
  | '"' :: cs => readBody cs
  | _ => none

/-! ## What is written -/

theorem IsLiteralBody.append {front back : List Char} (first : IsLiteralBody front)
    (further : IsLiteralBody back) : IsLiteralBody (front ++ back) := by
  induction first with
  | nil => exact further
  | plain noQuote straight noFeed _ ih => exact .plain noQuote straight noFeed ih
  | escaped noFeed _ ih => exact .escaped noFeed ih

theorem IsLiteralBody.flatMap {α : Type} {write : α → List Char} (each : ∀ a, IsLiteralBody (write a))
    (items : List α) : IsLiteralBody (items.flatMap write) := by
  induction items with
  | nil => exact .nil
  | cons item items ih => exact (each item).append ih

/-- A character of ASCII that is printed as a mark or a space. -/
def IsPrintable (c : Char) : Prop :=
  0x20 ≤ c.toNat ∧ c.toNat < 0x7F

instance (c : Char) : Decidable (IsPrintable c) :=
  inferInstanceAs (Decidable (_ ∧ _))

theorem octalDigit_spec : ∀ n < 8, isOctalDigit (Nat.digitChar n) = true ∧
    (Nat.digitChar n).toNat - '0'.toNat = n ∧ IsPrintable (Nat.digitChar n) ∧
    Nat.digitChar n ≠ '"' ∧ Nat.digitChar n ≠ '\\' ∧ Nat.digitChar n ≠ '\n' := by
  decide

section

variable (byte : UInt8)

theorem isLiteralBody_octalEscape : IsLiteralBody (octalEscape byte) := by
  have bound := byte.toNat_lt
  have plain : ∀ n < 8, ∀ cs, IsLiteralBody cs → IsLiteralBody (Nat.digitChar n :: cs) := by
    intro n small cs further
    rcases octalDigit_spec n small with ⟨_, _, _, noQuote, straight, noFeed⟩
    exact .plain noQuote straight noFeed further
  have feedless := (octalDigit_spec (byte.toNat / 64) (by omega)).2.2.2.2.2
  exact .escaped feedless (plain _ (by omega) _ (plain _ (by omega) _ .nil))

theorem isPrintable_octalEscape : ∀ c ∈ octalEscape byte, IsPrintable c := by
  have bound := byte.toNat_lt
  have digit : ∀ n < 8, IsPrintable (Nat.digitChar n) := fun n small => (octalDigit_spec n small).2.2.1
  simp only [octalEscape, List.forall_mem_cons]
  exact ⟨by decide, digit _ (by omega), digit _ (by omega), digit _ (by omega), nofun⟩

/-- Three digits are read as a byte, even when another digit follows. -/
theorem readEscape_octalDigits (rest : List Char) :
    readEscape (Nat.digitChar (byte.toNat / 64) :: Nat.digitChar (byte.toNat / 8 % 8) ::
      Nat.digitChar (byte.toNat % 8) :: rest) = some (byte, rest) := by
  have bound := byte.toNat_lt
  rcases octalDigit_spec (byte.toNat / 64) (by omega) with ⟨first, firstValue, _⟩
  rcases octalDigit_spec (byte.toNat / 8 % 8) (by omega) with ⟨second, secondValue, _⟩
  rcases octalDigit_spec (byte.toNat % 8) (by omega) with ⟨third, thirdValue, _⟩
  have value : 8 * (8 * (byte.toNat / 64) + byte.toNat / 8 % 8) + byte.toNat % 8 = byte.toNat := by omega
  simp only [readEscape, octalDigits, List.take_succ_cons, List.take_zero, List.takeWhile_cons, first, second,
    third, if_true, List.takeWhile_nil, Nat.ofDigitChars_cons, Nat.ofDigitChars_nil, firstValue, secondValue,
    thirdValue]
  simp [value, bound]

end

theorem isLiteralBody_literalCharacter (c : Char) : IsLiteralBody (literalCharacter c) := by
  unfold literalCharacter
  split_ifs with quote backslash feed tab graphic
  · exact .escaped (by decide) .nil
  · exact .escaped (by decide) .nil
  · exact .escaped (by decide) .nil
  · exact .escaped (by decide) .nil
  · exact .plain quote backslash feed .nil
  · exact .flatMap isLiteralBody_octalEscape _

theorem isPrintable_literalCharacter (c : Char) : ∀ d ∈ literalCharacter c, IsPrintable d := by
  have escape : ∀ letter, IsPrintable letter → ∀ d ∈ ['\\', letter], IsPrintable d := by
    intro letter printable
    exact List.forall_mem_cons.mpr ⟨by decide, List.forall_mem_singleton.mpr printable⟩
  unfold literalCharacter
  split_ifs with quote backslash feed tab graphic
  · exact escape _ (by decide)
  · exact escape _ (by decide)
  · exact escape _ (by decide)
  · exact escape _ (by decide)
  · exact List.forall_mem_singleton.mpr graphic
  · intro d inside
    rcases List.mem_flatMap.mp inside with ⟨byte, _, written⟩
    exact isPrintable_octalEscape byte d written

/-! ## Reading what was written -/

theorem readBody_escape {cs rest : List Char} {byte : UInt8} (read : readEscape cs = some (byte, rest)) :
    readBody ('\\' :: cs) = readBefore [byte] (readBody rest) := by
  rw [readBody, if_neg (by decide), if_neg (by decide), if_pos rfl]
  split
  · simp_all
  · simp_all

theorem readBody_plain {c : Char} (noQuote : c ≠ '"') (straight : c ≠ '\\') (noFeed : c ≠ '\n')
    (rest : List Char) :
    readBody (c :: rest) = readBefore (String.utf8EncodeChar c) (readBody rest) := by
  rw [readBody, if_neg noQuote, if_neg noFeed, if_neg straight]

theorem readBefore_append (bytes further : List UInt8) (read : Option (List UInt8 × List Char)) :
    readBefore bytes (readBefore further read) = readBefore (bytes ++ further) read := by
  cases read <;> simp [readBefore]

theorem readBody_flatMap {α : Type} {write : α → List Char} {bytes : α → List UInt8}
    (each : ∀ a rest, readBody (write a ++ rest) = readBefore (bytes a) (readBody rest)) (items : List α)
    (rest : List Char) :
    readBody (items.flatMap write ++ rest) = readBefore (items.flatMap bytes) (readBody rest) := by
  induction items with
  | nil => simp [readBefore]
  | cons item items ih =>
      rw [List.flatMap_cons, List.append_assoc, each, ih, readBefore_append, List.flatMap_cons]

theorem readBody_octalEscape (byte : UInt8) (rest : List Char) :
    readBody (octalEscape byte ++ rest) = readBefore [byte] (readBody rest) :=
  readBody_escape (readEscape_octalDigits byte rest)

/-- A character is read as its bytes, whatever stands behind it. -/
theorem readBody_literalCharacter (c : Char) (rest : List Char) :
    readBody (literalCharacter c ++ rest) = readBefore (String.utf8EncodeChar c) (readBody rest) := by
  unfold literalCharacter
  split_ifs with quote backslash feed tab graphic
  · rw [quote]
    exact readBody_escape rfl
  · rw [backslash]
    exact readBody_escape rfl
  · rw [feed]
    exact readBody_escape rfl
  · rw [tab]
    exact readBody_escape rfl
  · exact readBody_plain quote backslash feed rest
  · rw [readBody_flatMap readBody_octalEscape, List.flatMap_singleton']

theorem readLiteral_stringLiteral (s : String) (rest : List Char) :
    readLiteral ((stringLiteral s).toList ++ rest) = some (Text.utf8 s, rest) := by
  have ends : readBody ('"' :: rest) = some ([], rest) := by rw [readBody, if_pos rfl]
  rw [stringLiteral, String.toList_ofList, List.cons_append, readLiteral, List.append_assoc,
    readBody_flatMap readBody_literalCharacter, List.singleton_append, ends]
  simp [readBefore, Text.utf8]

/-- The digit behind the second byte is none of its escape. -/
example : readLiteral "\"\\303\\2511\\\"\" + 1".toList = some (Text.utf8 "é1\"", " + 1".toList) := by
  decide +kernel

/-- The literal of a text stands between quotes, with printable ASCII alone and neither a quote without a
backslash nor a line feed inside.  It is read as the bytes of the text, whatever stands behind it, and no two
texts have the same literal. -/
theorem stringLiteral_spec (s : String) :
    (∃ body, (stringLiteral s).toList = '"' :: (body ++ ['"']) ∧ IsLiteralBody body) ∧
    (∀ c ∈ (stringLiteral s).toList, IsPrintable c) ∧
    (∀ rest, readLiteral ((stringLiteral s).toList ++ rest) = some (Text.utf8 s, rest)) ∧
    ∀ other, stringLiteral s = stringLiteral other ↔ s = other := by
  have written : (stringLiteral s).toList = '"' :: (s.toList.flatMap literalCharacter ++ ['"']) := by
    rw [stringLiteral, String.toList_ofList]
  refine ⟨⟨_, written, .flatMap isLiteralBody_literalCharacter _⟩, ?_, readLiteral_stringLiteral s, ?_⟩
  · rw [written]
    intro c inside
    rcases List.mem_cons.mp inside with rfl | later
    · decide
    · rcases List.mem_append.mp later with character | quote
      · rcases List.mem_flatMap.mp character with ⟨d, _, member⟩
        exact isPrintable_literalCharacter d c member
      · rw [List.mem_singleton.mp quote]
        decide
  · intro other
    constructor
    · intro same
      have bytes := readLiteral_stringLiteral s []
      rw [same, readLiteral_stringLiteral] at bytes
      exact (Text.utf8_injective (Prod.mk.inj (Option.some.inj bytes)).1).symm
    · exact congrArg stringLiteral

end Cpp
end KeyedReflection
