import KeyedReflection.Json.Printer
import KeyedReflection.Json.Reader
import KeyedReflection.Proofs.Json.Equality

/-!
# Reading what was written

A document that was written with indentation is read back as it was: the printer and the reader are
inverse on documents without numbers, whose objects have distinct member names and which nest no
deeper than a reader goes.  Schemas are such documents.

Both sides work on the rest of a text, and so do the statements: what is written in front of a rest is
read, and the rest is left.  The reader counts its steps.  It never takes more of them than
it reads characters, so that the bound on steps is one on lengths.
-/

namespace KeyedReflection
namespace Json

/-! ## Strings -/

/-- An escape letter is read as the character that it stands for. -/
theorem readEscape_letter {c letter : Char} (escaped : escapeLetter? c = some letter)
    (rest : List Char) : readEscape (letter :: rest) = .ok (c, rest) := by
  unfold escapeLetter? at escaped
  split at escaped <;> cases escaped <;> rfl

theorem hexValue_digitChar : ∀ digit < 16, hexValue (Nat.digitChar digit) = some digit := by
  decide

/-- A control is read from its two hexadecimal digits. -/
theorem readEscape_control {c : Char} (control : c.toNat < 0x20) (rest : List Char) :
    readEscape ('u' :: '0' :: '0' :: Nat.digitChar (c.toNat / 16) ::
      Nat.digitChar (c.toNat % 16) :: rest) = .ok (c, rest) := by
  have zero : hexValue '0' = some 0 := rfl
  have high := hexValue_digitChar (c.toNat / 16) (by omega)
  have low := hexValue_digitChar (c.toNat % 16) (by omega)
  have whole : ((0 * 16 + 0) * 16 + c.toNat / 16) * 16 + c.toNat % 16 = c.toNat := by omega
  have unit : readUnit ('0' :: '0' :: Nat.digitChar (c.toNat / 16) ::
      Nat.digitChar (c.toNat % 16) :: rest) = .ok (c.toNat, rest) := by
    rw [readUnit, zero, high, low]
    dsimp only
    rw [whole]
  have notTrailing : isTrailingUnit c.toNat = false := by
    rw [isTrailingUnit, Bool.and_eq_false_iff, decide_eq_false_iff_not]
    exact .inl (by omega)
  have notLeading : isLeadingUnit c.toNat = false := by
    rw [isLeadingUnit, Bool.and_eq_false_iff, decide_eq_false_iff_not]
    exact .inl (by omega)
  rw [readEscape, unit]
  dsimp only
  rw [notTrailing, notLeading, Char.ofNat_toNat]
  rfl

/-- A written character is read in one step. -/
theorem readCharacters_writeCharacter (steps : Nat) (read : List Char) (c : Char)
    (rest : List Char) :
    readCharacters (steps + 1) read (writeCharacter c rest) =
      readCharacters steps (c :: read) rest := by
  rw [writeCharacter]
  cases escaped : escapeLetter? c with
  | some letter =>
      dsimp only
      rw [readCharacters, readEscape_letter escaped]
  | none =>
      dsimp only
      by_cases control : c.toNat < 0x20
      · rw [if_pos control, readCharacters, readEscape_control control]
      · have notQuote : c ≠ '"' := by
          rintro rfl
          cases escaped
        have notBackslash : c ≠ '\\' := by
          rintro rfl
          cases escaped
        rw [if_neg control, readCharacters, if_neg control]
        · assumption
        · assumption

theorem readCharacters_write (characters : List Char) {steps : Nat}
    (enough : characters.length < steps) (read rest : List Char) :
    readCharacters steps read (characters.foldr writeCharacter ('"' :: rest)) =
      .ok (read.reverse ++ characters, rest) := by
  induction characters generalizing steps read with
  | nil =>
      cases steps with
      | zero => cases enough
      | succ steps =>
          rw [List.foldr_nil, readCharacters, List.append_nil]
  | cons c characters ih =>
      cases steps with
      | zero => cases enough
      | succ steps =>
          rw [List.foldr_cons, readCharacters_writeCharacter, ih (Nat.lt_of_succ_lt_succ enough),
            List.reverse_cons, List.append_assoc]
          rfl

theorem readStringWithin_write (s : String) {steps : Nat} (enough : s.length < steps)
    (rest : List Char) :
    readStringWithin steps (s.toList.foldr writeCharacter ('"' :: rest)) = .ok (s, rest) := by
  rw [readStringWithin, readCharacters_write s.toList (by rwa [String.length_toList])]
  dsimp only
  rw [List.reverse_nil, List.nil_append, String.ofList_toList]

/-! ## Writing in front of a rest -/

theorem writeCharacter_append (c : Char) (rest more : List Char) :
    writeCharacter c rest ++ more = writeCharacter c (rest ++ more) := by
  rw [writeCharacter, writeCharacter]
  cases escapeLetter? c with
  | some letter => rfl
  | none =>
      dsimp only
      split <;> rfl

theorem characters_append (characters rest more : List Char) :
    characters.foldr writeCharacter rest ++ more =
      characters.foldr writeCharacter (rest ++ more) := by
  induction characters with
  | nil => rfl
  | cons c characters ih => rw [List.foldr_cons, writeCharacter_append, ih, List.foldr_cons]

theorem writeString_append (s : String) (rest more : List Char) :
    writeString s rest ++ more = writeString s (rest ++ more) := by
  rw [writeString, List.cons_append, characters_append, List.cons_append, writeString]

namespace Value

theorem breakLine_append (level : Nat) (rest more : List Char) :
    breakLine level rest ++ more = breakLine level (rest ++ more) := by
  rw [breakLine, List.cons_append, List.append_assoc, breakLine]

/-- What is written for a value does not depend on what comes behind it. -/
def WritesInFront (value : Value) : Prop :=
  ∀ (level : Nat) (rest more : List Char),
    value.writeIndented level rest ++ more = value.writeIndented level (rest ++ more)

section

variable {items : List Value} {members : Members} (level : Nat) (rest more : List Char)

theorem writeIndentedItems_append (inside : ∀ item ∈ items, item.WritesInFront) :
    writeIndentedItems level items rest ++ more =
      writeIndentedItems level items (rest ++ more) := by
  induction items with
  | nil => rfl
  | cons item items ih =>
      rcases List.forall_mem_cons.mp inside with ⟨first, others⟩
      rw [writeIndentedItems, List.cons_append, breakLine_append, first, ih others,
        writeIndentedItems]

theorem writeIndentedMembers_append (inside : ∀ member ∈ members, member.2.WritesInFront) :
    writeIndentedMembers level members rest ++ more =
      writeIndentedMembers level members (rest ++ more) := by
  induction members with
  | nil => rfl
  | cons member members ih =>
      rcases member with ⟨name, value⟩
      rcases List.forall_mem_cons.mp inside with ⟨(first : value.WritesInFront), others⟩
      rw [writeIndentedMembers, List.cons_append, breakLine_append, writeString_append,
        List.cons_append, List.cons_append, first, ih others, writeIndentedMembers]

end

theorem writesInFront (value : Value) : value.WritesInFront := by
  induction value using Value.induction with
  | null =>
      intro level rest more
      rfl
  | bool value =>
      intro level rest more
      cases value <;> rfl
  | integer value =>
      intro level rest more
      simp only [writeIndented, writeCompact, List.append_assoc]
  | double value =>
      intro level rest more
      simp only [writeIndented, writeCompact, List.append_assoc]
  | string value =>
      intro level rest more
      simp only [writeIndented, writeCompact, writeString_append]
  | array items ih =>
      intro level rest more
      cases items with
      | nil => rfl
      | cons item items =>
          rcases List.forall_mem_cons.mp ih with ⟨first, others⟩
          rw [writeIndented, List.cons_append, breakLine_append, first,
            writeIndentedItems_append _ _ _ others, breakLine_append, List.cons_append,
            writeIndented]
  | object members ih =>
      intro level rest more
      cases members with
      | nil => rfl
      | cons member members =>
          rcases member with ⟨name, value⟩
          rcases List.forall_mem_cons.mp ih with ⟨(first : value.WritesInFront), others⟩
          rw [writeIndented, List.cons_append, breakLine_append, writeString_append,
            List.cons_append, List.cons_append, first,
            writeIndentedMembers_append _ _ _ others, breakLine_append, List.cons_append,
            writeIndented]

end Value

/-! ## Lengths -/

theorem length_writeCharacter (c : Char) (rest : List Char) :
    rest.length < (writeCharacter c rest).length := by
  rw [writeCharacter]
  cases escapeLetter? c with
  | some letter =>
      simp only [List.length_cons]
      omega
  | none =>
      dsimp only
      split
      · simp only [List.length_cons]
        omega
      · exact Nat.lt_succ_self _

theorem length_characters (characters rest : List Char) :
    characters.length + rest.length ≤ (characters.foldr writeCharacter rest).length := by
  induction characters with
  | nil => exact Nat.le_of_eq (Nat.zero_add _)
  | cons c characters ih =>
      have longer := length_writeCharacter c (characters.foldr writeCharacter rest)
      rw [List.foldr_cons, List.length_cons]
      omega

theorem length_writeString (s : String) (rest : List Char) :
    rest.length + s.length + 2 ≤ (writeString s rest).length := by
  have inside := length_characters s.toList ('"' :: rest)
  rw [List.length_cons, String.length_toList] at inside
  rw [writeString, List.length_cons]
  omega

theorem length_breakLine (level : Nat) (rest : List Char) :
    (Value.breakLine level rest).length = rest.length + 2 * level + 1 := by
  rw [Value.breakLine, List.length_cons, List.length_append, List.length_replicate]
  omega

theorem length_writeIndented (value : Value) (level : Nat) (rest : List Char) :
    rest.length ≤ (value.writeIndented level rest).length := by
  have inFront := value.writesInFront level [] rest
  rw [List.nil_append] at inFront
  rw [← inFront, List.length_append]
  exact Nat.le_add_left _ _

theorem length_writeIndentedItems (items : List Value) (level : Nat) (rest : List Char) :
    rest.length ≤ (Value.writeIndentedItems level items rest).length := by
  have inFront : Value.writeIndentedItems level items [] ++ rest = _ :=
    Value.writeIndentedItems_append level [] rest fun item _ => item.writesInFront
  rw [List.nil_append] at inFront
  rw [← inFront, List.length_append]
  exact Nat.le_add_left _ _

theorem length_writeIndentedMembers (members : Members) (level : Nat) (rest : List Char) :
    rest.length ≤ (Value.writeIndentedMembers level members rest).length := by
  have inFront : Value.writeIndentedMembers level members [] ++ rest = _ :=
    Value.writeIndentedMembers_append level [] rest fun member _ => member.2.writesInFront
  rw [List.nil_append] at inFront
  rw [← inFront, List.length_append]
  exact Nat.le_add_left _ _

/-! ## Documents without numbers -/

/-- A value without numbers that nests at most so deep, and whose objects have distinct member
names. -/
inductive Value.IsTextual : Nat → Value → Prop where
  | null (depth : Nat) : IsTextual depth .null
  | bool (depth : Nat) (value : Bool) : IsTextual depth (.bool value)
  | string (depth : Nat) (value : String) : IsTextual depth (.string value)
  | array {depth : Nat} {items : List Value} (inside : ∀ item ∈ items, IsTextual depth item) :
    IsTextual (depth + 1) (.array items)
  | object {depth : Nat} {members : Members} (names : (members.map Prod.fst).Nodup)
    (inside : ∀ member ∈ members, IsTextual depth member.2) :
    IsTextual (depth + 1) (.object members)

/-! ## Steps between tokens -/

theorem skipBlank_breakLine (level : Nat) (rest : List Char) :
    skipBlank (Value.breakLine level rest) = skipBlank rest := by
  have spaces : ∀ count, skipBlank (List.replicate count ' ' ++ rest) = skipBlank rest := by
    intro count
    induction count with
    | zero => rfl
    | succ count ih =>
        rw [List.replicate_succ, List.cons_append, skipBlank, if_pos (.inl rfl), ih]
  rw [Value.breakLine, skipBlank, if_pos (.inr (.inl rfl)), spaces]

/-- A text starts with a token that does not close an array. -/
def StartsValue (cs : List Char) : Prop :=
  ∃ c rest, cs = c :: rest ∧ skipBlank cs = c :: rest ∧ c ≠ ']'

theorem Value.IsTextual.startsValue {depth : Nat} {value : Value} (textual : value.IsTextual depth)
    (level : Nat) (rest : List Char) : StartsValue (value.writeIndented level rest) := by
  cases textual with
  | null => exact ⟨'n', _, rfl, rfl, by decide⟩
  | bool depth value =>
      cases value with
      | false => exact ⟨'f', _, rfl, rfl, by decide⟩
      | true => exact ⟨'t', _, rfl, rfl, by decide⟩
  | string depth value => exact ⟨'"', _, rfl, rfl, by decide⟩
  | @array depth items inside =>
      cases items with
      | nil => exact ⟨'[', _, rfl, rfl, by decide⟩
      | cons item items => exact ⟨'[', _, rfl, rfl, by decide⟩
  | @object depth members names inside =>
      cases members with
      | nil => exact ⟨'\x7b', _, rfl, rfl, by decide⟩
      | cons member members => exact ⟨'\x7b', _, rfl, rfl, by decide⟩

section

variable {cs : List Char} (level : Nat) (rest : List Char)

theorem nextItem_first (starts : StartsValue cs) :
    nextItem true (Value.breakLine level cs) = .ok (some cs) := by
  rcases starts with ⟨c, rest, rfl, alone, notClosing⟩
  rw [nextItem, skipBlank_breakLine, alone]
  dsimp only
  rw [if_neg notClosing, if_pos rfl]

theorem nextItem_further (starts : StartsValue cs) :
    nextItem false (',' :: Value.breakLine level cs) = .ok (some cs) := by
  rcases starts with ⟨c, rest, rfl, alone, notClosing⟩
  have comma : skipBlank (',' :: Value.breakLine level (c :: rest)) =
      ',' :: Value.breakLine level (c :: rest) := rfl
  rw [nextItem, comma]
  dsimp only
  rw [if_neg (by decide), if_neg (by decide), if_pos rfl, skipBlank_breakLine, alone]
  split
  · contradiction
  · rename_i same
    cases same
    exact absurd rfl notClosing
  · rfl

theorem nextItem_closing (isFirst : Bool) :
    nextItem isFirst (Value.breakLine level (']' :: rest)) = .ok none := by
  rw [nextItem, skipBlank_breakLine]
  rfl

theorem skipColon_name : skipColon (':' :: rest) = .ok rest :=
  rfl

theorem nextMember_first (name : String) :
    nextMember true (Value.breakLine level (writeString name rest)) =
      .ok (some (name.toList.foldr writeCharacter ('"' :: rest))) := by
  rw [nextMember, skipBlank_breakLine]
  rfl

theorem nextMember_further (name : String) :
    nextMember false (',' :: Value.breakLine level (writeString name rest)) =
      .ok (some (name.toList.foldr writeCharacter ('"' :: rest))) := by
  have comma : skipBlank (',' :: Value.breakLine level (writeString name rest)) =
      ',' :: Value.breakLine level (writeString name rest) := rfl
  rw [nextMember, comma]
  dsimp only
  rw [if_neg (by decide), if_neg (by decide), if_pos rfl, skipBlank_breakLine]
  rfl

theorem nextMember_closing (isFirst : Bool) :
    nextMember isFirst (Value.breakLine level ('\x7d' :: rest)) = .ok none := by
  rw [nextMember, skipBlank_breakLine]
  rfl

end

section

variable (steps depth : Nat) (cs : List Char)

theorem readValue_quote : readValue (steps + 1) depth ('"' :: cs) =
    (readStringWithin steps cs).map fun read => (.string read.1, read.2) :=
  rfl

theorem readValue_bracket :
    readValue (steps + 1) (depth + 1) ('[' :: cs) = readItems steps depth true [] cs :=
  rfl

theorem readValue_brace :
    readValue (steps + 1) (depth + 1) ('\x7b' :: cs) = readMembers steps depth true [] cs :=
  rfl

end

/-- A space in front of a value is passed over. -/
theorem readValue_space {steps depth : Nat} {cs : List Char} {read : Value × List Char}
    (reads : readValue steps depth cs = .ok read) :
    readValue steps depth (' ' :: cs) = .ok read := by
  cases steps with
  | zero =>
      rw [readValue] at reads
      cases reads
  | succ steps =>
      have space : skipBlank (' ' :: cs) = skipBlank cs := rfl
      rw [readValue] at reads ⊢
      rw [space, reads]

/-! ## The inverse -/

/-- What was written for a value is read as the value, in as many steps as characters were written. -/
def Value.IsReadBack (depth : Nat) (value : Value) : Prop :=
  ∀ (steps level : Nat) (rest : List Char),
    (value.writeIndented level rest).length ≤ steps + rest.length →
    readValue steps depth (value.writeIndented level rest) = .ok (value, rest)

section

variable {depth : Nat} {items : List Value} {members : Members}

theorem readItems_write (textual : ∀ item ∈ items, Value.IsTextual depth item)
    (readBack : ∀ item ∈ items, Value.IsReadBack depth item) (steps level outer : Nat)
    (read : List Value) (rest : List Char)
    (enough : (Value.writeIndentedItems level items
      (Value.breakLine outer (']' :: rest))).length ≤ steps + rest.length) :
    readItems steps depth false read
      (Value.writeIndentedItems level items (Value.breakLine outer (']' :: rest))) =
      .ok (.array (read.reverse ++ items), rest) := by
  induction items generalizing steps read with
  | nil =>
      rw [Value.writeIndentedItems, length_breakLine, List.length_cons] at enough
      cases steps with
      | zero => omega
      | succ steps =>
          rw [Value.writeIndentedItems, readItems, nextItem_closing, skipBlank_breakLine,
            List.append_nil]
          rfl
  | cons item items ih =>
      rcases List.forall_mem_cons.mp textual with ⟨ofFirst, ofOthers⟩
      rcases List.forall_mem_cons.mp readBack with ⟨first, others⟩
      have left := length_writeIndentedItems items level (Value.breakLine outer (']' :: rest))
      have written := length_writeIndented item level
        (Value.writeIndentedItems level items (Value.breakLine outer (']' :: rest)))
      rw [length_breakLine, List.length_cons] at left
      rw [Value.writeIndentedItems, List.length_cons, length_breakLine] at enough
      cases steps with
      | zero => omega
      | succ steps =>
          rw [Value.writeIndentedItems, readItems, nextItem_further level (ofFirst.startsValue _ _)]
          dsimp only
          rw [first steps level _ (by omega)]
          dsimp only
          rw [ih ofOthers others steps (item :: read) (by omega), List.reverse_cons,
            List.append_assoc]
          rfl

theorem readMembers_write (textual : ∀ member ∈ members, Value.IsTextual depth member.2)
    (readBack : ∀ member ∈ members, Value.IsReadBack depth member.2) (steps level outer : Nat)
    (read : Members) (rest : List Char)
    (enough : (Value.writeIndentedMembers level members
      (Value.breakLine outer ('\x7d' :: rest))).length ≤ steps + rest.length) :
    readMembers steps depth false read
      (Value.writeIndentedMembers level members (Value.breakLine outer ('\x7d' :: rest))) =
      .ok (.object (Members.collect (read.reverse ++ members)), rest) := by
  induction members generalizing steps read with
  | nil =>
      rw [Value.writeIndentedMembers, length_breakLine, List.length_cons] at enough
      cases steps with
      | zero => omega
      | succ steps =>
          rw [Value.writeIndentedMembers, readMembers, nextMember_closing, skipBlank_breakLine,
            List.append_nil]
          rfl
  | cons member members ih =>
      rcases member with ⟨name, value⟩
      rcases List.forall_mem_cons.mp textual with ⟨(ofFirst : value.IsTextual depth), ofOthers⟩
      rcases List.forall_mem_cons.mp readBack with ⟨(first : value.IsReadBack depth), others⟩
      have left := length_writeIndentedMembers members level
        (Value.breakLine outer ('\x7d' :: rest))
      have written := length_writeIndented value level
        (Value.writeIndentedMembers level members (Value.breakLine outer ('\x7d' :: rest)))
      have named := length_writeString name (':' :: ' ' :: Value.writeIndented level value
        (Value.writeIndentedMembers level members (Value.breakLine outer ('\x7d' :: rest))))
      rw [length_breakLine, List.length_cons] at left
      rw [Value.writeIndentedMembers, List.length_cons, length_breakLine] at enough
      simp only [List.length_cons] at named
      cases steps with
      | zero => omega
      | succ steps =>
          rw [Value.writeIndentedMembers, readMembers, nextMember_further]
          dsimp only
          rw [readStringWithin_write name (by omega)]
          dsimp only
          rw [skipColon_name]
          dsimp only
          rw [readValue_space (first steps level _ (by omega))]
          dsimp only
          rw [ih ofOthers others steps ((name, value) :: read) (by omega), List.reverse_cons,
            List.append_assoc]
          rfl

theorem isReadBack_array (textual : ∀ item ∈ items, Value.IsTextual depth item)
    (readBack : ∀ item ∈ items, Value.IsReadBack depth item) :
    Value.IsReadBack (depth + 1) (.array items) := by
  intro steps level rest enough
  cases items with
  | nil =>
      simp only [Value.writeIndented, Value.writeCompact, Value.writeCompactItems,
        List.length_cons] at enough ⊢
      cases steps with
      | zero => omega
      | succ steps =>
          rw [readValue_bracket]
          cases steps with
          | zero => omega
          | succ steps => rfl
  | cons item items =>
      rcases List.forall_mem_cons.mp textual with ⟨ofFirst, ofOthers⟩
      rcases List.forall_mem_cons.mp readBack with ⟨first, others⟩
      have left := length_writeIndentedItems items (level + 1)
        (Value.breakLine level (']' :: rest))
      have written := length_writeIndented item (level + 1)
        (Value.writeIndentedItems (level + 1) items (Value.breakLine level (']' :: rest)))
      rw [length_breakLine, List.length_cons] at left
      rw [Value.writeIndented, List.length_cons, length_breakLine] at enough
      -- One step opens the array and one enters its first item.
      rcases Nat.exists_eq_add_of_le' (show 2 ≤ steps by omega) with ⟨steps, rfl⟩
      rw [Value.writeIndented, readValue_bracket, readItems,
        nextItem_first (level + 1) (ofFirst.startsValue _ _)]
      dsimp only
      rw [first steps (level + 1) _ (by omega)]
      dsimp only
      rw [readItems_write ofOthers others steps (level + 1) level [item] rest (by omega)]
      rfl

theorem isReadBack_object (names : (members.map Prod.fst).Nodup)
    (textual : ∀ member ∈ members, Value.IsTextual depth member.2)
    (readBack : ∀ member ∈ members, Value.IsReadBack depth member.2) :
    Value.IsReadBack (depth + 1) (.object members) := by
  intro steps level rest enough
  cases members with
  | nil =>
      simp only [Value.writeIndented, Value.writeCompact, Value.writeCompactMembers,
        List.length_cons] at enough ⊢
      cases steps with
      | zero => omega
      | succ steps =>
          rw [readValue_brace]
          cases steps with
          | zero => omega
          | succ steps => rfl
  | cons member members =>
      rcases member with ⟨name, value⟩
      rcases List.forall_mem_cons.mp textual with ⟨(ofFirst : value.IsTextual depth), ofOthers⟩
      rcases List.forall_mem_cons.mp readBack with ⟨(first : value.IsReadBack depth), others⟩
      have left := length_writeIndentedMembers members (level + 1)
        (Value.breakLine level ('\x7d' :: rest))
      have written := length_writeIndented value (level + 1)
        (Value.writeIndentedMembers (level + 1) members (Value.breakLine level ('\x7d' :: rest)))
      have named := length_writeString name
        (':' :: ' ' :: Value.writeIndented (level + 1) value
          (Value.writeIndentedMembers (level + 1) members
            (Value.breakLine level ('\x7d' :: rest))))
      rw [length_breakLine, List.length_cons] at left
      rw [Value.writeIndented, List.length_cons, length_breakLine] at enough
      simp only [List.length_cons] at named
      rcases Nat.exists_eq_add_of_le' (show 2 ≤ steps by omega) with ⟨steps, rfl⟩
      rw [Value.writeIndented, readValue_brace, readMembers, nextMember_first (level + 1)]
      dsimp only
      rw [readStringWithin_write name (by omega)]
      dsimp only
      rw [skipColon_name]
      dsimp only
      rw [readValue_space (first steps (level + 1) _ (by omega))]
      dsimp only
      rw [readMembers_write ofOthers others steps (level + 1) level [(name, value)] rest (by omega),
        List.reverse_singleton, List.singleton_append, Members.collect_of_distinct names]

end

/-- Documents without numbers are read back. -/
theorem Value.IsTextual.isReadBack {depth : Nat} {value : Value}
    (textual : value.IsTextual depth) : value.IsReadBack depth := by
  induction textual with
  | null depth =>
      intro steps level rest enough
      simp only [writeIndented, writeCompact, List.length_cons] at enough
      cases steps with
      | zero => omega
      | succ steps => rfl
  | bool depth value =>
      intro steps level rest enough
      cases value
      all_goals
        simp only [writeIndented, writeCompact, List.length_cons] at enough
        cases steps with
        | zero => omega
        | succ steps => rfl
  | string depth value =>
      intro steps level rest enough
      have written := length_writeString value rest
      simp only [writeIndented, writeCompact] at enough
      cases steps with
      | zero => omega
      | succ steps =>
          simp only [writeIndented, writeCompact]
          rw [writeString, readValue_quote, readStringWithin_write value (by omega)]
          rfl
  | array inside ih => exact isReadBack_array inside ih
  | object names inside ih => exact isReadBack_object names inside ih

theorem readDocument_indented {depth : Nat} {value : Value} (textual : value.IsTextual depth) :
    readDocument depth (value.indented ++ "\n").toList = .ok value := by
  have text : (value.indented ++ "\n").toList = value.writeIndented 0 ['\n'] := by
    rw [Value.indented, String.toList_append, String.toList_ofList, value.writesInFront]
    rfl
  have enough : (value.writeIndented 0 ['\n']).length ≤
      2 * (value.writeIndented 0 ['\n']).length + 2 + ['\n'].length := by
    omega
  rw [text, readDocument, textual.isReadBack _ 0 ['\n'] enough]
  rfl

/-- A document without numbers is the value that its text is read as. -/
theorem Value.IsTextual.parse_indented {value : Value} (textual : value.IsTextual depthLimit) :
    Value.parse (value.indented ++ "\n") = .ok value := by
  rw [Value.parse, readDocument_indented textual]
  rfl

end Json
end KeyedReflection
