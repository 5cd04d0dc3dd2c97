import KeyedReflection.Proofs.Declaration.Documentation
import KeyedReflection.Proofs.Text.Bytes
import Mathlib.Data.List.Forall2

/-!
# What taking off the indentation leaves

The indentation is given as a number of bytes, and is the column of a declaration, not of the comment: a line may
be shorter, and may have any characters there.  It is cut off only where all of its bytes are spaces, so that the
cut is between two characters (`dropIndentBytes_eq`), and `dedent` is what a reader of bytes computes
(`dedentBytes_eq`).

Of each line, what goes is told by `IsStripped`: spaces in front and white space at the end.  A line is left empty
when it has nothing else.  Such lines go at both ends of the comment and stay within it (`dedent_keeps`).
-/

namespace KeyedReflection

namespace Text

theorem utf8EncodeChar_space : String.utf8EncodeChar ' ' = [0x20] := by
  decide

/-- Only a space has bytes that begin with that of the space. -/
theorem eq_space_of_utf8EncodeChar {c : Char} {bytes : List UInt8}
    (encoded : String.utf8EncodeChar c = 0x20 :: bytes) : c = ' ' := by
  rcases lt_trichotomy c ' ' with before | same | after
  · have smaller := utf8EncodeChar_append_lt before [] bytes
    rw [encoded, utf8EncodeChar_space, List.append_nil] at smaller
    exact absurd smaller (List.lt_irrefl _)
  · exact same
  · have smaller := utf8EncodeChar_append_lt after bytes []
    rw [encoded, utf8EncodeChar_space, List.append_nil] at smaller
    exact absurd smaller (List.lt_irrefl _)

/-- Lines that can be told apart again come back from the joined text. -/
theorem lines_join {pieces : List (List Char)} (free : ∀ line ∈ pieces, '\n' ∉ line)
    (unreturned : ∀ line ∈ pieces, line.getLast? ≠ some '\r') (last : pieces.getLast? ≠ some []) :
    lines (join "\n" (pieces.map .ofList)) = pieces.map .ofList := by
  by_cases empty : pieces = []
  · subst empty
    rfl
  · have kept := (rejoinLines_eq_self _).mpr (keepsLines_join free unreturned last)
    have marked : '\n' ∈ "\n".toList := by decide
    apply join_injective marked ?_ (mt List.map_eq_nil_iff.mp empty) ?_ ?_ kept
    · intro none
      have joined : ['\n'].intercalate pieces = [] := by
        rw [rejoinLines, none] at kept
        simpa [join, Function.comp_def] using (congrArg String.toList kept).symm
      rcases List.exists_cons_of_ne_nil empty with ⟨first, rest, rfl⟩
      by_cases alone : rest = []
      · subst alone
        rw [List.intercalate_singleton] at joined
        exact last (joined ▸ rfl)
      · rw [List.intercalate_cons_of_ne_nil alone] at joined
        simp at joined
    · intro line listed
      rcases List.mem_map.mp listed with ⟨characters, inside, rfl⟩
      rw [String.toList_ofList]
      exact Characters.feed_not_mem_of_mem_lines inside
    · intro line listed
      rcases List.mem_map.mp listed with ⟨characters, inside, rfl⟩
      rw [String.toList_ofList]
      exact free characters inside

end Text

namespace Documentation

open Text (isBlank)
open Text.Characters (trimEnd dropMark)

/-! ## Bytes -/

/-- The text behind its first bytes.  There is none when it has fewer, or when these end inside of a character. -/
def dropBytes : Nat → List Char → Option (List Char)
  | 0, cs => some cs
  | _ + 1, [] => none
  | count + 1, c :: cs =>
    if c.utf8Size ≤ count + 1 then dropBytes (count + 1 - c.utf8Size) cs else none

/-- Take off the indentation when all of its bytes are there and are spaces. -/
def dropIndentBytes (indent : Nat) (line : List Char) : Option (List Char) :=
  let bytes := line.flatMap String.utf8EncodeChar
  if (bytes.take indent).length = indent ∧ (bytes.take indent).all (· == 0x20) then dropBytes indent line
  else some line

/-- The lines of a comment without their indentation and without empty lines at either end, if no line is cut
inside of a character. -/
def dedentBytes (lines : List String) (indent : Nat) : Option String :=
  let trimmed := lines.zipIdx.mapM fun (line, index) =>
    (if index = 0 then some line.toList else dropIndentBytes indent line.toList).map fun line =>
      trimEnd ((dropMark [' '] line).getD line)
  trimmed.map fun trimmed => Text.join "\n" ((innerLines trimmed).map .ofList)

/-- Take off the indentation when the whole of it is there. -/
def dropIndent (indent : Nat) (line : List Char) : List Char :=
  if List.replicate indent ' ' <+: line then line.drop indent else line

theorem replicate_prefix_iff {α : Type} [BEq α] [LawfulBEq α] {count : Nat} {a : α} {items : List α} :
    List.replicate count a <+: items ↔
      (items.take count).length = count ∧ (items.take count).all (· == a) = true := by
  rw [List.prefix_iff_eq_take, List.length_replicate, eq_comm, List.eq_replicate_iff, List.all_eq_true]
  simp only [beq_iff_eq]

theorem dedentLine_eq (indent : Nat) (line : List Char) :
    dedentLine indent line = trimEnd ((dropMark [' '] (dropIndent indent line)).getD (dropIndent indent line)) := by
  simp only [dedentLine, dropIndent, replicate_prefix_iff]

/-- A line begins with spaces exactly when its bytes begin with as many bytes of spaces. -/
theorem replicate_prefix_flatMap_iff {count : Nat} {line : List Char} :
    List.replicate count 0x20 <+: line.flatMap String.utf8EncodeChar ↔ List.replicate count ' ' <+: line := by
  induction count generalizing line with
  | zero => simp only [List.replicate_zero, List.nil_prefix]
  | succ count ih =>
      cases line with
      | nil => simp [List.replicate_succ]
      | cons c cs =>
          rw [List.flatMap_cons, List.replicate_succ, List.replicate_succ, List.cons_prefix_cons]
          rcases List.exists_cons_of_ne_nil (Text.utf8EncodeChar_ne_nil c) with ⟨byte, bytes, encoded⟩
          constructor
          · intro begins
            rw [encoded, List.cons_append, List.cons_prefix_cons] at begins
            rcases begins with ⟨rfl, further⟩
            cases Text.eq_space_of_utf8EncodeChar encoded
            cases Text.utf8EncodeChar_space.symm.trans encoded
            exact ⟨rfl, ih.mp further⟩
          · rintro ⟨rfl, further⟩
            rw [Text.utf8EncodeChar_space, List.singleton_append, List.cons_prefix_cons]
            exact ⟨rfl, ih.mpr further⟩

theorem dropBytes_replicate (count : Nat) (rest : List Char) :
    dropBytes count (List.replicate count ' ' ++ rest) = some rest := by
  induction count with
  | zero => rw [List.replicate_zero, List.nil_append, dropBytes]
  | succ count ih =>
      have one : ' '.utf8Size = 1 := by decide
      rw [List.replicate_succ, List.cons_append, dropBytes, one, if_pos (Nat.le_add_left _ _),
        Nat.add_sub_cancel, ih]

/-- The indentation ends between two characters, so that cutting off its bytes is cutting off its spaces. -/
theorem dropIndentBytes_eq (indent : Nat) (line : List Char) :
    dropIndentBytes indent line = some (dropIndent indent line) := by
  simp only [dropIndentBytes, dropIndent, ← replicate_prefix_iff, replicate_prefix_flatMap_iff]
  split
  · rename_i begins
    rcases begins with ⟨rest, rfl⟩
    rw [dropBytes_replicate, List.drop_left' (List.length_replicate)]
  · rfl

/-! ## What is left of a line -/

/-- What is left of a line: spaces are taken off in front and white space at the end.  The indentation goes as a
whole or not at all, and one more space goes where there is one. -/
structure IsStripped (indent : Nat) (line rest : List Char) (depth extra : Nat) (back : List Char) : Prop where
  split : line = List.replicate (depth + extra) ' ' ++ rest ++ back
  depth_eq : depth = if List.replicate indent ' ' <+: line then indent else 0
  extra_le : extra ≤ 1
  noSpace : extra = 0 → (rest ++ back).head? ≠ some ' '
  blank : ∀ c ∈ back, isBlank c = true
  ending : ∀ c ∈ rest.getLast?, isBlank c = false

/-- A line that holds nothing but white space. -/
def IsBlankLine (line : List Char) : Prop :=
  ∀ c ∈ line, isBlank c = true

theorem isBlankLine_iff_filter {line : List Char} : IsBlankLine line ↔ line.filter (!isBlank ·) = [] := by
  simp [IsBlankLine, List.filter_eq_nil_iff]

theorem dropIndent_append (indent : Nat) (line : List Char) :
    List.replicate (if List.replicate indent ' ' <+: line then indent else 0) ' ' ++ dropIndent indent line =
      line := by
  rw [dropIndent]
  split
  · rename_i begins
    rcases begins with ⟨rest, rfl⟩
    rw [List.drop_left' List.length_replicate]
  · rfl

theorem exists_isStripped (indent : Nat) (line : List Char) :
    ∃ depth extra back, IsStripped indent line (dedentLine indent line) depth extra back := by
  have front := dropIndent_append indent line
  rw [dedentLine_eq]
  cases dropped : dropMark [' '] (dropIndent indent line) with
  | none =>
      rcases Text.Characters.exists_trimEnd (dropIndent indent line) with ⟨back, blank, split⟩
      refine ⟨_, 0, back, ?_, rfl, Nat.zero_le _, fun _ => ?_, blank, Text.Characters.getLast?_trimEnd⟩
      · rw [Option.getD_none, List.append_assoc, ← split, Nat.add_zero, front]
      · rw [Option.getD_none, ← split]
        intro first
        rcases List.head?_eq_some_iff.mp first with ⟨rest, begins⟩
        rw [begins] at dropped
        cases dropped
  | some behind =>
      rcases Text.Characters.exists_trimEnd behind with ⟨back, blank, split⟩
      refine ⟨_, 1, back, ?_, rfl, Nat.le_refl _, nofun, blank, Text.Characters.getLast?_trimEnd⟩
      rw [Text.Characters.eq_append_of_dropMark dropped] at front
      rw [Option.getD_some, List.append_assoc, ← split, List.replicate_add, List.append_assoc]
      exact front.symm

namespace IsStripped

variable {indent : Nat} {line rest : List Char} {depth extra : Nat} {back : List Char}

/-- The characters of a line that are not white space are left. -/
theorem filter_eq (stripped : IsStripped indent line rest depth extra back) :
    rest.filter (!isBlank ·) = line.filter (!isBlank ·) := by
  have spaces : (List.replicate (depth + extra) ' ').filter (!isBlank ·) = [] := by
    rw [List.filter_replicate, if_neg (by decide)]
  have ending : back.filter (!isBlank ·) = [] := by
    rw [List.filter_eq_nil_iff]
    intro c inside
    rw [stripped.blank c inside]
    exact Bool.false_ne_true
  rw [stripped.split, List.filter_append, List.filter_append, spaces, ending, List.nil_append, List.append_nil]

/-- Nothing is left of a line exactly when it is blank. -/
theorem eq_nil_iff (stripped : IsStripped indent line rest depth extra back) :
    rest = [] ↔ IsBlankLine line := by
  rw [isBlankLine_iff_filter, ← stripped.filter_eq]
  constructor
  · rintro rfl
    rfl
  · intro none
    by_contra some
    have last := List.getLast_mem some
    have isDark := stripped.ending _ (List.getLast?_eq_some_getLast some)
    have isBlank := List.filter_eq_nil_iff.mp none _ last
    rw [isDark] at isBlank
    exact isBlank rfl

end IsStripped

theorem dedentLine_eq_nil_iff {indent : Nat} {line : List Char} :
    dedentLine indent line = [] ↔ IsBlankLine line := by
  rcases exists_isStripped indent line with ⟨depth, extra, back, stripped⟩
  exact stripped.eq_nil_iff

theorem filter_dedentLine (indent : Nat) (line : List Char) :
    (dedentLine indent line).filter (!isBlank ·) = line.filter (!isBlank ·) := by
  rcases exists_isStripped indent line with ⟨depth, extra, back, stripped⟩
  exact stripped.filter_eq

/-! ## What is left of a comment -/

/-- The indentation of a line of a comment: the first line has none. -/
def indentAt (indent index : Nat) : Nat :=
  if index = 0 then 0 else indent

/-- What is left of a line of a comment, which comes with its number. -/
def dedentNumbered (indent : Nat) (entry : String × Nat) : List Char :=
  dedentLine (indentAt indent entry.2) entry.1.toList

theorem dedentedLines_eq (lines : List String) (indent : Nat) :
    dedentedLines lines indent = lines.zipIdx.map (dedentNumbered indent) := by
  cases lines with
  | nil => rfl
  | cons first rest =>
      have later : ∀ entry ∈ rest.zipIdx 1, dedentNumbered indent entry = dedentLine indent entry.1.toList := by
        intro entry listed
        rw [dedentNumbered, indentAt, if_neg (Nat.ne_of_gt (List.le_snd_of_mem_zipIdx listed))]
      rw [dedentedLines, List.zipIdx_cons, List.map_cons, List.map_congr_left later,
        ← Function.comp_def (fun line : String => dedentLine indent line.toList) Prod.fst, ← List.map_map,
        List.zipIdx_map_fst]
      rfl

theorem dedent_eq (lines : List String) (indent : Nat) :
    dedent lines indent =
      Text.join "\n" ((innerLines (lines.zipIdx.map (dedentNumbered indent))).map .ofList) := by
  rw [← dedentedLines_eq]
  cases lines <;> rfl

/-- No line of a comment is cut inside of a character. -/
theorem dedentBytes_eq (lines : List String) (indent : Nat) :
    dedentBytes lines indent = some (dedent lines indent) := by
  have each : ∀ entry : String × Nat,
      ((if entry.2 = 0 then some entry.1.toList else dropIndentBytes indent entry.1.toList).map fun line =>
        trimEnd ((dropMark [' '] line).getD line)) = some (dedentNumbered indent entry) := by
    rintro ⟨line, index⟩
    rw [dedentNumbered, dedentLine_eq, indentAt]
    by_cases first : index = 0
    · rw [if_pos first, if_pos first]
      rfl
    · rw [if_neg first, if_neg first, dropIndentBytes_eq, Option.map_some]
  have all : lines.zipIdx.mapM (fun entry => some (dedentNumbered indent entry)) =
      some (lines.zipIdx.map (dedentNumbered indent)) :=
    List.mapM_pure
  rw [dedent_eq, dedentBytes]
  dsimp only
  rw [funext each, all, Option.map_some]

/-- Leaving out the empty lines at both ends leaves a stretch that begins and ends with other lines. -/
theorem exists_innerLines {α : Type} (left : α → List Char) (entries : List α) :
    ∃ before middle after, entries = before ++ middle ++ after ∧ (∀ entry ∈ before ++ after, left entry = []) ∧
      (∀ entry ∈ middle.head?, left entry ≠ []) ∧ (∀ entry ∈ middle.getLast?, left entry ≠ []) ∧
      innerLines (entries.map left) = middle.map left := by
  let none : α → Bool := fun entry => (left entry).isEmpty
  have taken : ∀ items : List α, ∀ entry ∈ items.takeWhile none, left entry = [] := by
    intro items entry listed
    exact List.isEmpty_iff.mp (List.all_eq_true.mp (List.all_takeWhile (p := none)) entry listed)
  have first : ∀ items : List α, ∀ entry ∈ (items.dropWhile none).head?, left entry ≠ [] := by
    intro items entry begins empty
    have notEmpty := List.head?_dropWhile_not none items
    rw [Option.mem_def.mp begins] at notEmpty
    exact absurd (List.isEmpty_iff.mpr empty) (Bool.eq_false_iff.mp notEmpty)
  let rest := entries.dropWhile none
  let middle := (rest.reverse.dropWhile none).reverse
  let after := (rest.reverse.takeWhile none).reverse
  have restSplit : rest = middle ++ after := by
    rw [← List.reverse_append, List.takeWhile_append_dropWhile, List.reverse_reverse]
  refine ⟨entries.takeWhile none, middle, after, ?_, ?_, ?_, ?_, ?_⟩
  · rw [List.append_assoc, ← restSplit]
    exact List.takeWhile_append_dropWhile.symm
  · intro entry listed
    rcases List.mem_append.mp listed with inFront | behind
    · exact taken entries entry inFront
    · exact taken rest.reverse entry (List.mem_reverse.mp behind)
  · intro entry begins
    apply first entries entry
    change entry ∈ rest.head?
    rw [restSplit, List.head?_append, Option.mem_def.mp begins]
    rfl
  · intro entry ends
    rw [List.getLast?_reverse] at ends
    exact first rest.reverse entry ends
  · rw [innerLines, List.dropWhile_map, ← List.map_reverse, List.dropWhile_map, ← List.map_reverse]
    rfl

/-- White space between lines aside, joining them keeps their characters. -/
theorem filter_intercalate (lines : List (List Char)) :
    (['\n'].intercalate lines).filter (!isBlank ·) = lines.flatMap (List.filter (!isBlank ·)) := by
  have feed : ['\n'].filter (!isBlank ·) = [] := by decide
  induction lines with
  | nil => rfl
  | cons line rest ih =>
      by_cases last : rest = []
      · subst last
        rw [List.intercalate_singleton, List.flatMap_singleton]
      · rw [List.intercalate_cons_of_ne_nil last, List.filter_append, List.filter_append, ih,
          List.flatMap_cons, feed, List.append_nil]

/-- The lines of a comment, with their numbers, from the first that is not blank to the last. -/
structure IsInner (lines : List String) (middle before after : List (String × Nat)) : Prop where
  split : lines.zipIdx = before ++ middle ++ after
  outside : ∀ entry ∈ before ++ after, IsBlankLine entry.1.toList
  first : ∀ entry ∈ middle.head?, ¬IsBlankLine entry.1.toList
  last : ∀ entry ∈ middle.getLast?, ¬IsBlankLine entry.1.toList

/-- What is left of a comment is what is left of its lines from the first to the last that is not blank. -/
theorem exists_dedent_eq (lines : List String) (indent : Nat) :
    ∃ middle before after, IsInner lines middle before after ∧
      dedent lines indent = Text.join "\n" ((middle.map (dedentNumbered indent)).map .ofList) := by
  rcases exists_innerLines (dedentNumbered indent) lines.zipIdx with
    ⟨before, middle, after, split, outside, first, last, left⟩
  refine ⟨middle, before, after, ⟨split, ?_, ?_, ?_⟩, ?_⟩
  · exact fun entry listed => dedentLine_eq_nil_iff.mp (outside entry listed)
  · exact fun entry begins => mt dedentLine_eq_nil_iff.mpr (first entry begins)
  · exact fun entry ends => mt dedentLine_eq_nil_iff.mpr (last entry ends)
  · rw [dedent_eq, left]

/-- The characters of a comment that are not white space are left. -/
theorem filter_dedent (lines : List String) (indent : Nat) :
    (dedent lines indent).toList.filter (!isBlank ·) = (lines.flatMap String.toList).filter (!isBlank ·) := by
  rcases exists_dedent_eq lines indent with ⟨middle, before, after, inner, text⟩
  have characters : (dedent lines indent).toList = ['\n'].intercalate (middle.map (dedentNumbered indent)) := by
    simp [text, Text.join, Function.comp_def]
  have nothing : ∀ entries ⊆ before ++ after,
      (entries.flatMap fun entry => entry.1.toList.filter (!isBlank ·)) = [] := by
    intro entries inside
    refine List.flatMap_eq_nil_iff.mpr fun entry listed => ?_
    exact isBlankLine_iff_filter.mp (inner.outside entry (inside listed))
  have numbered : (lines.flatMap fun line => line.toList.filter (!isBlank ·)) =
      lines.zipIdx.flatMap fun entry => entry.1.toList.filter (!isBlank ·) := by
    rw [← List.flatMap_map Prod.fst fun line : String => line.toList.filter (!isBlank ·), List.zipIdx_map_fst]
  rw [characters, filter_intercalate, List.flatMap_map, List.filter_flatMap, numbered, inner.split,
    List.flatMap_append, List.flatMap_append, nothing before (List.subset_append_left _ _),
    nothing after (List.subset_append_right _ _), List.nil_append, List.append_nil]
  simp only [dedentNumbered, filter_dedentLine]

/-- The lines of what is left of a comment are what is left of its lines, without blank ones at either end. -/
theorem exists_lines_dedent {lines : List String} (single : SingleLines lines) (indent : Nat) :
    ∃ middle before after, IsInner lines middle before after ∧
      Text.lines (dedent lines indent) = (middle.map (dedentNumbered indent)).map .ofList := by
  rcases exists_dedent_eq lines indent with ⟨middle, before, after, inner, text⟩
  refine ⟨middle, before, after, inner, ?_⟩
  rw [text, Text.lines_join]
  · intro line listed
    rcases List.mem_map.mp listed with ⟨entry, inside, rfl⟩
    have inLines : entry ∈ lines.zipIdx := by
      rw [inner.split]
      exact List.mem_append_left _ (List.mem_append_right _ inside)
    exact fun feed => single entry.1 (List.fst_mem_of_mem_zipIdx inLines)
      ((dedentLine_sublist _ entry.1.toList).subset feed)
  · intro line listed
    rcases List.mem_map.mp listed with ⟨entry, _, rfl⟩
    exact getLast?_dedentLine _ entry.1.toList
  · intro ends
    rw [List.getLast?_map, Option.map_eq_some_iff] at ends
    rcases ends with ⟨entry, isLast, empty⟩
    exact inner.last entry isLast (dedentLine_eq_nil_iff.mp empty)

/-- Taking off the indentation cuts no line inside of a character.  From the first line that is not blank to the
last, it leaves one line of each, without spaces in front, of which the indentation goes as a whole or not at all
and not in the first line of the comment, and without white space behind.  So it keeps all characters that are not
white space, and what it leaves is empty or begins and ends with a line that is not, and is the same after it was
cut into lines. -/
theorem dedent_keeps {lines : List String} (single : SingleLines lines) (indent : Nat) :
    dedentBytes lines indent = some (dedent lines indent) ∧
    (∃ before middle after, lines.zipIdx = before ++ middle ++ after ∧
      (∀ entry ∈ before ++ after, IsBlankLine entry.1.toList) ∧
      (∀ entry ∈ middle.head?, ¬IsBlankLine entry.1.toList) ∧
      (∀ entry ∈ middle.getLast?, ¬IsBlankLine entry.1.toList) ∧
      List.Forall₂ (fun entry rest => ∃ depth extra back,
          IsStripped (indentAt indent entry.2) entry.1.toList rest.toList depth extra back)
        middle (Text.lines (dedent lines indent))) ∧
    (dedent lines indent).toList.filter (!isBlank ·) = (lines.flatMap String.toList).filter (!isBlank ·) ∧
    (dedent lines indent = "" ∨ ∃ first last,
      (Text.lines (dedent lines indent)).head? = some first ∧ first ≠ "" ∧
      (Text.lines (dedent lines indent)).getLast? = some last ∧ last ≠ "") ∧
    Text.rejoinLines (dedent lines indent) = dedent lines indent := by
  have rejoined := (Text.rejoinLines_eq_self _).mpr (keepsLines_dedent single indent)
  rcases exists_lines_dedent single indent with ⟨middle, before, after, inner, left⟩
  have filled : ∀ entry : String × Nat, ¬IsBlankLine entry.1.toList →
      String.ofList (dedentNumbered indent entry) ≠ "" := by
    intro entry notBlank empty
    exact notBlank (dedentLine_eq_nil_iff.mp (String.ofList_eq_empty_iff.mp empty))
  refine ⟨dedentBytes_eq lines indent,
    ⟨before, middle, after, inner.split, inner.outside, inner.first, inner.last, ?_⟩,
    filter_dedent lines indent, ?_, rejoined⟩
  · rw [left, List.map_map, List.forall₂_map_right_iff, List.forall₂_same]
    intro entry _
    rw [Function.comp_apply, String.toList_ofList]
    exact exists_isStripped _ _
  · by_cases empty : middle = []
    · left
      rw [← rejoined, Text.rejoinLines, left, empty]
      rfl
    · right
      rw [left, List.map_map, List.head?_map, List.getLast?_map, List.head?_eq_some_head empty,
        List.getLast?_eq_some_getLast empty]
      exact ⟨_, _, rfl, filled _ (inner.first _ (List.head?_eq_some_head empty)), rfl,
        filled _ (inner.last _ (List.getLast?_eq_some_getLast empty))⟩

/-- In the second line, the fourth byte is the first of the two that a character has.  The third line is blank and
stays; the last one is blank and goes. -/
theorem dedent_keeps_names :
    let lines := [" Names.", " \u00e9\u00e9 ", "  ", "     \t\u00fc", "\r"]
    SingleLines lines ∧ dedentBytes lines 4 = some "Names.\n\u00e9\u00e9\n\n\t\u00fc" ∧
      (dedent lines 4).toList.filter (!isBlank ·) = "Names.\u00e9\u00e9\u00fc".toList ∧
      Text.rejoinLines (dedent lines 4) = dedent lines 4 := by
  intro lines
  have single : SingleLines lines := by
    simp [SingleLines, lines]
  have text : dedent lines 4 = "Names.\n\u00e9\u00e9\n\n\t\u00fc" := by decide +kernel
  rcases dedent_keeps single 4 with ⟨bytes, _, characters, _, rejoined⟩
  rw [text] at bytes
  refine ⟨single, bytes, ?_, rejoined⟩
  rw [characters]
  decide +kernel

end Documentation
end KeyedReflection
