import KeyedReflection.Cpp.Units
import KeyedReflection.Proofs.Module.Constants

/-!
# Documentation and the code behind it

The key constants are written with the documentation of their fields as line comments between them.  A
compiler first joins every line that ends in a backslash to the next one (`spliceLines`) and then drops the
comments (`dropComments`), knowing literals and comments apart.  What it is left with are the lines of the
constants and groups, unchanged and in order, apart from those right behind a documentation whose last line
ends in a backslash (`remainingLines_keyBlock`).

The lines are followed one by one.  A comment line leaves nothing, and the reader is in the same comment
behind it exactly when the line ends in a backslash; a line of code is read as a whole and does not end in one,
since it ends in a semicolon or a brace.  Of the names no more is assumed than that they hold no slash, no
quote and no line feed.
-/

namespace KeyedReflection
namespace Cpp

/-! ## How a compiler reads comments -/

/-- Join the lines that end in a backslash to the next ones. -/
def spliceLines : List Char → List Char
  | '\\' :: '\n' :: cs => spliceLines cs
  | c :: cs => c :: spliceLines cs
  | [] => []

/-- What a reader is in the middle of. -/
inductive Passage where
  | code
  | literal
  | comment
  deriving DecidableEq

/-- Drop the line comments.  Two slashes in a string literal begin none. -/
def dropComments : Passage → List Char → List Char
  | _, [] => []
  | .code, '/' :: '/' :: cs => dropComments .comment cs
  | .code, c :: cs => c :: dropComments (if c = '"' then .literal else .code) cs
  | .literal, '\\' :: c :: cs => '\\' :: c :: dropComments .literal cs
  | .literal, c :: cs => c :: dropComments (if c = '"' then .code else .literal) cs
  | .comment, c :: cs => if c = '\n' then '\n' :: dropComments .code cs else dropComments .comment cs

/-- Whether there are only spaces in a line. -/
def isBlankLine (line : List Char) : Bool :=
  line.all fun c => c == ' '

/-- The lines with something in them. -/
def filledLines (cs : List Char) : List (List Char) :=
  (cs.splitOn '\n').filter fun line => !isBlankLine line

/-- The lines that are left of a text for a reader in the middle of a passage. -/
def linesLeft (passage : Passage) (cs : List Char) : List (List Char) :=
  filledLines (dropComments passage (spliceLines cs))

/-- The lines that are left of a text without its comments. -/
def remainingLines (text : String) : List String :=
  (linesLeft .code text.toList).map .ofList

example : remainingLines "a\n  // b \"\n  c \"//\\\"//\"; // d\\\n e\n/// f\n" = ["a", "  c \"//\\\"//\"; "] := by
  decide +kernel

/-! ## Lines one by one -/

/-- Whether the next line is joined to a line. -/
def continues (line : List Char) : Bool :=
  line.getLast? == some '\\'

theorem continues_append (front : List Char) {back : List Char} (nonempty : back ≠ []) :
    continues (front ++ back) = continues back := by
  rw [continues, List.getLast?_append_of_ne_nil _ nonempty, continues]

theorem spliceLines_cons {c : Char} {cs : List Char} (apart : c = '\\' → cs.head? ≠ some '\n') :
    spliceLines (c :: cs) = c :: spliceLines cs := by
  rw [spliceLines]
  rintro rest rfl rfl
  exact apart rfl rfl

/-- Text without backslashes stays as it is. -/
theorem spliceLines_append {cs : List Char} (free : '\\' ∉ cs) (rest : List Char) :
    spliceLines (cs ++ rest) = cs ++ spliceLines rest := by
  induction cs with
  | nil => rfl
  | cons c cs ih =>
      rw [List.cons_append, spliceLines_cons, ih fun inside => free (List.mem_cons_of_mem c inside),
        List.cons_append]
      rintro rfl
      exact absurd List.mem_cons_self free

/-- A line that does not continue stays a line. -/
theorem spliceLines_line {line : List Char} (free : '\n' ∉ line) (ends : continues line = false)
    (rest : List Char) : spliceLines (line ++ '\n' :: rest) = line ++ '\n' :: spliceLines rest := by
  induction line with
  | nil => exact spliceLines_cons nofun
  | cons c line ih =>
      have further : '\n' ∉ line := fun inside => free (List.mem_cons_of_mem c inside)
      have tail : continues line = false := by
        cases line with
        | nil => rfl
        | cons next line => rwa [continues, List.getLast?_cons_cons] at ends
      rw [List.cons_append, spliceLines_cons, ih further tail, List.cons_append]
      rintro rfl feed
      cases line with
      | nil => cases ends
      | cons next line => exact further (Option.some.inj feed ▸ List.mem_cons_self)

/-- A line that continues is joined to what follows. -/
theorem spliceLines_continued {line : List Char} (free : '\n' ∉ line) (rest : List Char) :
    spliceLines (line ++ '\\' :: '\n' :: rest) = line ++ spliceLines rest := by
  induction line with
  | nil => rw [List.nil_append, spliceLines, List.nil_append]
  | cons c line ih =>
      have further : '\n' ∉ line := fun inside => free (List.mem_cons_of_mem c inside)
      rw [List.cons_append, spliceLines_cons, ih further]
      · rfl
      · intro _ feed
        cases line with
        | nil => cases feed
        | cons next line => exact further (Option.some.inj feed ▸ List.mem_cons_self)

theorem dropComments_comment {line : List Char} (free : '\n' ∉ line) (rest : List Char) :
    dropComments .comment (line ++ rest) = dropComments .comment rest := by
  induction line with
  | nil => rfl
  | cons c line ih =>
      have different : c ≠ '\n' := fun same => free (same ▸ List.mem_cons_self)
      rw [List.cons_append, dropComments, if_neg different,
        ih fun inside => free (List.mem_cons_of_mem c inside)]

/-- Text without slashes and quotes is code. -/
theorem dropComments_code {cs : List Char} (quiet : ∀ c ∈ cs, c ≠ '/' ∧ c ≠ '"') (rest : List Char) :
    dropComments .code (cs ++ rest) = cs ++ dropComments .code rest := by
  induction cs with
  | nil => rfl
  | cons c cs ih =>
      rcases List.forall_mem_cons.mp quiet with ⟨⟨noSlash, noQuote⟩, others⟩
      rw [List.cons_append, dropComments, if_neg noQuote, ih others]
      · rfl
      · rintro _ rfl
        exact absurd rfl noSlash

theorem dropComments_feed (rest : List Char) :
    dropComments .code ('\n' :: rest) = '\n' :: dropComments .code rest := by
  rw [dropComments, if_neg (by decide)]
  nofun

theorem filledLines_line {line : List Char} (free : '\n' ∉ line) (filled : isBlankLine line = false)
    (rest : List Char) : filledLines (line ++ '\n' :: rest) = line :: filledLines rest := by
  rw [filledLines, List.splitOn_append_cons_self_of_not_mem free, List.filter_cons_of_pos (by simp [filled])]
  rfl

section

variable {line : List Char} (blank : isBlankLine line = true)

include blank

theorem feed_not_mem_of_blank : '\n' ∉ line :=
  fun inside => absurd (List.all_eq_true.mp blank _ inside) (by decide)

theorem filledLines_blank (rest : List Char) : filledLines (line ++ '\n' :: rest) = filledLines rest := by
  rw [filledLines, List.splitOn_append_cons_self_of_not_mem (feed_not_mem_of_blank blank),
    List.filter_cons_of_neg (by simp [blank])]
  rfl

theorem filledLines_eq_nil : filledLines line = [] := by
  rw [filledLines, List.splitOn_eq_singleton (feed_not_mem_of_blank blank)]
  exact List.filter_cons_of_neg (by simp [blank])

end

/-- The passage behind a comment line. -/
def behindComment (line : List Char) : Passage :=
  if continues line then .comment else .code

/-- A reader in a comment passes the line, whatever it holds. -/
theorem linesLeft_inComment {line : List Char} (free : '\n' ∉ line) (rest : List Char) :
    linesLeft .comment (line ++ '\n' :: rest) = linesLeft (behindComment line) rest := by
  unfold linesLeft behindComment
  cases ends : continues line with
  | false =>
      rw [spliceLines_line free ends, dropComments_comment free, dropComments, if_pos rfl,
        ← List.nil_append ('\n' :: _), filledLines_blank rfl]
      rfl
  | true =>
      rcases List.getLast?_eq_some_iff.mp (beq_iff_eq.mp ends) with ⟨front, rfl⟩
      have frontFree : '\n' ∉ front := fun inside => free (List.mem_append_left _ inside)
      rw [List.append_assoc, List.singleton_append, spliceLines_continued frontFree,
        dropComments_comment frontFree]
      rfl

/-- What is left behind the beginning of a comment begins with a line feed, if anything is left. -/
theorem filledLines_indented {indent : List Char} (blank : isBlankLine indent = true)
    (cs : List Char) :
    filledLines (indent ++ dropComments .comment cs) = filledLines (dropComments .comment cs) := by
  induction cs with
  | nil =>
      rw [dropComments, List.append_nil, filledLines_eq_nil blank]
      rfl
  | cons c cs ih =>
      rw [dropComments]
      split
      · rw [filledLines_blank blank, ← List.nil_append ('\n' :: _), filledLines_blank rfl]
      · exact ih

theorem space_of_blank {indent : List Char} (blank : isBlankLine indent = true) {c : Char}
    (inside : c ∈ indent) : c = ' ' :=
  beq_iff_eq.mp (List.all_eq_true.mp blank c inside)

/-- Nothing is left of a comment line, and it may go on in the next line. -/
theorem linesLeft_comment {indent body : List Char} (blank : isBlankLine indent = true)
    (free : '\n' ∉ body) (rest : List Char) :
    linesLeft .code (indent ++ '/' :: '/' :: body ++ '\n' :: rest) =
      linesLeft (behindComment body) rest := by
  have straight : '\\' ∉ indent ++ ['/', '/'] := by
    intro inside
    rcases List.mem_append.mp inside with spaced | slashes
    · exact absurd (space_of_blank blank spaced) (by decide)
    · exact absurd slashes (by decide)
  have quiet : ∀ c ∈ indent, c ≠ '/' ∧ c ≠ '"' := by
    intro c inside
    rw [space_of_blank blank inside]
    decide
  have line : indent ++ '/' :: '/' :: body ++ '\n' :: rest =
      (indent ++ ['/', '/']) ++ (body ++ '\n' :: rest) := by
    simp
  rw [← linesLeft_inComment free, linesLeft, line, spliceLines_append straight, List.append_assoc,
    dropComments_code quiet, List.cons_append, List.singleton_append, dropComments,
    filledLines_indented blank, linesLeft]

/-- A line that is read as code as a whole. -/
structure IsCodeLine (line : List Char) : Prop where
  free : '\n' ∉ line
  ends : continues line = false
  filled : isBlankLine line = false
  whole : ∀ rest, dropComments .code (line ++ '\n' :: rest) = line ++ '\n' :: dropComments .code rest

/-- A line of code is left as it is. -/
theorem IsCodeLine.linesLeft_append {line : List Char} (isCode : IsCodeLine line) (rest : List Char) :
    linesLeft .code (line ++ '\n' :: rest) = line :: linesLeft .code rest := by
  rw [linesLeft, spliceLines_line isCode.free isCode.ends, isCode.whole,
    filledLines_line isCode.free isCode.filled, linesLeft]

/-! ## Literals -/

theorem digitChar_plain : ∀ n < 8,
    Nat.digitChar n ≠ '"' ∧ Nat.digitChar n ≠ '\\' ∧ Nat.digitChar n ≠ '\n' := by
  decide

theorem dropComments_literal_plain {c : Char} (noQuote : c ≠ '"') (straight : c ≠ '\\')
    (rest : List Char) : dropComments .literal (c :: rest) = c :: dropComments .literal rest := by
  rw [dropComments, if_neg noQuote]
  rintro _ _ rfl
  exact absurd rfl straight

theorem dropComments_literal_escape (c : Char) (rest : List Char) :
    dropComments .literal ('\\' :: c :: rest) = '\\' :: c :: dropComments .literal rest := by
  rw [dropComments]

theorem dropComments_octalEscape (byte : UInt8) (rest : List Char) :
    dropComments .literal (octalEscape byte ++ rest) =
      octalEscape byte ++ dropComments .literal rest := by
  have plain : ∀ n < 8, ∀ cs, dropComments .literal (Nat.digitChar n :: cs) =
      Nat.digitChar n :: dropComments .literal cs :=
    fun n small => dropComments_literal_plain (digitChar_plain n small).1 (digitChar_plain n small).2.1
  have bound := byte.toNat_lt
  -- The first digit is read with the backslash.
  simp only [octalEscape, List.cons_append, List.nil_append, dropComments_literal_escape]
  rw [plain (byte.toNat / 8 % 8) (by omega), plain (byte.toNat % 8) (by omega)]

theorem dropComments_flatMap {α : Type} {write : α → List Char}
    (each : ∀ a rest, dropComments .literal (write a ++ rest) =
      write a ++ dropComments .literal rest) (items : List α) (rest : List Char) :
    dropComments .literal (items.flatMap write ++ rest) =
      items.flatMap write ++ dropComments .literal rest := by
  induction items with
  | nil => rfl
  | cons item items ih => rw [List.flatMap_cons, List.append_assoc, each, ih, List.append_assoc]

/-- Within a literal a written character does not end it. -/
theorem dropComments_literalCharacter (c : Char) (rest : List Char) :
    dropComments .literal (literalCharacter c ++ rest) =
      literalCharacter c ++ dropComments .literal rest := by
  unfold literalCharacter
  split_ifs with quote backslash feed tab graphic
  · exact dropComments_literal_escape _ _
  · exact dropComments_literal_escape _ _
  · exact dropComments_literal_escape _ _
  · exact dropComments_literal_escape _ _
  · exact dropComments_literal_plain quote backslash _
  · exact dropComments_flatMap dropComments_octalEscape _ _

/-- A literal is read as a whole. -/
theorem dropComments_stringLiteral (text : String) (rest : List Char) :
    dropComments .code ((stringLiteral text).toList ++ rest) =
      (stringLiteral text).toList ++ dropComments .code rest := by
  have opens : ∀ cs, dropComments .code ('"' :: cs) = '"' :: dropComments .literal cs := by
    intro cs
    rw [dropComments, if_pos rfl]
    nofun
  have closes : ∀ cs, dropComments .literal ('"' :: cs) = '"' :: dropComments .code cs := by
    intro cs
    rw [dropComments, if_pos rfl]
    nofun
  rw [stringLiteral, String.toList_ofList, List.cons_append, List.append_assoc, opens,
    dropComments_flatMap dropComments_literalCharacter, List.singleton_append, closes]
  simp

theorem feed_not_mem_literalCharacter (c : Char) : '\n' ∉ literalCharacter c := by
  unfold literalCharacter
  split_ifs with quote backslash feed tab graphic
  · decide
  · decide
  · decide
  · decide
  · exact fun inside => feed (List.mem_singleton.mp inside).symm
  · intro inside
    rcases List.mem_flatMap.mp inside with ⟨byte, _, digits⟩
    simp only [octalEscape, List.mem_cons, List.not_mem_nil, or_false] at digits
    have bound := byte.toNat_lt
    rcases digits with escape | digit | digit | digit
    · exact absurd escape (by decide)
    all_goals exact (digitChar_plain _ (by omega)).2.2 digit.symm

theorem feed_not_mem_stringLiteral (text : String) : '\n' ∉ (stringLiteral text).toList := by
  rw [stringLiteral, String.toList_ofList]
  intro inside
  rcases List.mem_cons.mp inside with quote | later
  · exact absurd quote (by decide)
  · rcases List.mem_append.mp later with written | quote
    · rcases List.mem_flatMap.mp written with ⟨c, _, character⟩
      exact feed_not_mem_literalCharacter c character
    · exact absurd quote (by decide)

/-! ## Lines of code -/

/-- Characters that are code wherever they stand in a line. -/
def IsQuiet (cs : List Char) : Prop :=
  ∀ c ∈ cs, c ≠ '/' ∧ c ≠ '"' ∧ c ≠ '\n'

instance (cs : List Char) : Decidable (IsQuiet cs) :=
  List.decidableBAll _ cs

theorem IsQuiet.append {first second : List Char} (left : IsQuiet first) (right : IsQuiet second) :
    IsQuiet (first ++ second) :=
  List.forall_mem_append.mpr ⟨left, right⟩

theorem IsQuiet.free {cs : List Char} (quiet : IsQuiet cs) : '\n' ∉ cs :=
  fun inside => (quiet _ inside).2.2 rfl

theorem IsQuiet.reads {cs : List Char} (quiet : IsQuiet cs) (rest : List Char) :
    dropComments .code (cs ++ rest) = cs ++ dropComments .code rest :=
  dropComments_code (fun c inside => ⟨(quiet c inside).1, (quiet c inside).2.1⟩) rest

/-- A line without slashes and quotes is code. -/
theorem IsQuiet.isCodeLine {line : List Char} (quiet : IsQuiet line) (ends : continues line = false)
    (filled : isBlankLine line = false) : IsCodeLine line where
  free := quiet.free
  ends
  filled
  whole rest := by rw [quiet.reads, dropComments_feed]

/-- A line with a literal in it is code. -/
theorem IsQuiet.isCodeLine_literal {front back : List Char} (text : String) (before : IsQuiet front)
    (filled : isBlankLine front = false) (after : IsQuiet back) (nonempty : back ≠ [])
    (ends : continues back = false) :
    IsCodeLine (front ++ ((stringLiteral text).toList ++ back)) where
  free inside := by
    rcases List.mem_append.mp inside with first | later
    · exact before.free first
    · rcases List.mem_append.mp later with literal | last
      · exact feed_not_mem_stringLiteral text literal
      · exact after.free last
  ends := by rwa [← List.append_assoc, continues_append _ nonempty]
  filled := by
    rw [isBlankLine, List.all_append]
    exact Bool.and_eq_false_imp.mpr fun blank => absurd (filled.symm.trans blank) (by decide)
  whole rest := by
    rw [List.append_assoc, List.append_assoc, before.reads, dropComments_stringLiteral, after.reads,
      dropComments_feed, List.append_assoc, List.append_assoc]

/-- The line of a constant. -/
def constantLine (level : Nat) (name key : String) : String :=
  indentation level ++ "const K " ++ name ++ " = " ++ stringLiteral key ++ ";"

/-- The line with which a group begins. -/
def groupLine (level : Nat) (name : String) : String :=
  indentation level ++ "const struct " ++ name ++ " \x7b"

/-- The line with which a group ends. -/
def groupEndLine (level : Nat) (name : String) : String :=
  indentation level ++ "\x7d " ++ name ++ ";"

theorem toList_indentation (level : Nat) :
    (indentation level).toList = List.replicate (2 * level) ' ' := by
  rw [indentation, String.toList_ofList]

theorem isBlankLine_indentation (level : Nat) : isBlankLine (indentation level).toList = true := by
  rw [toList_indentation, isBlankLine, List.all_replicate]
  simp

theorem isQuiet_indentation (level : Nat) : IsQuiet (indentation level).toList := by
  intro c inside
  rw [space_of_blank (isBlankLine_indentation level) inside]
  decide

section

variable (level : Nat) {name : String} (quiet : IsQuiet name.toList)

include quiet

theorem isCodeLine_constantLine (key : String) :
    IsCodeLine (constantLine level name key).toList := by
  let front := indentation level ++ "const K " ++ name ++ " = "
  have before : IsQuiet front.toList := by
    simp only [front, String.toList_append]
    exact (((isQuiet_indentation level).append (by decide)).append quiet).append (by decide)
  have after : IsQuiet ";".toList := by decide
  have line : (constantLine level name key).toList =
      front.toList ++ ((stringLiteral key).toList ++ ";".toList) := by
    simp only [front, constantLine, String.toList_append, List.append_assoc]
  rw [line]
  exact before.isCodeLine_literal key (by simp [front, isBlankLine]) after (by decide) (by decide)

theorem isCodeLine_groupLine : IsCodeLine (groupLine level name).toList := by
  have line : IsQuiet (groupLine level name).toList := by
    simp only [groupLine, String.toList_append]
    exact (((isQuiet_indentation level).append (by decide)).append quiet).append (by decide)
  refine line.isCodeLine ?_ (by simp [isBlankLine, groupLine])
  rw [groupLine, String.toList_append, continues_append _ (by decide)]
  decide

theorem isCodeLine_groupEndLine : IsCodeLine (groupEndLine level name).toList := by
  have line : IsQuiet (groupEndLine level name).toList := by
    simp only [groupEndLine, String.toList_append]
    exact (((isQuiet_indentation level).append (by decide)).append quiet).append (by decide)
  refine line.isCodeLine ?_ (by simp [isBlankLine, groupEndLine])
  rw [groupEndLine, String.toList_append, continues_append _ (by decide)]
  decide

end

/-! ## Documentation -/

/-- Lines, each with its line feed. -/
def written (lines : List String) : List Char :=
  lines.flatMap fun line => line.toList ++ ['\n']

theorem toList_unlines (lines : List String) : (unlines lines).toList = written lines := by
  simp [unlines, written, String.toList_join, List.flatMap_map]

theorem written_append (first second : List String) :
    written (first ++ second) = written first ++ written second := by
  rw [written, List.flatMap_append]
  rfl

theorem written_singleton (line : String) (rest : List Char) :
    written [line] ++ rest = line.toList ++ '\n' :: rest := by
  simp [written]

/-- A line of documentation as a comment. -/
def commentLine (indent line : String) : String :=
  if line = "" then indent ++ "///" else indent ++ "/// " ++ line

theorem docLines_eq (indent doc : String) :
    docLines indent doc = (Text.lines doc).map (commentLine indent) :=
  rfl

/-- Whether the code behind a documentation is read as a part of it. -/
def swallows (doc : String) : Bool :=
  match (Text.lines doc).getLast? with
  | some line => continues line.toList
  | none => false

/-- A comment line ends as its documentation does. -/
theorem exists_body (level : Nat) {line : String} (free : '\n' ∉ line.toList) :
    ∃ body, (commentLine (indentation level) line).toList =
        (indentation level).toList ++ '/' :: '/' :: body ∧
      '\n' ∉ body ∧ body ≠ [] ∧ continues body = continues line.toList := by
  rw [commentLine]
  by_cases empty : line = ""
  · subst empty
    exact ⟨['/'], by simp, by decide, by decide, by decide⟩
  · have filled : line.toList ≠ [] := mt String.toList_eq_nil_iff.mp empty
    exact ⟨['/', ' '] ++ line.toList, by simp [empty], by simp [free], by simp,
      continues_append _ filled⟩

/-- Nothing is left of a line of documentation, whether it begins a comment or goes on with one. -/
theorem linesLeft_commentLine (level : Nat) {line : String} (free : '\n' ∉ line.toList)
    {passage : Passage} (outside : passage ≠ .literal) (rest : List Char) :
    linesLeft passage ((commentLine (indentation level) line).toList ++ '\n' :: rest) =
      linesLeft (behindComment line.toList) rest := by
  rcases exists_body level free with ⟨body, text, bodyFree, nonempty, ends⟩
  have blank := isBlankLine_indentation level
  rw [text, behindComment, ← ends]
  cases passage with
  | code => exact linesLeft_comment blank bodyFree rest
  | literal => exact absurd rfl outside
  | comment =>
      have whole : '\n' ∉ (indentation level).toList ++ '/' :: '/' :: body := by
        simp [bodyFree, feed_not_mem_of_blank blank]
      have same : continues ((indentation level).toList ++ '/' :: '/' :: body) = continues body := by
        rw [← continues_append ((indentation level).toList ++ ['/', '/']) nonempty, List.append_assoc]
        rfl
      rw [linesLeft_inComment whole, behindComment, same]

theorem behindComment_ne_literal (line : List Char) : behindComment line ≠ .literal := by
  unfold behindComment
  split <;> decide

/-- Behind lines of documentation it is the last of them that matters. -/
theorem linesLeft_commentLines (level : Nat) {lines : List String}
    (free : ∀ line ∈ lines, '\n' ∉ line.toList) {passage : Passage} (outside : passage ≠ .literal)
    (rest : List Char) :
    linesLeft passage (written (lines.map (commentLine (indentation level))) ++ rest) =
      linesLeft ((lines.getLast?.map fun line => behindComment line.toList).getD passage) rest := by
  induction lines generalizing passage with
  | nil => rfl
  | cons line lines ih =>
      rcases List.forall_mem_cons.mp free with ⟨first, others⟩
      rw [List.map_cons, ← List.singleton_append, written_append, List.append_assoc, written_singleton,
        linesLeft_commentLine level first outside, ih others (behindComment_ne_literal _)]
      cases lines with
      | nil => rfl
      | cons next lines => rw [List.getLast?_cons_cons, List.getLast?_cons]; rfl

/-- Documentation leaves nothing, but the reader may still be in its last comment behind it. -/
theorem linesLeft_docLines (level : Nat) (doc : String) (rest : List Char) :
    linesLeft .code (written (docLines (indentation level) doc) ++ rest) =
      linesLeft (if swallows doc then .comment else .code) rest := by
  have free : ∀ line ∈ Text.lines doc, '\n' ∉ line.toList := by
    intro line listed
    rcases List.mem_map.mp listed with ⟨characters, inside, rfl⟩
    rw [String.toList_ofList]
    exact Text.Characters.feed_not_mem_of_mem_lines inside
  rw [docLines_eq, linesLeft_commentLines level free (by decide), swallows]
  cases (Text.lines doc).getLast? with
  | none => rfl
  | some line => rfl

/-- A line of code behind documentation is left when the documentation does not swallow it. -/
theorem linesLeft_documented (level : Nat) (doc : String) {line : String}
    (isCode : IsCodeLine line.toList) (rest : List Char) :
    linesLeft .code (written (docLines (indentation level) doc ++ [line]) ++ rest) =
      (if swallows doc then [] else [line]).map String.toList ++ linesLeft .code rest := by
  rw [written_append, List.append_assoc, linesLeft_docLines, written_singleton]
  cases swallows doc with
  | true =>
      rw [if_pos rfl, if_pos rfl, linesLeft_inComment isCode.free, behindComment, isCode.ends]
      rfl
  | false => rw [if_neg (by decide), if_neg (by decide), isCode.linesLeft_append]; rfl

/-! ## Lines of constants and groups -/

mutual

/-- The lines of code of an item, without those in front of which there is a lost documentation. -/
def keptLines (lost : String → Bool) (level : Nat) : KeyItem → List String
  | .constant name key doc => if lost doc then [] else [constantLine level name key]
  | .group name doc items =>
    (if lost doc then [] else [groupLine level name]) ++
      (keptLinesAll lost (level + 1) items ++ [groupEndLine level name])

/-- The lines of code of some items, without those in front of which there is a lost documentation. -/
def keptLinesAll (lost : String → Bool) (level : Nat) : List KeyItem → List String
  | [] => []
  | item :: items => keptLines lost level item ++ keptLinesAll lost level items

end

/-- The lines of code of some items. -/
def codeLines (level : Nat) (items : List KeyItem) : List String :=
  keptLinesAll (fun _ => false) level items

/-- The name of a constant or a group. -/
def itemName : KeyItem → String
  | .constant name _ _ => name
  | .group name _ _ => name

/-- The documentation of a constant or a group. -/
def itemDoc : KeyItem → String
  | .constant _ _ doc => doc
  | .group _ doc _ => doc

/-- The constants and groups among some items, and those inside. -/
def allItems (items : List KeyItem) : List KeyItem :=
  (KeyItem.walkAll [] items).map Prod.snd

theorem keyItemLines_group (level : Nat) (name doc : String) (items : List KeyItem) :
    keyItemLines level (.group name doc items) =
      (docLines (indentation level) doc ++ [groupLine level name]) ++
        (keyItemsLines (level + 1) items ++ [groupEndLine level name]) := by
  rw [keyItemLines]
  simp only [groupLine, groupEndLine, List.append_assoc]

theorem keyItemLines_constant (level : Nat) (name key doc : String) :
    keyItemLines level (.constant name key doc) =
      docLines (indentation level) doc ++ [constantLine level name key] := by
  rw [keyItemLines]
  rfl

theorem map_snd_walk (item : KeyItem) (above other : List String) :
    (item.walk above).map Prod.snd = (item.walk other).map Prod.snd := by
  induction item using KeyItem.induction generalizing above other with
  | constant name key doc => rfl
  | group name doc items ih =>
      rw [KeyItem.walk, KeyItem.walk, KeyItem.walkAll_eq, KeyItem.walkAll_eq, List.map_cons,
        List.map_cons, List.map_flatMap, List.map_flatMap]
      exact congrArg _ (List.flatMap_congr fun item listed => ih item listed _ _)

theorem allItems_cons (item : KeyItem) (items : List KeyItem) :
    allItems (item :: items) = allItems [item] ++ allItems items := by
  simp [allItems, KeyItem.walkAll]

theorem allItems_constant (name key doc : String) :
    allItems [.constant name key doc] = [.constant name key doc] :=
  rfl

theorem allItems_group (name doc : String) (items : List KeyItem) :
    allItems [.group name doc items] = .group name doc items :: allItems items := by
  have inside : (KeyItem.walkAll ([] ++ [name]) items).map Prod.snd = allItems items := by
    rw [allItems, KeyItem.walkAll_eq, KeyItem.walkAll_eq, List.map_flatMap, List.map_flatMap]
    exact List.flatMap_congr fun item _ => map_snd_walk item _ _
  rw [allItems, KeyItem.walkAll, KeyItem.walkAll, KeyItem.walk, List.append_nil, List.map_cons, inside]

/-- Items by induction on all that is in them: it is enough to know of constants, of groups whose items
are known, and of items that are joined to a list. -/
theorem items_induction {motive : List KeyItem → Prop} (nil : motive [])
    (constant : ∀ name key doc, motive [.constant name key doc])
    (group : ∀ name doc items, motive items → motive [.group name doc items])
    (cons : ∀ item items, motive [item] → motive items → motive (item :: items))
    (items : List KeyItem) : motive items := by
  have all : ∀ items : List KeyItem, (∀ item ∈ items, motive [item]) → motive items := by
    intro items each
    induction items with
    | nil => exact nil
    | cons item items ih =>
        rcases List.forall_mem_cons.mp each with ⟨first, others⟩
        exact cons item items first (ih others)
  have each : ∀ item : KeyItem, motive [item] := by
    intro item
    induction item using KeyItem.induction with
    | constant name key doc => exact constant name key doc
    | group name doc items ih => exact group name doc items (all items ih)
  exact all items fun item _ => each item

theorem keptLinesAll_cons (lost : String → Bool) (level : Nat) (item : KeyItem) (items : List KeyItem) :
    keptLinesAll lost level (item :: items) =
      keptLinesAll lost level [item] ++ keptLinesAll lost level items := by
  simp [keptLinesAll]

theorem keptLinesAll_constant (lost : String → Bool) (level : Nat) (name key doc : String) :
    keptLinesAll lost level [.constant name key doc] =
      if lost doc then [] else [constantLine level name key] := by
  rw [keptLinesAll, keptLinesAll, keptLines, List.append_nil]

theorem keptLinesAll_group (lost : String → Bool) (level : Nat) (name doc : String)
    (items : List KeyItem) : keptLinesAll lost level [.group name doc items] =
      (if lost doc then [] else [groupLine level name]) ++
        (keptLinesAll lost (level + 1) items ++ [groupEndLine level name]) := by
  rw [keptLinesAll, keptLinesAll, keptLines, List.append_nil]

/-- What is left of the lines of some items. -/
theorem linesLeft_keyItemsLines {items : List KeyItem}
    (quiet : ∀ item ∈ allItems items, IsQuiet (itemName item).toList) (level : Nat) (rest : List Char) :
    linesLeft .code (written (keyItemsLines level items) ++ rest) =
      (keptLinesAll swallows level items).map String.toList ++ linesLeft .code rest := by
  induction items using items_induction generalizing level rest with
  | nil => rfl
  | constant name key doc =>
      have own : IsQuiet name.toList := quiet _ List.mem_cons_self
      rw [keyItemsLines, keyItemsLines, List.append_nil, keyItemLines_constant, keptLinesAll_constant,
        linesLeft_documented level doc (isCodeLine_constantLine level own key)]
  | group name doc items ih =>
      rw [allItems_group] at quiet
      rcases List.forall_mem_cons.mp quiet with ⟨outer, inner⟩
      have own : IsQuiet name.toList := outer
      rw [keyItemsLines, keyItemsLines, List.append_nil, keyItemLines_group, keptLinesAll_group,
        written_append, List.append_assoc, linesLeft_documented level doc (isCodeLine_groupLine level own),
        written_append, List.append_assoc, ih inner, written_singleton,
        (isCodeLine_groupEndLine level own).linesLeft_append]
      simp only [List.map_append, List.append_assoc, List.map_cons, List.map_nil, List.singleton_append]
  | cons item items first others =>
      rw [allItems_cons item items] at quiet
      rcases List.forall_mem_append.mp quiet with ⟨firstQuiet, othersQuiet⟩
      have single : keyItemsLines level [item] = keyItemLines level item := by
        rw [keyItemsLines, keyItemsLines, List.append_nil]
      rw [keyItemsLines, ← single, written_append, List.append_assoc, first firstQuiet,
        others othersQuiet, keptLinesAll_cons swallows level item items, List.map_append, List.append_assoc]

/-- Among the lines of code every lost documentation leaves one out. -/
theorem length_keptLinesAll (lost : String → Bool) (level : Nat) (items : List KeyItem) :
    (keptLinesAll lost level items).length + (allItems items).countP (fun item => lost (itemDoc item)) =
      (codeLines level items).length := by
  rw [codeLines]
  induction items using items_induction generalizing level with
  | nil => rfl
  | constant name key doc =>
      rw [allItems_constant, keptLinesAll_constant, keptLinesAll_constant, List.countP_singleton, itemDoc]
      cases lost doc <;> rfl
  | group name doc items ih =>
      rw [allItems_group, keptLinesAll_group, keptLinesAll_group, List.countP_cons, itemDoc]
      have inner := ih (level + 1)
      cases lost doc <;> simp <;> omega
  | cons item items first others =>
      rw [allItems_cons item items, keptLinesAll_cons lost level item items,
        keptLinesAll_cons _ level item items, List.countP_append, List.length_append,
        List.length_append, ← first level, ← others level]
      omega

/-- The lines that are kept are lines of code, in order. -/
theorem keptLinesAll_sublist (lost : String → Bool) (level : Nat) (items : List KeyItem) :
    (keptLinesAll lost level items).Sublist (codeLines level items) := by
  rw [codeLines]
  induction items using items_induction generalizing level with
  | nil => exact List.Sublist.refl _
  | constant name key doc =>
      rw [keptLinesAll_constant, keptLinesAll_constant]
      split
      · exact List.nil_sublist _
      · exact List.Sublist.refl _
  | group name doc items ih =>
      rw [keptLinesAll_group, keptLinesAll_group]
      refine List.Sublist.append ?_ ((ih (level + 1)).append_right _)
      split
      · exact List.nil_sublist _
      · exact List.Sublist.refl _
  | cons item items first others =>
      rw [keptLinesAll_cons lost level item items, keptLinesAll_cons _ level item items]
      exact (first level).append (others level)

theorem keptLinesAll_eq_iff (lost : String → Bool) (level : Nat) (items : List KeyItem) :
    keptLinesAll lost level items = codeLines level items ↔
      ∀ item ∈ allItems items, lost (itemDoc item) = false := by
  have count := length_keptLinesAll lost level items
  have none : (allItems items).countP (fun item => lost (itemDoc item)) = 0 ↔
      ∀ item ∈ allItems items, lost (itemDoc item) = false := by
    simp [List.countP_eq_zero]
  rw [← none]
  constructor
  · intro same
    rw [same] at count
    omega
  · intro nothing
    exact (keptLinesAll_sublist lost level items).eq_of_length (by omega)

/-! ## The block -/

theorem isCodeLine_blockBegin : IsCodeLine "const struct keys \x7b".toList :=
  IsQuiet.isCodeLine (by decide) (by decide) (by decide)

theorem isCodeLine_blockEnd : IsCodeLine "\x7d keys;".toList :=
  IsQuiet.isCodeLine (by decide) (by decide) (by decide)

/-- The lines of a block with some lines for the constants and groups. -/
def blockLines (lines : List String) : List String :=
  ["const struct keys \x7b"] ++ lines ++ ["\x7d keys;"]

theorem blockLines_inj {first second : List String} (same : blockLines first = blockLines second) :
    first = second := by
  simpa [blockLines] using same

theorem keyBlock_eq (keys : List KeyItem) : keyBlock keys = unlines (blockLines (keyItemsLines 1 keys)) :=
  rfl

theorem linesLeft_block {lines kept : List String}
    (inside : ∀ rest, linesLeft .code (written lines ++ rest) =
      kept.map String.toList ++ linesLeft .code rest) :
    linesLeft .code (written (blockLines lines)) = (blockLines kept).map String.toList := by
  have ending : linesLeft .code (written ["\x7d keys;"]) = ["\x7d keys;".toList] := by
    rw [← List.append_nil (written _), written_singleton, isCodeLine_blockEnd.linesLeft_append]
    rfl
  rw [blockLines, written_append, written_append, List.append_assoc, written_singleton,
    isCodeLine_blockBegin.linesLeft_append, inside, ending]
  simp only [blockLines, List.map_append, List.map_cons, List.map_nil, List.cons_append,
    List.nil_append]

/-- When a compiler has joined the lines of a module's block and dropped the comments, it is left with the
lines of the constants and groups, unchanged and in order, but for those right behind a documentation that
ends in a backslash; so with all of them exactly when there is no such documentation. -/
theorem remainingLines_keyBlock (m : ReflectionModule)
    (quiet : ∀ item ∈ allItems m.keys, IsQuiet (itemName item).toList) :
    remainingLines (keyBlock m.keys) = blockLines (keptLinesAll swallows 1 m.keys) ∧
    (keptLinesAll swallows 1 m.keys).Sublist (codeLines 1 m.keys) ∧
    (remainingLines (keyBlock m.keys) = blockLines (codeLines 1 m.keys) ↔
      ∀ item ∈ allItems m.keys, swallows (itemDoc item) = false) := by
  have left : remainingLines (keyBlock m.keys) = blockLines (keptLinesAll swallows 1 m.keys) := by
    rw [remainingLines, keyBlock_eq, toList_unlines, linesLeft_block (linesLeft_keyItemsLines quiet 1),
      List.map_map]
    simp
  refine ⟨left, keptLinesAll_sublist swallows 1 m.keys, ?_⟩
  rw [left, ← keptLinesAll_eq_iff swallows 1 m.keys]
  exact ⟨blockLines_inj, congrArg blockLines⟩

/-- A window of which every field is documented. -/
def documentedWindow (size width title : String) : Record where
  namespaces := ["ui"]
  name := "window"
  origin := .schema
  tree := (((FieldTree.new "window" "A window.").add 0 (.node ⟨"size", size, []⟩)).add 1
    (.leaf ⟨"width", "int", "int", false, false, width⟩)).add 0
      (.leaf ⟨"title", "std::string", "std::string", false, false, title⟩)

/-- The key constants of a record's module are known from its resolved keys. -/
theorem exists_built_with {record : Record} (plain : record.tree.HasPlainNames) {p : List KeyItem → Bool}
    (holds : ((keyRulesFor record .empty "/" none).resolve record.tree).toOption.any
      (fun keyed => p (ReflectionModule.keyItems record.tree keyed)) = true) :
    ∃ m, buildModule record .slashed = .ok m ∧ p m.keys = true := by
  cases resolved : (keyRulesFor record .empty "/" none).resolve record.tree with
  | error clash =>
      rw [resolved] at holds
      cases holds
  | ok keyed =>
      rw [resolved] at holds
      rcases @buildModule_of_resolved record .slashed keyed plain resolved rfl with ⟨m, built⟩
      rcases exists_keyed_of_built built with ⟨others, again, _, isOver⟩
      cases resolved.symm.trans again
      exact ⟨m, built, isOver.keys ▸ holds⟩

/-- Nothing is lost behind blank lines, comment marks and backslashes that do not end a documentation. -/
theorem remainingLines_keyBlock_window : ∃ m,
    buildModule (documentedWindow "C:\\ \n\n" "// or \"//\" \\\n  in pixels\r\n" "") .slashed = .ok m ∧
    (∀ item ∈ allItems m.keys, IsQuiet (itemName item).toList) ∧
    remainingLines (keyBlock m.keys) = blockLines (codeLines 1 m.keys) := by
  rcases @exists_built_with
      (documentedWindow "C:\\ \n\n" "// or \"//\" \\\n  in pixels\r\n" "") (by decide)
      (fun keys => (allItems keys).all fun item =>
        decide (IsQuiet (itemName item).toList) && !swallows (itemDoc item)) (by decide +kernel) with
    ⟨m, built, holds⟩
  simp only [List.all_eq_true, Bool.and_eq_true, decide_eq_true_eq, Bool.not_eq_true'] at holds
  have quiet : ∀ item ∈ allItems m.keys, IsQuiet (itemName item).toList :=
    fun item listed => (holds item listed).1
  exact ⟨m, built, quiet, (remainingLines_keyBlock m quiet).2.2.mpr fun item listed =>
    (holds item listed).2⟩

/-- A documentation that ends in a backslash takes the line of its constant with it. -/
theorem constant_swallowed : ∃ m,
    buildModule (documentedWindow "" "The width, as in C:\\" "") .slashed = .ok m ∧
    blockLines (codeLines 1 m.keys) = ["const struct keys \x7b", "  const struct size \x7b",
      "    const K width = \"size/width\";", "  \x7d size;", "  const K title = \"title\";",
      "\x7d keys;"] ∧
    remainingLines (keyBlock m.keys) = ["const struct keys \x7b", "  const struct size \x7b",
      "  \x7d size;", "  const K title = \"title\";", "\x7d keys;"] := by
  rcases @exists_built_with (documentedWindow "" "The width, as in C:\\" "") (by decide)
      (fun keys => blockLines (codeLines 1 keys) == ["const struct keys \x7b", "  const struct size \x7b",
          "    const K width = \"size/width\";", "  \x7d size;", "  const K title = \"title\";",
          "\x7d keys;"] &&
        remainingLines (keyBlock keys) == ["const struct keys \x7b", "  const struct size \x7b",
          "  \x7d size;", "  const K title = \"title\";", "\x7d keys;"]) (by decide +kernel) with
    ⟨m, built, holds⟩
  rw [Bool.and_eq_true, beq_iff_eq, beq_iff_eq] at holds
  exact ⟨m, built, holds⟩

end Cpp
end KeyedReflection
