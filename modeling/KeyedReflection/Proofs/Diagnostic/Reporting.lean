import KeyedReflection.Diagnostic.CompilerMessage
import KeyedReflection.Proofs.Text.Cutting
import Mathlib.Algebra.Group.Nat.Defs

/-!
# Reports are read back

A report is read line by line (`readReport_eq`), and white space at the end of a line does not count.  In a
line the first colon with a space behind it ends the location, as long as a label follows.

So a message that is printed as `file:line:column: label: message` is read as what was printed, whatever the
message says, and lines without a colon and a space are passed over (`readReport_join`).  All that is asked of
the file is that its own name has no colon with a space behind it; single colons, as behind the letter of a
drive, do no harm, because the line and the column are split off from the right.
-/

namespace KeyedReflection

/-! ## Labels -/

/-- The labels of messages and their severities. -/
def Severity.labels : List (String × Severity) :=
  [("ignored", .ignored), ("note", .note), ("remark", .note), ("warning", .warning), ("error", .error),
    ("fatal error", .fatal), ("fatal", .fatal)]

theorem Severity.ofLabel_eq_some_iff {label : String} {severity : Severity} :
    ofLabel label = some severity ↔ (Text.trim label, severity) ∈ labels := by
  unfold ofLabel
  generalize Text.trim label = name
  split
  all_goals simp_all [labels, eq_comm]

namespace CompilerMessage

open Text.Characters (trim trimEnd splitOn)

/-- A text begins with a label, with or without white space around it, and a message follows. -/
def IsLabelled (cs : List Char) (severity : Severity) (message : List Char) : Prop :=
  ∃ label, cs = label ++ mark ++ message ∧ (Text.trim (.ofList label), severity) ∈ Severity.labels

theorem colon_not_mem_label {label : List Char} {severity : Severity}
    (isLabel : (Text.trim (.ofList label), severity) ∈ Severity.labels) : ':' ∉ label := by
  have known : ∀ entry ∈ Severity.labels, ':' ∉ entry.1.toList := by decide
  intro inside
  rcases Text.Characters.mem_trim_or_isBlank inside with kept | blank
  · apply known _ isLabel
    rw [Text.trim, String.toList_ofList, String.toList_ofList]
    exact kept
  · exact absurd blank (by decide)

theorem readLabelled_eq_some_iff {cs message : List Char} {severity : Severity} :
    readLabelled cs = some (severity, .ofList message) ↔ IsLabelled cs severity message := by
  constructor
  · intro read
    rw [readLabelled] at read
    split at read
    · cases read
    · rename_i label rest found
      rcases Option.map_eq_some_iff.mp read with ⟨severity, isLabel, same⟩
      rcases Prod.mk.inj same with ⟨rfl, sameMessage⟩
      rw [← String.ofList_injective sameMessage]
      exact ⟨label, Text.Characters.eq_append_of_cut found, Severity.ofLabel_eq_some_iff.mp isLabel⟩
  · rintro ⟨label, rfl, isLabel⟩
    rw [readLabelled, mark, Text.Characters.cut_append (colon_not_mem_label isLabel)]
    rw [Option.map_eq_some_iff]
    exact ⟨severity, Severity.ofLabel_eq_some_iff.mpr isLabel, rfl⟩

theorem readLabelled_eq_none_iff {cs : List Char} :
    readLabelled cs = none ↔ ∀ severity message, ¬IsLabelled cs severity message := by
  rw [Option.eq_none_iff_forall_ne_some]
  constructor
  · intro unread severity message labelled
    exact unread _ (readLabelled_eq_some_iff.mpr labelled)
  · rintro none ⟨severity, message⟩ read
    apply none severity message.toList
    rw [← readLabelled_eq_some_iff, String.ofList_toList, read]

/-! ## Places -/

theorem decimalValue_eq (digits : List Char) : decimalValue digits = Nat.ofDigitChars 10 digits 0 := by
  rw [decimalValue, Nat.ofDigitChars_eq_foldl]
  simp only [Nat.mul_comm]

theorem isDigit_of_mem_toString {n : Nat} {c : Char} (inside : c ∈ (toString n).toList) :
    c.isDigit = true := by
  rw [Nat.toString_eq_repr, Nat.toList_repr] at inside
  exact Nat.isDigit_of_mem_toDigits (by decide) (by decide) inside

theorem not_mem_toString {c : Char} (noDigit : c.isDigit = false) (n : Nat) : c ∉ (toString n).toList := by
  intro inside
  rw [isDigit_of_mem_toString inside] at noDigit
  cases noDigit

/-- Without a sign all characters have to be digits. -/
theorem readPlaceNumber_of_unsigned {cs : List Char} (unsigned : '+' ∉ cs) :
    readPlaceNumber cs =
      if cs ≠ [] ∧ cs.all Char.isDigit ∧ decimalValue cs < Nat.pow 2 32 then some (decimalValue cs)
      else none := by
  unfold readPlaceNumber
  cases cs with
  | nil => rfl
  | cons c cs =>
      have noSign : c ≠ '+' := fun same => unsigned (same ▸ List.mem_cons_self)
      simp [noSign]

/-- A number that fits is read back. -/
theorem readPlaceNumber_toString {n : Nat} (small : n < 2 ^ 32) :
    readPlaceNumber (toString n).toList = some n := by
  have nonempty : (toString n).toList ≠ [] := by
    rw [Nat.toString_eq_repr, Nat.toList_repr]
    exact Nat.toDigits_ne_nil
  have digits : (toString n).toList.all Char.isDigit = true :=
    List.all_eq_true.mpr fun c inside => isDigit_of_mem_toString inside
  have value : decimalValue (toString n).toList = n := by
    rw [decimalValue_eq, Nat.toString_eq_repr, Nat.toList_repr]
    exact Nat.ofDigitChars_toDigits (by decide) (by decide)
  have unsigned := not_mem_toString (c := '+') rfl n
  rw [readPlaceNumber_of_unsigned unsigned, if_pos ⟨nonempty, digits, value.symm ▸ small⟩, value]

theorem cutLastColon_append {last : List Char} (free : ':' ∉ last) (before : List Char) :
    cutLastColon (before ++ ':' :: last) = some (before, last) := by
  have reversed : (before ++ ':' :: last).reverse = last.reverse ++ [':'] ++ before.reverse := by
    simp
  rw [cutLastColon, reversed, Text.Characters.cut_append (by simpa using free)]
  simp

/-- A place as it is printed. -/
def placeText (file : String) (line column : Nat) : String :=
  file ++ ":" ++ toString line ++ ":" ++ toString column

theorem readPlace_placeText (file : String) {line column : Nat} (lineSmall : line < 2 ^ 32)
    (columnSmall : column < 2 ^ 32) :
    readPlace (placeText file line column).toList = some (file, line, column) := by
  have split : (placeText file line column).toList =
      (file.toList ++ ':' :: (toString line).toList) ++ ':' :: (toString column).toList := by
    simp [placeText]
  have colonFree := not_mem_toString (c := ':') rfl
  rw [readPlace, split, cutLastColon_append (colonFree column)]
  dsimp only
  rw [readPlaceNumber_toString columnSmall, cutLastColon_append (colonFree line)]
  dsimp only
  rw [readPlaceNumber_toString lineSmall, Option.map_some, String.ofList_toList]

/-- A mark does not go beyond a colon that is put behind a text, when no space follows. -/
theorem mark_infix_of_append {before behind : List Char} (spaceless : ' ' ∉ behind)
    (inside : mark <:+: before ++ ':' :: behind) : mark <:+: before := by
  rcases inside with ⟨front, back, same⟩
  rw [mark, List.append_assoc] at same
  rcases List.append_eq_append_iff.mp same with ⟨more, rfl, rest⟩ | ⟨more, rfl, rest⟩
  · -- The text begins before the mark does and ends in or behind it.
    match more with
    | [] =>
        cases rest
        exact absurd List.mem_cons_self spaceless
    | [c] => cases rest
    | c :: d :: more =>
        simp only [List.cons_append, List.cons.injEq] at rest
        rcases rest with ⟨rfl, rfl, rest⟩
        exact ⟨front, more, by simp [mark]⟩
  · have space : ' ' ∈ ':' :: behind := by
      rw [rest]
      simp
    rcases List.mem_cons.mp space with colon | later
    · exact absurd colon (by decide)
    · exact absurd later spaceless

theorem mark_not_infix_placeText {file : String} (unmarked : ¬mark <:+: file.toList) (line column : Nat) :
    ¬mark <:+: (placeText file line column).toList := by
  have split : (placeText file line column).toList =
      (file.toList ++ ':' :: (toString line).toList) ++ ':' :: (toString column).toList := by
    simp [placeText]
  have spaceless := not_mem_toString (c := ' ') rfl
  rw [split]
  intro inside
  exact unmarked (mark_infix_of_append (spaceless line) (mark_infix_of_append (spaceless column) inside))

/-! ## Lines -/

/-- The message that is read from a label behind a location. -/
def located (location : List Char) (severity : Severity) (message : List Char) : CompilerMessage :=
  let (file, line, column) := (readPlace location).getD ("", 0, 0)
  ⟨severity, file, line, column, .ofList message⟩

theorem readLocated_labelled {passed rest message : List Char} {severity : Severity}
    (labelled : IsLabelled rest severity message) :
    readLocated passed (mark ++ rest) = some (located passed.reverse severity message) := by
  change readLocated passed (':' :: ' ' :: rest) = _
  rw [readLocated, readLabelled_eq_some_iff.mpr labelled]
  rfl

/-- A location is passed as long as there is no mark in it. -/
theorem readLocated_append {location : List Char} (unmarked : ¬mark <:+: location)
    (passed rest : List Char) :
    readLocated passed (location ++ mark ++ rest) =
      readLocated (location.reverse ++ passed) (mark ++ rest) := by
  induction location generalizing passed with
  | nil => rfl
  | cons c location ih =>
      have further : ¬mark <:+: location := fun inside => unmarked (List.infix_cons inside)
      have step : readLocated passed (c :: (location ++ mark ++ rest)) =
          readLocated (c :: passed) (location ++ mark ++ rest) := by
        rw [readLocated]
        rintro behind rfl same
        cases location with
        | nil => cases same
        | cons d location =>
            rw [List.cons_append, List.cons_append] at same
            rw [(List.cons.inj same).1] at unmarked
            exact unmarked ⟨[], location, rfl⟩
      have passes := step.trans (ih further (c :: passed))
      rwa [List.reverse_cons, List.append_assoc _ [c]]

theorem readLocated_of_unmarked {cs : List Char} (unmarked : ¬mark <:+: cs) (passed : List Char) :
    readLocated passed cs = none := by
  induction cs generalizing passed with
  | nil => rfl
  | cons c cs ih =>
      have further : ¬mark <:+: cs := fun inside => unmarked (List.infix_cons inside)
      rw [readLocated]
      · exact ih further (c :: passed)
      · rintro behind rfl rfl
        exact unmarked ⟨[], behind, rfl⟩

/-- Without a mark there is no message. -/
theorem readLine_of_unmarked {line : String} (unmarked : ¬mark <:+: line.toList) : readLine line = none := by
  rcases Text.Characters.exists_trimEnd line.toList with ⟨back, _, split⟩
  have none : ¬mark <:+: trimEnd line.toList := by
    intro marked
    rw [split] at unmarked
    exact unmarked (marked.trans (List.prefix_append _ back).isInfix)
  rw [readLine, readLocated_of_unmarked none, readBare, Text.Characters.cut_eq_none_iff.mpr none]

theorem readLine_return (line : List Char) : readLine (.ofList (line ++ ['\r'])) = readLine (.ofList line) := by
  rw [readLine, readLine, String.toList_ofList, String.toList_ofList,
    Text.Characters.trimEnd_append_blank line (by decide)]

/-- A report is read piece by piece. -/
theorem readReport_eq (report : String) :
    readReport report = (Text.splitOn '\n' report).filterMap readLine := by
  rcases Text.Characters.splitOn_lines report.toList with ⟨last, isLast, paired⟩
  have nothing : (last.map String.ofList).filterMap readLine = [] := by
    rcases isLast with rfl | rfl <;> rfl
  have sameOnPieces : ∀ {pieces lines : List (List Char)},
      List.Forall₂ (fun piece line => piece = line ∨ piece = line ++ ['\r']) pieces lines →
      (pieces.map String.ofList).filterMap readLine = (lines.map String.ofList).filterMap readLine := by
    intro pieces lines paired
    induction paired with
    | nil => rfl
    | cons first _ ih =>
        rw [List.map_cons, List.map_cons, List.filterMap_cons, List.filterMap_cons, ih]
        rcases first with rfl | rfl
        · rfl
        · rw [readLine_return]
  rw [readReport, Text.splitOn, sameOnPieces paired, List.map_append, List.filterMap_append, nothing,
    List.append_nil, Text.lines]

/-! ## Printed reports -/

/-- A message with its place and its label, as a compiler prints it. -/
structure Printed where
  file : String
  line : Nat
  column : Nat
  label : String
  severity : Severity
  message : String
  file_unmarked : ¬mark <:+: file.toList
  file_unbroken : '\n' ∉ file.toList
  line_small : line < 2 ^ 32
  column_small : column < 2 ^ 32
  isLabel : (label, severity) ∈ Severity.labels
  message_nonempty : message ≠ ""
  message_unbroken : '\n' ∉ message.toList
  message_dark : ∀ c ∈ message.toList.getLast?, Text.isBlank c = false

namespace Printed

/-- The line in a report. -/
def text (printed : Printed) : String :=
  placeText printed.file printed.line printed.column ++ ": " ++ printed.label ++ ": " ++ printed.message

/-- What is to be read from the line. -/
def content (printed : Printed) : CompilerMessage :=
  ⟨printed.severity, printed.file, printed.line, printed.column, printed.message⟩

variable (printed : Printed)

theorem text_unbroken : '\n' ∉ printed.text.toList := by
  have label : ∀ entry ∈ Severity.labels, '\n' ∉ entry.1.toList := by decide
  have number : ∀ n, '\n' ∉ Nat.toDigits 10 n := fun n => by
    simpa using not_mem_toString (c := '\n') rfl n
  simp [text, placeText, printed.file_unbroken, printed.message_unbroken, label _ printed.isLabel, number]

/-- A printed message is read back. -/
theorem readLine_text : readLine printed.text = some printed.content := by
  have split : printed.text.toList = (placeText printed.file printed.line printed.column).toList ++ mark ++
      (printed.label.toList ++ mark ++ printed.message.toList) := by
    simp [text, mark]
  have nonempty : printed.message.toList ≠ [] :=
    fun empty => printed.message_nonempty (String.toList_eq_nil_iff.mp empty)
  have whole : trimEnd printed.text.toList = printed.text.toList := by
    apply Text.Characters.trimEnd_of_dark
    rw [split, ← List.append_assoc, List.getLast?_append_of_ne_nil _ nonempty]
    exact printed.message_dark
  have trimmed : ∀ entry ∈ Severity.labels, Text.trim entry.1 = entry.1 := by decide
  have labelled : IsLabelled (printed.label.toList ++ mark ++ printed.message.toList) printed.severity
      printed.message.toList := by
    refine ⟨printed.label.toList, rfl, ?_⟩
    rw [String.ofList_toList, trimmed _ printed.isLabel]
    exact printed.isLabel
  have unmarked := mark_not_infix_placeText printed.file_unmarked printed.line printed.column
  have place := readPlace_placeText printed.file printed.line_small printed.column_small
  rw [readLine, whole, split, readLocated_append unmarked, readLocated_labelled labelled, List.append_nil,
    List.reverse_reverse, located, place, String.ofList_toList]
  rfl

end Printed

/-- A line of a report: a message, or something that has no colon with a space behind it. -/
inductive ReportLine where
  | message (printed : Printed)
  | other (text : String) (unmarked : ¬mark <:+: text.toList) (unbroken : '\n' ∉ text.toList)

namespace ReportLine

def text : ReportLine → String
  | message printed => printed.text
  | other text _ _ => text

def content? : ReportLine → Option CompilerMessage
  | message printed => some printed.content
  | other _ _ _ => none

theorem unbroken (line : ReportLine) : '\n' ∉ line.text.toList := by
  cases line with
  | message printed => exact printed.text_unbroken
  | other _ _ unbroken => exact unbroken

theorem readLine_text (line : ReportLine) : readLine line.text = line.content? := by
  cases line with
  | message printed => exact printed.readLine_text
  | other _ unmarked _ => exact readLine_of_unmarked unmarked

end ReportLine

/-- The messages of a report are read back, all of them and in order.  A report may end in a line feed, since
an empty line at the end is a line like others. -/
theorem readReport_join (lines : List ReportLine) :
    readReport (Text.join "\n" (lines.map ReportLine.text)) = lines.filterMap ReportLine.content? := by
  by_cases none : lines = []
  · subst none
    rfl
  · have pieces : Text.splitOn '\n' (Text.join "\n" (lines.map ReportLine.text)) =
        lines.map ReportLine.text := by
      apply Text.splitOn_join '\n' (mt List.map_eq_nil_iff.mp none)
      intro text listed
      rcases List.mem_map.mp listed with ⟨line, _, rfl⟩
      exact line.unbroken
    rw [readReport_eq, pieces, List.filterMap_map]
    exact List.filterMap_congr fun line _ => line.readLine_text

/-- A message about a file on a drive, which speaks of a warning. -/
def Printed.onDrive : Printed where
  file := "C:\\a.h"
  line := 2
  column := 5
  label := "error"
  severity := .error
  message := "odd: warning: x"
  file_unmarked := Text.Characters.cut_eq_none_iff.mp (by decide)
  file_unbroken := by decide
  line_small := by omega
  column_small := by omega
  isLabel := by decide
  message_nonempty := by decide
  message_unbroken := by decide
  message_dark := fun _ last => Option.some.inj last ▸ rfl

/-- A line that tells how many messages there were. -/
def ReportLine.count : ReportLine :=
  .other "1 error generated." (Text.Characters.cut_eq_none_iff.mp (by decide)) (by decide)

/-- The line that counts is passed over, and the message is the error that it was. -/
theorem readReport_join_onDrive :
    Printed.onDrive.text = "C:\\a.h:2:5: error: odd: warning: x" ∧
    readReport (Text.join "\n" [Printed.onDrive.text, "1 error generated."]) =
      [⟨.error, "C:\\a.h", 2, 5, "odd: warning: x"⟩] :=
  ⟨by decide +kernel, readReport_join [.message .onDrive, .count]⟩

end CompilerMessage
end KeyedReflection
