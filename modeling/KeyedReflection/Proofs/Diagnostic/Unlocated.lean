import KeyedReflection.Command.FrontEnd
import KeyedReflection.Proofs.Diagnostic.Reporting

/-!
# Messages without a location

A line such as `error: no input files` has a label but no location in front of it.  It is not told from others
at once, though: every colon with a space behind it is first taken for the end of a location, also the one
behind the label and those within the message.  So a label that the message itself holds wins over the label in
front, together with the severity, and only what stands behind it is left of the message.

A message keeps its severity and its words exactly when no label stands in it, be it at its beginning or
behind a colon and a space.  Extraction stops, whatever else is reported, exactly when the first label within,
if there is one, is also of an error (`unlocated_kept_iff`).
-/

namespace KeyedReflection
namespace CompilerMessage

open Text.Characters (trimEnd trimEnd_append trimEnd_ne_nil)

/-! ## The first label in a line -/

/-- Behind a part of a line there are a mark, a label and a message. -/
def IsLabelledAt (line before : List Char) (severity : Severity) (message : List Char) : Prop :=
  ∃ rest, line = before ++ mark ++ rest ∧ IsLabelled rest severity message

/-- It is so behind this part and behind no shorter one. -/
structure IsFirstLabel (line before : List Char) (severity : Severity) (message : List Char) : Prop where
  labelled : IsLabelledAt line before severity message
  first : ∀ {earlier severity message}, IsLabelledAt line earlier severity message →
    before.length ≤ earlier.length

variable {line before message : List Char} {severity : Severity}

theorem not_isLabelledAt_nil : ¬IsLabelledAt [] before severity message := by
  rintro ⟨rest, split, _⟩
  simp [mark] at split

/-- What is labelled behind the first character is so in the rest of the line, unless a mark begins the
line. -/
theorem isLabelledAt_cons {c : Char} (apart : ∀ rest, c :: line ≠ mark ++ rest) :
    IsLabelledAt (c :: line) before severity message ↔
      ∃ further, before = c :: further ∧ IsLabelledAt line further severity message := by
  constructor
  · rintro ⟨rest, split, labelled⟩
    cases before with
    | nil => exact absurd split (apart rest)
    | cons d further =>
        rcases List.cons.inj split with ⟨rfl, tail⟩
        exact ⟨further, rfl, rest, tail, labelled⟩
  · rintro ⟨further, rfl, rest, rfl, labelled⟩
    exact ⟨rest, rfl, labelled⟩

theorem isLabelledAt_mark :
    IsLabelledAt (mark ++ line) before severity message ↔
      (before = [] ∧ IsLabelled line severity message) ∨
        ∃ further, before = mark ++ further ∧ IsLabelledAt line further severity message := by
  constructor
  · rintro ⟨rest, split, labelled⟩
    match before with
    | [] =>
        rw [List.nil_append] at split
        rw [← List.append_cancel_left split] at labelled
        exact .inl ⟨rfl, labelled⟩
    | [c] => cases split
    | c :: d :: further =>
        simp only [mark, List.cons_append, List.nil_append, List.cons.injEq] at split
        rcases split with ⟨rfl, rfl, tail⟩
        exact .inr ⟨further, rfl, rest, by simpa [mark] using tail, labelled⟩
  · rintro (⟨rfl, labelled⟩ | ⟨further, rfl, rest, rfl, labelled⟩)
    · exact ⟨line, rfl, labelled⟩
    · exact ⟨rest, by simp, labelled⟩

/-- A message is read at the first label, and there is none without a label. -/
theorem readLocated_cases (passed line : List Char) :
    (∃ before severity message, IsFirstLabel line before severity message ∧
      readLocated passed line = some (located (passed.reverse ++ before) severity message)) ∨
    ((∀ before severity message, ¬IsLabelledAt line before severity message) ∧
      readLocated passed line = none) := by
  fun_induction readLocated passed line with
  | case1 passed => exact .inr ⟨fun _ _ _ => not_isLabelledAt_nil, rfl⟩
  | case2 passed rest severity message read file line column place =>
      have labelled : IsLabelled rest severity message.toList := by
        rw [← readLabelled_eq_some_iff, String.ofList_toList, read]
      refine .inl ⟨[], severity, message.toList, ⟨isLabelledAt_mark.mpr (.inl ⟨rfl, labelled⟩), ?_⟩, ?_⟩
      · exact fun _ => Nat.zero_le _
      · rw [List.append_nil, located, place, String.ofList_toList]
  | case3 passed rest unread ih =>
      have notHere := readLabelled_eq_none_iff.mp unread
      rcases ih with ⟨before, severity, message, isFirst, read⟩ | ⟨none, read⟩
      · refine .inl ⟨mark ++ before, severity, message, ⟨?_, ?_⟩, ?_⟩
        · exact isLabelledAt_mark.mpr (.inr ⟨before, rfl, isFirst.labelled⟩)
        · intro earlier _ _ labelled
          rcases isLabelledAt_mark.mp labelled with ⟨_, here⟩ | ⟨further, rfl, later⟩
          · exact absurd here (notHere _ _)
          · have ordered := isFirst.first later
            simp only [List.length_append]
            omega
        · simpa [mark] using read
      · refine .inr ⟨fun before severity message labelled => ?_, read⟩
        rcases isLabelledAt_mark.mp labelled with ⟨_, here⟩ | ⟨further, _, later⟩
        · exact notHere _ _ here
        · exact none _ _ _ later
  | case4 passed c rest noMark ih =>
      have apart : ∀ behind, c :: rest ≠ mark ++ behind := by
        intro behind same
        rcases List.cons.inj same with ⟨sameColon, tail⟩
        exact noMark behind sameColon tail
      rcases ih with ⟨before, severity, message, isFirst, read⟩ | ⟨none, read⟩
      · refine .inl ⟨c :: before, severity, message, ⟨?_, ?_⟩, ?_⟩
        · exact (isLabelledAt_cons apart).mpr ⟨before, rfl, isFirst.labelled⟩
        · intro earlier _ _ labelled
          rcases (isLabelledAt_cons apart).mp labelled with ⟨further, rfl, later⟩
          have ordered := isFirst.first later
          simp only [List.length_cons]
          omega
        · simpa using read
      · refine .inr ⟨fun before severity message labelled => ?_, read⟩
        rcases (isLabelledAt_cons apart).mp labelled with ⟨further, _, later⟩
        exact none _ _ _ later

/-! ## Labels in front -/

/-- Behind a text without colons, labels are where they are in the rest. -/
theorem isLabelledAt_append {front : List Char} (free : ':' ∉ front) :
    IsLabelledAt (front ++ line) before severity message ↔
      ∃ further, before = front ++ further ∧ IsLabelledAt line further severity message := by
  induction front generalizing before with
  | nil => simp
  | cons c front ih =>
      have apart : ∀ rest, c :: (front ++ line) ≠ mark ++ rest := by
        intro rest same
        rw [(List.cons.inj same).1] at free
        exact free List.mem_cons_self
      rw [List.cons_append, isLabelledAt_cons apart]
      simp [ih fun inside => free (List.mem_cons_of_mem c inside)]

theorem isFirstLabel_append {front : List Char} (free : ':' ∉ front) :
    IsFirstLabel (front ++ line) before severity message ↔
      ∃ further, before = front ++ further ∧ IsFirstLabel line further severity message := by
  constructor
  · rintro ⟨labelled, first⟩
    rcases (isLabelledAt_append free).mp labelled with ⟨further, rfl, inside⟩
    refine ⟨further, rfl, inside, fun later => ?_⟩
    have ordered := first ((isLabelledAt_append free).mpr ⟨_, rfl, later⟩)
    simp only [List.length_append] at ordered
    omega
  · rintro ⟨further, rfl, labelled, first⟩
    refine ⟨(isLabelledAt_append free).mpr ⟨further, rfl, labelled⟩, fun later => ?_⟩
    rcases (isLabelledAt_append free).mp later with ⟨behind, rfl, labelled⟩
    have ordered := first labelled
    simp only [List.length_append]
    omega

/-- The severity of the first label within a message, at the beginning of the message or behind a mark. -/
def FirstLabelWithin (message : List Char) (severity : Severity) : Prop :=
  ∃ before rest, IsFirstLabel (mark ++ message) before severity rest

theorem FirstLabelWithin.unique {other : Severity} (within : FirstLabelWithin message severity)
    (otherWithin : FirstLabelWithin message other) : severity = other := by
  rcases within with ⟨before, text, isFirst⟩
  rcases otherWithin with ⟨otherBefore, otherText, otherFirst⟩
  have sameLength : before.length = otherBefore.length :=
    Nat.le_antisymm (isFirst.first otherFirst.labelled) (otherFirst.first isFirst.labelled)
  rcases isFirst.labelled with ⟨rest, split, labelled⟩
  rcases otherFirst.labelled with ⟨otherRest, otherSplit, otherLabelled⟩
  rw [split, List.append_assoc, List.append_assoc] at otherSplit
  rcases List.append_inj otherSplit sameLength with ⟨_, tails⟩
  rw [List.append_cancel_left tails, ← readLabelled_eq_some_iff] at labelled
  rw [← readLabelled_eq_some_iff, labelled] at otherLabelled
  exact (Prod.mk.inj (Option.some.inj otherLabelled)).1

/-- Behind a label within a message there is less than the message. -/
theorem IsFirstLabel.length_lt {rest : List Char}
    (isFirst : IsFirstLabel (mark ++ message) before severity rest) : rest.length < message.length := by
  rcases isFirst.labelled with ⟨behind, split, label, rfl, _⟩
  have lengths := congrArg List.length split
  simp only [mark, List.length_append, List.length_cons, List.length_nil] at lengths
  omega

/-- The first label within a message is found by reading the message as if it stood behind a location. -/
theorem firstLabelWithin_iff :
    FirstLabelWithin message severity ↔
      (readLocated [] (mark ++ message)).map CompilerMessage.severity = some severity := by
  rcases readLocated_cases [] (mark ++ message) with ⟨before, first, rest, isFirst, read⟩ | ⟨none, unread⟩
  · have within : FirstLabelWithin message first := ⟨before, rest, isFirst⟩
    rw [read, Option.map_some, Option.some_inj]
    constructor
    · exact within.unique
    · rintro rfl
      exact within
  · rw [unread, Option.map_none]
    constructor
    · rintro ⟨before, rest, isFirst⟩
      exact absurd isFirst.labelled (none before severity rest)
    · nofun

instance (message : List Char) (severity : Severity) : Decidable (FirstLabelWithin message severity) :=
  decidable_of_iff _ firstLabelWithin_iff.symm

section

variable {label message : String} (isLabel : (label, severity) ∈ Severity.labels)
  (filled : Text.trim message ≠ "")

include isLabel filled

/-- A line with a label in front is read at the first label within the message, if there is one. -/
theorem readLine_cases :
    (∃ read, FirstLabelWithin (trimEnd message.toList) read.severity ∧
      read.message.length < (Text.trimEnd message).length ∧
      readLine (label ++ ": " ++ message) = some read) ∨
    ((∀ first, ¬FirstLabelWithin (trimEnd message.toList) first) ∧
      readLine (label ++ ": " ++ message) = some ⟨severity, "", 0, 0, Text.trimEnd message⟩) := by
  have known : ∀ entry ∈ Severity.labels, ':' ∉ entry.1.toList ∧ Text.trim entry.1 = entry.1 := by decide
  have free := (known _ isLabel).1
  have nonempty : trimEnd message.toList ≠ [] := by
    apply trimEnd_ne_nil
    intro empty
    rw [Text.trim, empty] at filled
    exact filled rfl
  have whole : trimEnd (label ++ ": " ++ message).toList =
      label.toList ++ (mark ++ trimEnd message.toList) := by
    rw [String.toList_append, trimEnd_append nonempty, String.toList_append, List.append_assoc]
    rfl
  rcases readLocated_cases [] (label.toList ++ (mark ++ trimEnd message.toList)) with
    ⟨before, first, rest, isFirst, read⟩ | ⟨none, unread⟩
  · rcases (isFirstLabel_append free).mp isFirst with ⟨further, _, within⟩
    refine .inl ⟨located before first rest, ⟨further, rest, within⟩, ?_, ?_⟩
    · have shorter := within.length_lt
      simpa [located, Text.trimEnd] using shorter
    · rw [readLine, whole, read]
      rfl
  · refine .inr ⟨?_, ?_⟩
    · rintro first ⟨further, rest, isFirst⟩
      exact none _ _ _ ((isLabelledAt_append free).mpr ⟨further, rfl, isFirst.labelled⟩)
    · have ofLabel : Severity.ofLabel label = some severity :=
        Severity.ofLabel_eq_some_iff.mpr ((known _ isLabel).2.symm ▸ isLabel)
      rw [readLine, whole, unread]
      dsimp only
      rw [readBare, ← List.append_assoc, mark, Text.Characters.cut_append free]
      simp [free, ofLabel, Text.trimEnd]

end

/-! ## Reports -/

theorem readReport_line {line : String} (unbroken : '\n' ∉ line.toList) :
    readReport line = (readLine line).toList := by
  rw [readReport_eq, Text.splitOn_of_free unbroken]
  cases read : readLine line <;> simp [read]

/-- Extraction stops at the report of a compiler exactly when it has a message of an error. -/
theorem readOutput_eq_parseFailed_iff {compiler path : String} {left : ProgramOutput} :
    FrontEnd.readOutput compiler path left = .error (.parseFailed path (readReport left.report)) ↔
      ∃ read ∈ readReport left.report, read.severity.stopsExtraction = true := by
  rw [← List.any_eq_true]
  unfold FrontEnd.readOutput
  dsimp only
  cases grave : (readReport left.report).any fun read => read.severity.stopsExtraction with
  | true => simp
  | false =>
      rw [if_neg (by simp)]
      split
      · simp
      · split <;> simp

end CompilerMessage

open CompilerMessage

/-- What becomes of a line with the label of an error and no location.  Within any report it is read as a message
with that severity and all of its words exactly when no label stands within the message.  Otherwise it has the
severity of the first label within, and fewer words.  Every run of a compiler that leaves the line in its report
ends in that report exactly when the first label within the message, if there is one, is of an error, too. -/
theorem unlocated_kept_iff {label message : String} {severity : Severity}
    (isLabel : (label, severity) ∈ Severity.labels) (grave : severity.stopsExtraction = true)
    (unbroken : '\n' ∉ message.toList) (filled : Text.trim message ≠ "") :
    let line := label ++ ": " ++ message
    let words := (Text.trimEnd message).toList
    ((∀ report before after, Text.splitOn '\n' report = before ++ line :: after →
        readReport report = before.filterMap readLine ++
          ⟨severity, "", 0, 0, Text.trimEnd message⟩ :: after.filterMap readLine) ↔
      ∀ first, ¬FirstLabelWithin words first) ∧
    (∀ first, FirstLabelWithin words first →
      ∃ read, readLine line = some read ∧ read.severity = first ∧
        read.message.length < (Text.trimEnd message).length) ∧
    ((∀ compiler path left, line ∈ Text.splitOn '\n' left.report →
        FrontEnd.readOutput compiler path left = .error (.parseFailed path (readReport left.report))) ↔
      ∀ first, FirstLabelWithin words first → first.stopsExtraction = true) := by
  intro line words
  have lineUnbroken : '\n' ∉ line.toList := by
    have known : ∀ entry ∈ Severity.labels, '\n' ∉ entry.1.toList := by decide
    simp [line, known _ isLabel, unbroken]
  have alone : Text.splitOn '\n' line = [line] := Text.splitOn_of_free lineUnbroken
  have sameWords : words = Text.Characters.trimEnd message.toList := by
    simp [words, Text.trimEnd]
  rw [sameWords]
  rcases readLine_cases isLabel filled with ⟨read, within, shorter, reads⟩ | ⟨none, reads⟩
  · refine ⟨iff_of_false ?_ fun none => none _ within, ?_, ?_⟩
    · intro kept
      have asMessage := kept line [] [] alone
      rw [readReport_line lineUnbroken, reads] at asMessage
      cases asMessage
      exact Nat.lt_irrefl _ shorter
    · intro first firstWithin
      exact ⟨read, reads, within.unique firstWithin, shorter⟩
    · constructor
      · intro stops first firstWithin
        have stopped := stops "" "" ⟨true, "", line⟩ (by rw [alone]; exact List.mem_cons_self)
        rw [readOutput_eq_parseFailed_iff, readReport_line lineUnbroken, reads] at stopped
        simpa [within.unique firstWithin] using stopped
      · intro gravely compiler path left listed
        rw [readOutput_eq_parseFailed_iff, readReport_eq]
        exact ⟨read, List.mem_filterMap.mpr ⟨line, listed, reads⟩, gravely _ within⟩
  · refine ⟨iff_of_true ?_ none, fun first within => absurd within (none first), iff_of_true ?_ ?_⟩
    · intro report before after pieces
      rw [readReport_eq, pieces, List.filterMap_append, List.filterMap_cons, reads]
    · intro compiler path left listed
      rw [readOutput_eq_parseFailed_iff, readReport_eq]
      exact ⟨_, List.mem_filterMap.mpr ⟨line, listed, reads⟩, grave⟩
    · intro first within
      exact absurd within (none first)

/-- A colon with a space behind it does no harm when no label follows. -/
theorem unlocated_kept_iff_unopened :
    let message := "cannot open 'a: b.h': No such file or directory"
    let line := "fatal error" ++ ": " ++ message
    (∀ first, ¬FirstLabelWithin (Text.trimEnd message).toList first) ∧
      readReport line = [⟨.fatal, "", 0, 0, Text.trimEnd message⟩] ∧
      ∀ compiler path output succeeded,
        FrontEnd.readOutput compiler path ⟨succeeded, output, line⟩ =
          .error (.parseFailed path [⟨.fatal, "", 0, 0, Text.trimEnd message⟩]) := by
  intro message line
  have unread : readLocated [] (mark ++ (Text.trimEnd message).toList) = none := by decide +kernel
  have none : ∀ first, ¬FirstLabelWithin (Text.trimEnd message).toList first := by
    intro first
    rw [firstLabelWithin_iff, unread]
    nofun
  have alone : Text.splitOn '\n' line = [line] := Text.splitOn_of_free (by decide +kernel)
  have isLabel : ("fatal error", Severity.fatal) ∈ Severity.labels := by decide
  have unbroken : '\n' ∉ message.toList := by decide +kernel
  rcases unlocated_kept_iff isLabel rfl unbroken (by decide +kernel) with ⟨kept, _, stops⟩
  have read : readReport line = [⟨.fatal, "", 0, 0, Text.trimEnd message⟩] :=
    kept.mpr none line [] [] alone
  refine ⟨none, read, fun compiler path output succeeded => ?_⟩
  have stopped := stops.mpr (fun first within => absurd within (none first)) compiler path
    ⟨succeeded, output, line⟩ (by rw [alone]; exact List.mem_cons_self)
  rw [read] at stopped
  exact stopped

/-- The name of a file can make a warning of an error, after which extraction goes on. -/
theorem error_read_as_warning :
    let line := "error: no such file or directory: 'a: warning: b.h'"
    readReport line = [⟨.warning, "", 0, 0, "b.h'"⟩] ∧
      ∀ compiler path output succeeded,
        FrontEnd.readOutput compiler path ⟨succeeded, output, line⟩ ≠
          .error (.parseFailed path (readReport line)) := by
  intro line
  have read : readReport line = [⟨.warning, "", 0, 0, "b.h'"⟩] := by decide +kernel
  refine ⟨read, fun compiler path output succeeded => ?_⟩
  rw [ne_eq, readOutput_eq_parseFailed_iff, read]
  decide

end KeyedReflection
