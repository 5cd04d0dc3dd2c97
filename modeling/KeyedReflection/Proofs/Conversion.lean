import KeyedReflection.Conversion
import KeyedReflection.Proofs.Text.Cutting
import Mathlib.Data.List.SplitBy

/-!
# Conversion specs and the names they make

A spec is read from three parts between semicolons, each without the white space around it
(`ConversionSpec.parse_eq_ok_iff`).  What was read can be joined and read again, since none of the parts has a
semicolon or white space at its ends.

The name of a user function is the template with the type of the field in place of its percent sign.  The type is
cut into runs of characters that may stand in identifiers and runs of others, and each of the latter becomes one
underscore (`sanitizeFrom_eq_flatMap_runs`).  The outcome is an identifier unless there is nothing to begin with,
as a digit in front gets an underscore before it.
-/

namespace KeyedReflection

namespace Text

theorem mem_of_mem_trim {s : String} {c : Char} (inside : c ∈ (trim s).toList) : c ∈ s.toList := by
  rw [trim, String.toList_ofList, Characters.trim, Characters.trimEnd, List.mem_reverse] at inside
  have further := List.mem_reverse.mp ((List.dropWhile_sublist _).subset inside)
  exact (List.dropWhile_sublist _).subset further

@[simp] theorem trim_trim (s : String) : trim (trim s) = trim s := by
  rw [trim, trim, String.toList_ofList, (Characters.isTrimmed_trim s.toList).trim_eq]

end Text

open Text (isWordCharacter isIdentifier)

/-! ## Identifiers -/

/-- The first character of an identifier is one of its other characters, but no digit. -/
theorem isFirstCharacter_iff {c : Char} :
    (c == '_' || c.isAlpha) = true ↔ c.isDigit = false ∧ isWordCharacter c = true := by
  have letterNoDigit : c.isAlpha = true → c.isDigit = false := by
    intro letter
    refine Bool.eq_false_iff.mpr fun digit => ?_
    have small : c.val ≤ 57 := of_decide_eq_true (Bool.and_eq_true_iff.mp digit).2
    have large : 65 ≤ c.val := by
      rcases Bool.or_eq_true_iff.mp letter with upper | lower
      · exact (of_decide_eq_true upper).1
      · have low : 97 ≤ c.val := of_decide_eq_true (Bool.and_eq_true_iff.mp lower).1
        exact UInt32.le_trans (by decide) low
    exact absurd (UInt32.le_trans large small) (by decide)
  simp only [isWordCharacter, Char.isAlphanum, Bool.or_eq_true, beq_iff_eq]
  constructor
  · rintro (rfl | letter)
    · exact ⟨by decide, .inl rfl⟩
    · exact ⟨letterNoDigit letter, .inr (.inl letter)⟩
  · rintro ⟨noDigit, underscore | letter | digit⟩
    · exact .inl underscore
    · exact .inr letter
    · rw [noDigit] at digit
      cases digit

/-- An identifier has some characters, all of them of identifiers, and does not begin with a digit. -/
theorem isIdentifier_iff {s : String} : isIdentifier s = true ↔
    s.toList ≠ [] ∧ (∀ c ∈ s.toList.head?, c.isDigit = false) ∧ ∀ c ∈ s.toList, isWordCharacter c = true := by
  rw [isIdentifier]
  cases s.toList with
  | nil => exact iff_of_false Bool.false_ne_true fun ⟨nonempty, _⟩ => nonempty rfl
  | cons c cs =>
      rw [Bool.and_eq_true, isFirstCharacter_iff, List.all_eq_true, List.forall_mem_cons, and_assoc]
      simp

/-! ## Runs of characters -/

/-- The runs of a text: as long as may be, each has characters of identifiers only, or others only. -/
def runs (cs : List Char) : List (List Char) :=
  cs.splitBy fun c d => isWordCharacter c == isWordCharacter d

/-- What becomes of a run. -/
def sanitizeRun (run : List Char) : List Char :=
  if run.all isWordCharacter then run else ['_']

theorem sanitizeFrom_words {run : List Char} (words : ∀ c ∈ run, isWordCharacter c = true) (rest : List Char) :
    sanitizeFrom false (run ++ rest) = run ++ sanitizeFrom false rest := by
  induction run with
  | nil => rfl
  | cons c run ih =>
      rcases List.forall_mem_cons.mp words with ⟨first, others⟩
      rw [List.cons_append, sanitizeFrom, if_pos first, ih others, List.cons_append]

/-- Within a run of other characters nothing more is written. -/
theorem sanitizeFrom_others {run : List Char} (others : ∀ c ∈ run, isWordCharacter c = false)
    (rest : List Char) : sanitizeFrom true (run ++ rest) = sanitizeFrom true rest := by
  induction run with
  | nil => rfl
  | cons c run ih =>
      rcases List.forall_mem_cons.mp others with ⟨first, further⟩
      rw [List.cons_append, sanitizeFrom, if_neg (by simp [first]), if_pos rfl, ih further]

/-- In front of a character of identifiers, and at the end, a run is over. -/
theorem sanitizeFrom_flag {rest : List Char} (ends : ∀ c ∈ rest.head?, isWordCharacter c = true) :
    sanitizeFrom true rest = sanitizeFrom false rest := by
  cases rest with
  | nil => rfl
  | cons c rest =>
      have word := ends c rfl
      rw [sanitizeFrom, sanitizeFrom, if_pos word, if_pos word]

/-- All characters of a run are of one sort. -/
theorem isWordCharacter_of_isChain {c : Char} {run : List Char}
    (uniform : (c :: run).IsChain fun c d => (isWordCharacter c == isWordCharacter d) = true) :
    ∀ d ∈ c :: run, isWordCharacter d = isWordCharacter c := by
  induction run generalizing c with
  | nil => simp
  | cons next run ih =>
      rcases List.isChain_cons_cons.mp uniform with ⟨same, further⟩
      intro d inside
      rcases List.mem_cons.mp inside with rfl | later
      · rfl
      · rw [ih further d later, beq_iff_eq.mp same]

/-- Of runs side by side, each is written for itself. -/
theorem sanitizeFrom_flatten {pieces : List (List Char)} (nonempty : [] ∉ pieces)
    (uniform : ∀ run ∈ pieces, run.IsChain fun c d => (isWordCharacter c == isWordCharacter d) = true)
    (apart : pieces.IsChain fun run next => ∃ some someNext,
      (isWordCharacter (run.getLast some) == isWordCharacter (next.head someNext)) = false) :
    sanitizeFrom false pieces.flatten = pieces.flatMap sanitizeRun := by
  induction pieces with
  | nil => rfl
  | cons run rest ih =>
      rcases List.forall_mem_cons.mp uniform with ⟨uniformRun, uniformRest⟩
      have further := ih (fun inside => nonempty (List.mem_cons_of_mem run inside)) uniformRest apart.tail
      rcases List.exists_cons_of_ne_nil fun none : run = [] => nonempty (none ▸ List.mem_cons_self) with
        ⟨c, cs, rfl⟩
      have sort := isWordCharacter_of_isChain uniformRun
      rw [List.flatten_cons, List.flatMap_cons, sanitizeRun]
      cases kind : isWordCharacter c with
      | true =>
          rw [kind] at sort
          rw [sanitizeFrom_words sort, if_pos (List.all_eq_true.mpr sort), further]
      | false =>
          rw [kind] at sort
          have ends : ∀ d ∈ rest.flatten.head?, isWordCharacter d = true := by
            intro d first
            cases rest with
            | nil => cases first
            | cons next others =>
                rcases (List.isChain_cons_cons.mp apart).1 with ⟨some, someNext, different⟩
                rw [sort _ (List.getLast_mem some), beq_eq_false_iff_ne] at different
                rw [List.flatten_cons, List.head?_append, List.head?_eq_some_head someNext] at first
                cases first
                exact eq_true_of_ne_false (Ne.symm different)
          rw [List.cons_append, sanitizeFrom, if_neg (by simp [kind]), if_neg Bool.false_ne_true,
            sanitizeFrom_others fun d inside => sort d (List.mem_cons_of_mem c inside), sanitizeFrom_flag ends,
            further, if_neg (by simp [kind])]
          rfl

/-- Every run of other characters is replaced by one underscore, and nothing else is replaced. -/
theorem sanitizeFrom_eq_flatMap_runs (cs : List Char) :
    sanitizeFrom false cs = (runs cs).flatMap sanitizeRun := by
  rcases List.splitBy_eq_iff.mp (rfl : runs cs = runs cs) with ⟨joined, nonempty, uniform, apart⟩
  conv_lhs => rw [joined]
  exact sanitizeFrom_flatten nonempty uniform apart

/-! ## Sanitized spellings -/

/-- The underscore that a digit in front gets. -/
def digitGuard (cs : List Char) : List Char :=
  if cs.head?.any Char.isDigit then ['_'] else []

theorem digitGuard_cons (c : Char) (cs : List Char) :
    digitGuard (c :: cs) = if c.isDigit then ['_'] else [] :=
  rfl

theorem toList_sanitize (spelling : String) :
    (sanitize spelling).toList = digitGuard spelling.toList ++ (runs spelling.toList).flatMap sanitizeRun := by
  rw [← sanitizeFrom_eq_flatMap_runs, sanitize, digitGuard]
  cases spelling.toList with
  | nil => rfl
  | cons c cs =>
      change (String.ofList (if c.isDigit then _ else _)).toList = (if c.isDigit then ['_'] else []) ++ _
      rw [String.toList_ofList]
      split <;> rfl

theorem isWordCharacter_of_mem_sanitizeFrom {flag : Bool} {cs : List Char} {c : Char}
    (inside : c ∈ sanitizeFrom flag cs) : isWordCharacter c = true := by
  fun_induction sanitizeFrom flag cs with
  | case1 => cases inside
  | case2 _ first cs word ih =>
      rcases List.mem_cons.mp inside with rfl | later
      · exact word
      · exact ih later
  | case3 _ _ _ ih => exact ih inside
  | case4 _ _ _ _ _ ih =>
      rcases List.mem_cons.mp inside with rfl | later
      · rfl
      · exact ih later

/-- A sanitized spelling has characters of identifiers only. -/
theorem isWordCharacter_of_mem_sanitize {spelling : String} {c : Char} (inside : c ∈ (sanitize spelling).toList) :
    isWordCharacter c = true := by
  rw [toList_sanitize, ← sanitizeFrom_eq_flatMap_runs, digitGuard] at inside
  rcases List.mem_append.mp inside with guard | body
  · split at guard
    · rw [List.mem_singleton.mp guard]
      rfl
    · cases guard
  · exact isWordCharacter_of_mem_sanitizeFrom body

/-- A sanitized spelling is an identifier unless there was nothing to sanitize. -/
theorem isIdentifier_sanitize {spelling : String} (some : spelling ≠ "") :
    isIdentifier (sanitize spelling) = true := by
  have filled : spelling.toList ≠ [] := mt String.toList_eq_nil_iff.mp some
  rcases List.exists_cons_of_ne_nil filled with ⟨c, cs, characters⟩
  have text : ∃ first rest, (sanitize spelling).toList = first :: rest ∧ first.isDigit = false := by
    rw [toList_sanitize, ← sanitizeFrom_eq_flatMap_runs, characters, sanitizeFrom]
    cases digit : c.isDigit with
    | true => exact ⟨'_', _, by rw [digitGuard_cons, if_pos digit]; rfl, rfl⟩
    | false =>
        rw [digitGuard_cons, if_neg (Bool.eq_false_iff.mp digit), List.nil_append]
        by_cases word : isWordCharacter c = true
        · exact ⟨c, _, if_pos word, digit⟩
        · exact ⟨'_', _, (if_neg word).trans (if_neg Bool.false_ne_true), rfl⟩
  rcases text with ⟨first, rest, begins, noDigit⟩
  refine isIdentifier_iff.mpr ⟨?_, ?_, fun _ => isWordCharacter_of_mem_sanitize⟩
  · rw [begins]
    exact List.cons_ne_nil first rest
  · rw [begins]
    rintro _ ⟨⟩
    exact noDigit

/-- Identifiers are left unchanged. -/
theorem sanitize_of_isIdentifier {spelling : String} (isName : isIdentifier spelling = true) :
    sanitize spelling = spelling := by
  rcases isIdentifier_iff.mp isName with ⟨_, noDigit, words⟩
  have unguarded : digitGuard spelling.toList = [] := by
    cases characters : spelling.toList with
    | nil => rfl
    | cons c cs =>
        rw [digitGuard_cons, if_neg (Bool.eq_false_iff.mp (noDigit c (characters ▸ rfl)))]
  have body := sanitizeFrom_words words []
  rw [List.append_nil] at body
  rw [← String.toList_inj, toList_sanitize, ← sanitizeFrom_eq_flatMap_runs, unguarded, body]
  exact List.append_nil _

/-- To sanitize once more changes nothing. -/
theorem sanitize_sanitize (spelling : String) : sanitize (sanitize spelling) = sanitize spelling := by
  by_cases empty : spelling = ""
  · subst empty
    rfl
  · exact sanitize_of_isIdentifier (isIdentifier_sanitize empty)

namespace ConversionSpec

/-! ## Reading specs -/

variable {spec : ConversionSpec} {text : String}

/-- A carrier that is not empty, a name for the function, and a template with one percent sign. -/
structure IsUsable (spec : ConversionSpec) : Prop where
  carrier : spec.carrierType ≠ ""
  function : isIdentifier spec.functionName = true
  template : spec.template.toList.count '%' = 1

/-- The text has three parts between semicolons, and the spec is what they are without the white space around
them. -/
def IsWrittenAs (spec : ConversionSpec) (text : String) : Prop :=
  ∃ carrierType functionName template,
    (∀ part ∈ [carrierType, functionName, template], ';' ∉ part.toList) ∧
      text = Text.join ";" [carrierType, functionName, template] ∧
      spec = ⟨Text.trim carrierType, Text.trim functionName, Text.trim template⟩

theorem isWrittenAs_iff :
    spec.IsWrittenAs text ↔
      (Text.splitOn ';' text).map Text.trim = [spec.carrierType, spec.functionName, spec.template] := by
  constructor
  · rintro ⟨carrierType, functionName, template, free, rfl, rfl⟩
    have parts := Text.splitOn_join ';' (List.cons_ne_nil _ _) free
    rw [show String.singleton ';' = ";" from rfl] at parts
    rw [parts]
    rfl
  · intro parts
    have three : (Text.splitOn ';' text).length = 3 := by
      rw [← List.length_map Text.trim, parts]
      rfl
    rcases List.length_eq_three.mp three with ⟨carrierType, functionName, template, split⟩
    refine ⟨carrierType, functionName, template, ?_, ?_, ?_⟩
    · rw [← split]
      exact fun part listed => Text.not_mem_of_mem_splitOn listed
    · rw [← split]
      exact (Text.join_splitOn ';' text).symm
    · rw [split] at parts
      simp only [List.map_cons, List.map_nil, List.cons.injEq, and_true] at parts
      rcases parts with ⟨first, second, third⟩
      rw [first, second, third]

/-- A text is read as a spec exactly when it has three parts that make a usable one. -/
theorem parse_eq_ok_iff : parse text = .ok spec ↔ spec.IsWrittenAs text ∧ spec.IsUsable := by
  rw [isWrittenAs_iff, parse]
  split
  · rename_i carrierType functionName template parts
    rw [parts]
    constructor
    · intro read
      split_ifs at read with empty noName notUnary
      cases read
      exact ⟨rfl, empty, by simpa using noName, not_not.mp notUnary⟩
    · rintro ⟨same, usable⟩
      cases same
      rw [if_neg usable.carrier, if_neg (by simp [usable.function]), if_neg (not_not.mpr usable.template)]
  · rename_i notThree
    refine iff_of_false nofun ?_
    rintro ⟨parts, _⟩
    exact notThree _ _ _ parts

/-- What was read can be joined and read again. -/
theorem parse_join (written : spec.IsWrittenAs text) (usable : spec.IsUsable) :
    parse (Text.join ";" [spec.carrierType, spec.functionName, spec.template]) = .ok spec := by
  rcases written with ⟨carrierType, functionName, template, free, _, rfl⟩
  refine parse_eq_ok_iff.mpr ⟨⟨_, _, _, ?_, rfl, ?_⟩, usable⟩
  · intro part listed
    have trimmed : part ∈ [carrierType, functionName, template].map Text.trim := listed
    rcases List.mem_map.mp trimmed with ⟨original, inside, rfl⟩
    exact fun mark => free original inside (Text.mem_of_mem_trim mark)
  · simp only [Text.trim_trim]

/-! ## Names of user functions -/

/-- Where there is no percent sign, nothing is replaced. -/
theorem flatMap_percent_of_free {cs : List Char} (free : '%' ∉ cs) (replacement : List Char) :
    (cs.flatMap fun c => if c = '%' then replacement else [c]) = cs := by
  induction cs with
  | nil => rfl
  | cons c cs ih =>
      have different : c ≠ '%' := fun same => free (same ▸ List.mem_cons_self)
      rw [List.flatMap_cons, if_neg different, ih fun inside => free (List.mem_cons_of_mem c inside),
        List.singleton_append]

/-- The type takes the place of the one percent sign of the template. -/
theorem exists_userFunctionFor (usable : spec.IsUsable) : ∃ before after : String,
    '%' ∉ before.toList ∧ '%' ∉ after.toList ∧ spec.template = before ++ "%" ++ after ∧
      ∀ declaredType, spec.userFunctionFor declaredType = before ++ sanitize declaredType ++ after := by
  have once := usable.template
  have inside : '%' ∈ spec.template.toList := List.count_pos_iff.mp (by omega)
  rcases List.eq_append_cons_of_mem inside with ⟨before, after, split, beforeFree⟩
  have afterFree : '%' ∉ after := by
    rw [split, List.count_append, List.count_cons_self] at once
    exact List.count_eq_zero.mp (by omega)
  refine ⟨.ofList before, .ofList after, ?_, ?_, ?_, ?_⟩
  · rwa [String.toList_ofList]
  · rwa [String.toList_ofList]
  · rw [← String.toList_inj, split]
    simp
  · intro declaredType
    rw [← String.toList_inj, userFunctionFor, split, List.flatMap_append, List.flatMap_cons,
      flatMap_percent_of_free beforeFree, flatMap_percent_of_free afterFree, if_pos rfl]
    simp

end ConversionSpec

/-- A text is read as a spec exactly when it has three parts that are, without the white space around them, a
carrier, an identifier and a template with one percent sign; what was read can be joined and read again, and names
a user function by putting the sanitized type in place of the percent sign.  A sanitized type is an identifier
unless it is empty, the same as before when it was one already, and otherwise has one underscore for every run of
other characters, and one in front of a digit that it begins with. -/
theorem conversionSpecs_spec :
    (∀ text spec, ConversionSpec.parse text = .ok spec ↔ spec.IsWrittenAs text ∧ spec.IsUsable) ∧
    (∀ text spec, ConversionSpec.parse text = .ok spec →
      ConversionSpec.parse (Text.join ";" [spec.carrierType, spec.functionName, spec.template]) = .ok spec ∧
      ∃ before after : String, '%' ∉ before.toList ∧ '%' ∉ after.toList ∧
        spec.template = before ++ "%" ++ after ∧
        ∀ declaredType, spec.userFunctionFor declaredType = before ++ sanitize declaredType ++ after) ∧
    ∀ spelling, (∀ c ∈ (sanitize spelling).toList, isWordCharacter c = true) ∧
      (spelling ≠ "" → isIdentifier (sanitize spelling) = true) ∧
      (isIdentifier spelling = true → sanitize spelling = spelling) ∧
      sanitize (sanitize spelling) = sanitize spelling ∧
      (sanitize spelling).toList = digitGuard spelling.toList ++ (runs spelling.toList).flatMap sanitizeRun := by
  refine ⟨fun _ _ => ConversionSpec.parse_eq_ok_iff, ?_, ?_⟩
  · intro text spec read
    rcases ConversionSpec.parse_eq_ok_iff.mp read with ⟨written, usable⟩
    exact ⟨ConversionSpec.parse_join written usable, ConversionSpec.exists_userFunctionFor usable⟩
  · intro spelling
    exact ⟨fun _ => isWordCharacter_of_mem_sanitize, isIdentifier_sanitize, sanitize_of_isIdentifier,
      sanitize_sanitize spelling, toList_sanitize spelling⟩

/-- The white space around the parts is not kept; the name of a type with punctuation at its end and a digit in
front is still an identifier. -/
theorem conversionSpecs_spec_color :
    let text := " std::string ;from_string;\tns::parse_%"
    let spec : ConversionSpec := ⟨"std::string", "from_string", "ns::parse_%"⟩
    ConversionSpec.parse text = .ok spec ∧
      ConversionSpec.parse "std::string;from_string;ns::parse_%" = .ok spec ∧
      spec.userFunctionFor "3d::point<int> " = "ns::parse__3d_point_int_" ∧
      isIdentifier (sanitize "3d::point<int> ") = true ∧ sanitize "_3d_point_int_" = "_3d_point_int_" := by
  intro text spec
  rcases conversionSpecs_spec with ⟨_, named, sanitized⟩
  have read : ConversionSpec.parse text = .ok spec := by decide +kernel
  refine ⟨read, (named text spec read).1, by decide +kernel, (sanitized _).2.1 (by decide), ?_⟩
  exact (sanitized _).2.2.1 (by decide +kernel)

end KeyedReflection
