import KeyedReflection.Cpp.Units
import KeyedReflection.Interpreter
import KeyedReflection.Proofs.Module.Building
import Std.Data.String.ToNat

/-!
# Switches as they are written

The lines of a switch are read here as a compiler reads them: control arrives at the first line behind the
label of a position that is no label itself, and without a label at the line for all other positions
(`landing?`).  The interpreter reads the switch from its branches instead, and the two agree
(`switches_agree`).

Nothing is assumed of the names in the record.  Whatever stands in a line, it is told apart by its first
characters: a statement is indented further than labels are.
-/

namespace KeyedReflection
namespace Cpp

/-! ## Kinds of lines -/

/-- Whether a line begins with some words. -/
def begins (words line : String) : Bool :=
  words.toList.isPrefixOf line.toList

/-- Whether a line is the label of a position. -/
def isLabelOf (index : Nat) (line : String) : Bool :=
  begins ("  case " ++ toString index ++ ": // ") line

/-- Whether a line is a label. -/
def isLabel (line : String) : Bool :=
  begins "  case " line

/-- Whether a line is for the positions without a label. -/
def isDefault (line : String) : Bool :=
  begins "  default:" line

/-- The line at which control arrives for a position. -/
def landing? (lines : List String) (index : Nat) : Option String :=
  if lines.any (isLabelOf index) then
    (lines.dropWhile fun line => !isLabelOf index line).find? fun line => !isLabel line
  else lines.find? isDefault

theorem begins_iff {words line : String} :
    begins words line = true ↔ words.toList <+: line.toList := by
  rw [begins, List.isPrefixOf_iff_prefix]

theorem begins_append (words rest : String) : begins words (words ++ rest) = true := by
  rw [begins_iff, String.toList_append]
  exact List.prefix_append _ _

/-- The label of a position is a label. -/
theorem isLabel_of_isLabelOf {index : Nat} {line : String} (labels : isLabelOf index line = true) :
    isLabel line = true := by
  rw [isLabelOf, begins_iff, String.append_assoc, String.toList_append] at labels
  rw [isLabel, begins_iff]
  exact (List.prefix_append _ _).trans labels

theorem colon_not_mem_toString (index : Nat) : ':' ∉ (toString index).toList := by
  intro inside
  rw [Nat.toString_eq_repr, Nat.toList_repr] at inside
  have digit := Nat.isDigit_of_mem_toDigits (by decide) (by decide) inside
  cases digit

theorem isLabel_caseLine (table : DispatchTable) (index : Nat) :
    isLabel (caseLine table index) = true := by
  unfold caseLine isLabel
  simp only [String.append_assoc]
  exact begins_append _ _

/-- The line of a label is the label of its own position only. -/
theorem isLabelOf_caseLine (table : DispatchTable) (index other : Nat) :
    isLabelOf index (caseLine table other) = true ↔ other = index := by
  unfold caseLine
  dsimp only
  generalize stringLiteral _ = comment
  constructor
  · intro labels
    rw [isLabelOf, begins_iff] at labels
    rcases labels with ⟨rest, same⟩
    simp only [String.toList_append, List.append_assoc] at same
    have numbers := Text.Characters.append_mark_injective (colon_not_mem_toString index)
      (colon_not_mem_toString other) (List.append_cancel_left same)
    exact (Nat.repr_inj.mp (String.toList_inj.mp numbers.1)).symm
  · rintro rfl
    exact begins_append _ _

theorem isLabel_statementLine (rest : String) : isLabel ("    " ++ rest) = false := by
  simp [isLabel, begins, List.isPrefixOf]

theorem isDefault_statementLine (rest : String) : isDefault ("    " ++ rest) = false := by
  simp [isDefault, begins, List.isPrefixOf]

theorem isDefault_of_isLabel {line : String} (labels : isLabel line = true) :
    isDefault line = false := by
  rw [isLabel, begins_iff] at labels
  rcases labels with ⟨rest, line⟩
  rw [isDefault, begins, ← line]
  simp [List.isPrefixOf]

theorem isDefault_defaultLine (default : DefaultBranch) :
    isDefault (defaultLine default) = true := by
  cases default <;> decide

/-! ## Lines of a switch -/

variable {switch : Switch Statement} {index : Nat}

theorem filter_isLabel_branchLines (table : DispatchTable) (branch : Branch Statement) :
    (branchLines table branch).filter isLabel = branch.labels.map (caseLine table) := by
  have labels : (branch.labels.map (caseLine table)).filter isLabel =
      branch.labels.map (caseLine table) := by
    rw [List.filter_eq_self]
    intro line listed
    rcases List.mem_map.mp listed with ⟨label, _, rfl⟩
    exact isLabel_caseLine table label
  have last : ["    " ++ statement branch.body].filter isLabel = [] :=
    List.filter_cons_of_neg (by simp [isLabel_statementLine])
  rw [branchLines, List.filter_append, labels, last, List.append_nil]

/-- The labels among the lines are those of the branches, in their order. -/
theorem filter_isLabel_switchLines (table : DispatchTable) (switch : Switch Statement) :
    (switchLines table switch).filter isLabel =
      (switch.branches.flatMap Branch.labels).map (caseLine table) := by
  have first : ["switch(key_index(key))\x7b"].filter isLabel = [] := by decide
  have last : [defaultLine switch.default, "\x7d"].filter isLabel = [] := by
    cases switch.default <;> decide
  have branches : (fun branch => (branchLines table branch).filter isLabel) =
      fun branch => branch.labels.map (caseLine table) := by
    funext branch
    exact filter_isLabel_branchLines table branch
  rw [switchLines, List.filter_append, List.filter_append, first, last, List.filter_flatMap,
    branches, List.map_flatMap, List.nil_append, List.append_nil]

/-- A position has a branch when it is one of the labels. -/
theorem isSome_branchFor?_iff : (switch.branchFor? index).isSome = true ↔
    index ∈ switch.branches.flatMap Branch.labels := by
  simp [Switch.branchFor?, List.mem_flatMap]

/-- Where no label comes twice, a position has one label or none. -/
theorem countP_isLabelOf_switchLines (table : DispatchTable)
    (distinct : (switch.branches.flatMap Branch.labels).Nodup) (index : Nat) :
    (switchLines table switch).countP (isLabelOf index) =
      if (switch.branchFor? index).isSome then 1 else 0 := by
  have amongLabels : (fun line => isLabelOf index line && isLabel line) = isLabelOf index := by
    funext line
    rw [Bool.and_eq_left_iff_imp]
    exact isLabel_of_isLabelOf
  have ownLabel : isLabelOf index ∘ caseLine table = fun label => label == index := by
    funext label
    rw [Bool.eq_iff_iff, Function.comp_apply, isLabelOf_caseLine, beq_iff_eq]
  calc (switchLines table switch).countP (isLabelOf index)
      = ((switchLines table switch).filter isLabel).countP (isLabelOf index) := by
        rw [List.countP_filter, amongLabels]
    _ = (switch.branches.flatMap Branch.labels).count index := by
        rw [filter_isLabel_switchLines, List.countP_map, ownLabel, List.count_eq_countP]
    _ = if (switch.branchFor? index).isSome then 1 else 0 := by
        rw [distinct.count]
        exact if_congr isSome_branchFor?_iff.symm rfl rfl

theorem isDefault_branchLines {table : DispatchTable} {branch : Branch Statement} {line : String}
    (listed : line ∈ branchLines table branch) : isDefault line = false := by
  rcases List.mem_append.mp listed with labels | last
  · rcases List.mem_map.mp labels with ⟨label, _, rfl⟩
    exact isDefault_of_isLabel (isLabel_caseLine table label)
  · rw [List.mem_singleton.mp last]
    exact isDefault_statementLine _

/-- The line for the positions without a branch stands behind all branches, and there is no other such
line. -/
theorem switchLines_split (table : DispatchTable) (switch : Switch Statement) :
    ∃ front, switchLines table switch = front ++ [defaultLine switch.default, "\x7d"] ∧
      ∀ line ∈ front, isDefault line = false := by
  refine ⟨_, rfl, List.forall_mem_append.mpr ⟨List.forall_mem_singleton.mpr (by decide), ?_⟩⟩
  intro line listed
  rcases List.mem_flatMap.mp listed with ⟨branch, _, inside⟩
  exact isDefault_branchLines inside

/-! ## Where control arrives -/

/-- Control passes the labels behind the one that it was looking for. -/
theorem landing?_of_label {front more rest : List String} {label line : String}
    (unlabelled : ∀ other ∈ front, isLabelOf index other = false)
    (labels : isLabelOf index label = true) (others : ∀ other ∈ more, isLabel other = true)
    (arrives : isLabel line = false) :
    landing? (front ++ label :: (more ++ line :: rest)) index = some line := by
  have found : (front ++ label :: (more ++ line :: rest)).any (isLabelOf index) = true :=
    List.any_eq_true.mpr ⟨label, List.mem_append_right _ List.mem_cons_self, labels⟩
  have skipped : more.find? (fun other => !isLabel other) = none := by
    rw [List.find?_eq_none]
    intro other listed
    simp [others other listed]
  rw [landing?, if_pos found, List.dropWhile_append_of_pos]
  · rw [List.dropWhile_cons_of_neg (by simp [labels]),
      List.find?_cons_of_neg (by simp [isLabel_of_isLabelOf labels]), List.find?_append, skipped,
      Option.none_or, List.find?_cons_of_pos (by simp [arrives])]
  · intro other listed
    simp [unlabelled other listed]

theorem mem_labels_of_isLabelOf {table : DispatchTable} {branch : Branch Statement} {line : String}
    (listed : line ∈ branchLines table branch) (labels : isLabelOf index line = true) :
    index ∈ branch.labels := by
  rcases List.mem_append.mp listed with ownLabels | last
  · rcases List.mem_map.mp ownLabels with ⟨label, inside, rfl⟩
    exact (isLabelOf_caseLine table index label).mp labels ▸ inside
  · rw [List.mem_singleton.mp last] at labels
    have impossible := isLabel_of_isLabelOf labels
    rw [isLabel_statementLine] at impossible
    cases impossible

/-- Control arrives for a position at the statement of its branch. -/
theorem landing?_of_branchFor? (table : DispatchTable) {branch : Branch Statement}
    (found : switch.branchFor? index = some branch) :
    landing? (switchLines table switch) index = some ("    " ++ statement branch.body) := by
  rcases List.find?_eq_some_iff_append.mp found with ⟨labelled, before, after, branches, earlier⟩
  rcases List.eq_append_cons_of_mem (List.contains_iff_mem.mp labelled) with
    ⟨first, more, labels, firstly⟩
  have lines : switchLines table switch =
      (["switch(key_index(key))\x7b"] ++ before.flatMap (branchLines table) ++
        first.map (caseLine table)) ++ caseLine table index :: (more.map (caseLine table) ++
          ("    " ++ statement branch.body) :: (after.flatMap (branchLines table) ++
            [defaultLine switch.default, "\x7d"])) := by
    simp [switchLines, branches, branchLines, labels]
  rw [lines]
  refine landing?_of_label ?_ ((isLabelOf_caseLine table index index).mpr rfl) ?_
    (isLabel_statementLine _)
  · intro line listed
    rw [Bool.eq_false_iff]
    intro labels
    rcases List.mem_append.mp listed with listed | inBranch
    · rcases List.mem_append.mp listed with isFirst | inEarlier
      · rw [List.mem_singleton.mp isFirst] at labels
        have impossible := isLabel_of_isLabelOf labels
        revert impossible
        decide
      · rcases List.mem_flatMap.mp inEarlier with ⟨other, inside, itsLine⟩
        have contains := List.contains_iff_mem.mpr (mem_labels_of_isLabelOf itsLine labels)
        have lacks := earlier other inside
        rw [contains] at lacks
        cases lacks
    · rcases List.mem_map.mp inBranch with ⟨label, inside, rfl⟩
      exact firstly ((isLabelOf_caseLine table index label).mp labels ▸ inside)
  · intro line listed
    rcases List.mem_map.mp listed with ⟨label, _, rfl⟩
    exact isLabel_caseLine table label

/-- Control arrives for a position without a branch at the line for all of these. -/
theorem landing?_of_no_branch (table : DispatchTable) (missing : switch.branchFor? index = none) :
    landing? (switchLines table switch) index = some (defaultLine switch.default) := by
  have unlabelled : ¬ (switchLines table switch).any (isLabelOf index) = true := by
    rw [List.any_eq_true]
    rintro ⟨line, listed, labels⟩
    have amongLabels := List.mem_filter.mpr ⟨listed, isLabel_of_isLabelOf labels⟩
    rw [filter_isLabel_switchLines] at amongLabels
    rcases List.mem_map.mp amongLabels with ⟨label, inside, rfl⟩
    rw [isLabelOf_caseLine] at labels
    have found := isSome_branchFor?_iff.mpr (labels ▸ inside)
    rw [missing] at found
    cases found
  rcases switchLines_split table switch with ⟨front, lines, others⟩
  have skipped : front.find? isDefault = none := by
    rw [List.find?_eq_none]
    intro line listed
    simp [others line listed]
  rw [landing?, if_neg unlabelled, lines, List.find?_append, skipped, Option.none_or,
    List.find?_cons_of_pos (isDefault_defaultLine _)]

/-! ## Switches of a module -/

/-- The words for an entry in a function of some kind, if functions of the kind have a switch. -/
def entryWords? (kind : FunctionKind) (entry : KeyedLeaf) : Option String :=
  match kind with
  | .get => some ("return s." ++ entry.dottedId ++ ";")
  | .set => some ("s." ++ entry.dottedId ++ " = std::get<" ++ entry.leaf.canonicalType ++ ">(value); break;")
  | .unset => some ("s." ++ entry.dottedId ++ " = std::nullopt; break;")
  | .type => some ("return " ++ stringLiteral entry.leaf.declaredType ++ ";")
  | .parse spec => some ("return " ++ spec.userFunctionFor entry.leaf.declaredType ++ "(value);")
  | .format spec =>
    some ("return " ++ spec.userFunctionFor entry.leaf.declaredType ++ "(std::get<" ++
      entry.leaf.canonicalType ++ ">(value));")
  | .diff | .apply => none

/-- Words by which control leaves a switch. -/
def LeavesSwitch (words : String) : Prop :=
  (∃ value, words = "return " ++ value ++ ";") ∨ ∃ effect, words = effect ++ "; break;"

/-- Control does not go on from a statement to the labels behind. -/
theorem leavesSwitch_statement (does : Statement) : LeavesSwitch (statement does) := by
  cases does with
  | returnField id => exact .inl ⟨"s." ++ id, by simp only [statement, ← String.append_assoc]; rfl⟩
  | assignField id canonicalType =>
      refine .inr ⟨"s." ++ id ++ " = std::get<" ++ canonicalType ++ ">(value)", ?_⟩
      simp only [statement, String.append_assoc]
      rfl
  | resetField id =>
      refine .inr ⟨"s." ++ id ++ " = std::nullopt", ?_⟩
      simp only [statement, String.append_assoc]
      rfl
  | returnTypeName declaredType => exact .inl ⟨_, rfl⟩
  | returnParsed function =>
      refine .inl ⟨function ++ "(value)", ?_⟩
      simp only [statement, String.append_assoc]
      rfl
  | returnFormatted function canonicalType =>
      refine .inl ⟨function ++ "(std::get<" ++ canonicalType ++ ">(value))", ?_⟩
      simp only [statement, String.append_assoc]
      rfl

/-- A switch has for each entry the statement that is written in the words for the entry.  The function that
unsets has no branches for fields that are not optional, and other functions have a branch at every
position. -/
theorem switch_cases {m : ReflectionModule} {record : Record} {keyed : List KeyedLeaf}
    {options : GenerateOptions} (isOver : m.IsOver record keyed options) {f : ModuleFunction}
    (listed : f ∈ m.functions) (switches : f.body = .switch switch) :
    ∃ body, (∀ entry, entryWords? f.kind entry = some (statement (body entry))) ∧
      ((f.kind = .unset ∧ switch = m.table.switch .optionalOnly .notOptional body) ∨
        (f.kind ≠ .unset ∧ switch = m.table.switch .all .unreachable body)) := by
  rw [isOver.functions, ReflectionModule.functionsOver, List.mem_append, List.mem_append] at listed
  rcases listed with (fixed | parses) | formats
  · simp only [List.mem_cons, List.not_mem_nil, or_false] at fixed
    rcases fixed with rfl | rfl | rfl | rfl | rfl | rfl
    · exact ⟨_, fun _ => rfl, .inr ⟨by rintro ⟨⟩, (FunctionBody.switch.inj switches).symm⟩⟩
    · exact ⟨_, fun _ => rfl, .inr ⟨by rintro ⟨⟩, (FunctionBody.switch.inj switches).symm⟩⟩
    · exact ⟨_, fun _ => rfl, .inl ⟨rfl, (FunctionBody.switch.inj switches).symm⟩⟩
    · cases switches
    · cases switches
    · exact ⟨_, fun _ => rfl, .inr ⟨by rintro ⟨⟩, (FunctionBody.switch.inj switches).symm⟩⟩
  · rcases List.mem_map.mp parses with ⟨spec, _, rfl⟩
    exact ⟨_, fun _ => rfl, .inr ⟨by rintro ⟨⟩, (FunctionBody.switch.inj switches).symm⟩⟩
  · rcases List.mem_map.mp formats with ⟨spec, _, rfl⟩
    exact ⟨_, fun _ => rfl, .inr ⟨by rintro ⟨⟩, (FunctionBody.switch.inj switches).symm⟩⟩

/-- A position of the table has no branch when its entry is not in the subset. -/
theorem branchFor?_switch_eq_none_iff {table : DispatchTable} (subset : Subset)
    (default : DefaultBranch) (body : KeyedLeaf → Statement) {entry : KeyedLeaf}
    (there : table.entries[index]? = some entry) :
    (table.switch subset default body).branchFor? index = none ↔ subset.includes entry = false := by
  rw [← Option.map_eq_none_iff (f := Branch.body), table.body_branchFor?_switch, there,
    Option.bind_some]
  simp

/-- The branch of a position has the statement of the entry there. -/
theorem body_of_branchFor? {table : DispatchTable} {subset : Subset} {default : DefaultBranch}
    {body : KeyedLeaf → Statement} {entry : KeyedLeaf} (there : table.entries[index]? = some entry)
    {branch : Branch Statement}
    (found : (table.switch subset default body).branchFor? index = some branch) :
    branch.body = body entry := by
  have answers := table.body_branchFor?_switch subset default body index
  rw [found, there, Option.map_some, Option.bind_some] at answers
  exact (Option.some.inj (Option.ite_none_right_eq_some.mp answers.symm).2).symm

/-- The fault of the interpreter at a position without a branch. -/
def missingFault (key : String) : DefaultBranch → KeyFault
  | .unreachable => .unknownKey key
  | .notOptional => .notOptional key

/-- The line that stands for an answer of the interpreter. -/
def answerLine : Except KeyFault (Nat × Statement) → String
  | .ok (_, reached) => "    " ++ statement reached
  | .error (.notOptional _) => defaultLine .notOptional
  | .error _ => defaultLine .unreachable

theorem answerLine_missing (key : String) (default : DefaultBranch) :
    answerLine (.error (missingFault key default)) = defaultLine default := by
  cases default <;> rfl

section

variable {interpreter : Interpreter} {key : String}
  (found : interpreter.module.table.indexOf? key = some index)

include found

theorem runSwitch_of_branchFor? {branch : Branch Statement}
    (branches : switch.branchFor? index = some branch) :
    interpreter.runSwitch switch key = .ok (index, branch.body) := by
  simp only [Interpreter.runSwitch, found, branches]

theorem runSwitch_of_no_branch (missing : switch.branchFor? index = none) :
    interpreter.runSwitch switch key = .error (missingFault key switch.default) := by
  cases fallback : switch.default <;>
    simp only [Interpreter.runSwitch, found, missing, fallback, missingFault]

/-- Control arrives for a key of the table at the line for what the interpreter answers. -/
theorem landing?_eq_answerLine : landing? (switchLines interpreter.module.table switch) index =
    some (answerLine (interpreter.runSwitch switch key)) := by
  cases branches : switch.branchFor? index with
  | some branch => rw [runSwitch_of_branchFor? found branches, landing?_of_branchFor? _ branches, answerLine]
  | none => rw [runSwitch_of_no_branch found branches, landing?_of_no_branch _ branches, answerLine_missing]

end

/-- The switches of a module as they are written agree with the interpreter.  A position has one label when
it has a branch, and none otherwise; control arrives from the label at the statement of the branch; the line
for all other positions is the last one, and throws for keys that are not optional in the function that unsets
and only there.  Every key of the table leads to the line for what the interpreter answers, and the only
positions without a branch are those of fields that are not optional, in the function that unsets.  The
statement for an entry is written in the words for the entry, as the kind of the function has them, and
leaves the switch. -/
theorem switches_agree {record : Record} {options : GenerateOptions} {interpreter : Interpreter}
    (built : buildModule record options = .ok interpreter.module) {f : ModuleFunction}
    (listed : f ∈ interpreter.module.functions) (switches : f.body = .switch switch) :
    let table := interpreter.module.table
    let lines := bodyLines table f
    (∀ index, lines.countP (isLabelOf index) = if (switch.branchFor? index).isSome then 1 else 0) ∧
    (∀ index branch, switch.branchFor? index = some branch →
      landing? lines index = some ("    " ++ statement branch.body)) ∧
    (isDefault (defaultLine switch.default) = true ∧
      ∃ front, lines = front ++ [defaultLine switch.default, "\x7d"] ∧
        ∀ line ∈ front, isDefault line = false) ∧
    (defaultLine switch.default = "  default: throw non_optional_key(key);" ↔ f.kind = .unset) ∧
    (∀ key index, table.indexOf? key = some index →
      landing? lines index = some (answerLine (interpreter.runBody f.body key)) ∧
      (interpreter.runBody f.body key = .error (.notOptional key) ↔
        switch.branchFor? index = none)) ∧
    (∀ index entry, table.entries[index]? = some entry →
      (switch.branchFor? index = none ↔ f.kind = .unset ∧ entry.leaf.isOptional = false)) ∧
    ∀ index entry, table.entries[index]? = some entry → (switch.branchFor? index).isSome = true →
      ∃ words, entryWords? f.kind entry = some words ∧ LeavesSwitch words ∧
        landing? lines index = some ("    " ++ words) := by
  intro table lines
  rcases exists_keyed_of_built built with ⟨keyed, _, _, isOver⟩
  have written : lines = switchLines table switch := by
    unfold lines bodyLines
    rw [switches]
  rcases switch_cases isOver listed switches with ⟨body, words, forms⟩
  have made : ∃ subset default, switch = table.switch subset default body := by
    rcases forms with ⟨_, rfl⟩ | ⟨_, rfl⟩
    · exact ⟨_, _, rfl⟩
    · exact ⟨_, _, rfl⟩
  have distinct : (switch.branches.flatMap Branch.labels).Nodup := by
    rcases made with ⟨subset, default, rfl⟩
    exact table.nodup_labels_switch subset default body
  have throws : defaultLine switch.default = "  default: throw non_optional_key(key);" ↔
      f.kind = .unset := by
    rcases forms with ⟨unsets, rfl⟩ | ⟨other, rfl⟩
    · exact iff_of_true rfl unsets
    · have different : defaultLine .unreachable ≠ "  default: throw non_optional_key(key);" := by decide
      exact iff_of_false different other
  have missing : ∀ index entry, table.entries[index]? = some entry →
      (switch.branchFor? index = none ↔ f.kind = .unset ∧ entry.leaf.isOptional = false) := by
    intro index entry there
    rcases forms with ⟨unsets, rfl⟩ | ⟨other, rfl⟩
    · rw [branchFor?_switch_eq_none_iff _ _ _ there, and_iff_right unsets]
      rfl
    · rw [branchFor?_switch_eq_none_iff _ _ _ there]
      exact iff_of_false (by simp [Subset.includes]) fun both => other both.1
  have wordsOfEntry : ∀ index entry, table.entries[index]? = some entry →
      (switch.branchFor? index).isSome = true → ∃ words, entryWords? f.kind entry = some words ∧
        LeavesSwitch words ∧ landing? (switchLines table switch) index = some ("    " ++ words) := by
    intro index entry there hasBranch
    rcases made with ⟨subset, default, rfl⟩
    rcases Option.isSome_iff_exists.mp hasBranch with ⟨branch, found⟩
    refine ⟨_, words entry, leavesSwitch_statement _, ?_⟩
    rw [landing?_of_branchFor? table found, body_of_branchFor? there found]
  rw [written, switches]
  refine ⟨countP_isLabelOf_switchLines table distinct,
    fun _ _ => landing?_of_branchFor? table,
    ⟨isDefault_defaultLine _, switchLines_split table switch⟩, throws, ?_, missing, wordsOfEntry⟩
  intro key index found
  refine ⟨landing?_eq_answerLine found, ?_⟩
  rw [Interpreter.runBody]
  cases branches : switch.branchFor? index with
  | some branch =>
      rw [runSwitch_of_branchFor? found branches]
      exact iff_of_false nofun nofun
  | none =>
      rcases (DispatchTable.indexOf?_eq_some_iff isOver.ascending).mp found with ⟨entry, there, _⟩
      rw [runSwitch_of_no_branch found branches]
      rcases forms with ⟨_, rfl⟩ | ⟨other, _⟩
      · exact iff_of_true rfl rfl
      · exact absurd ((missing index entry there).mp branches).1 other

/-- The function that unsets the fields of a window has a branch for the width alone. -/
theorem switches_agree_window : ∃ (interpreter : Interpreter) (f : ModuleFunction)
    (switch : Switch Statement), buildModule Record.window .slashed = .ok interpreter.module ∧
      f ∈ interpreter.module.functions ∧ f.body = .switch switch ∧ f.kind = .unset ∧
      let table := interpreter.module.table
      let lines := bodyLines table f
      (∀ index, lines.countP (isLabelOf index) = if (switch.branchFor? index).isSome then 1 else 0) ∧
      (∀ index branch, switch.branchFor? index = some branch →
        landing? lines index = some ("    " ++ statement branch.body)) ∧
      (isDefault (defaultLine switch.default) = true ∧
        ∃ front, lines = front ++ [defaultLine switch.default, "\x7d"] ∧
          ∀ line ∈ front, isDefault line = false) ∧
      (defaultLine switch.default = "  default: throw non_optional_key(key);" ↔ f.kind = .unset) ∧
      (∀ key index, table.indexOf? key = some index →
        landing? lines index = some (answerLine (interpreter.runBody f.body key)) ∧
        (interpreter.runBody f.body key = .error (.notOptional key) ↔
          switch.branchFor? index = none)) ∧
      (∀ index entry, table.entries[index]? = some entry →
        (switch.branchFor? index = none ↔ f.kind = .unset ∧ entry.leaf.isOptional = false)) ∧
      ∀ index entry, table.entries[index]? = some entry → (switch.branchFor? index).isSome = true →
        ∃ words, entryWords? f.kind entry = some words ∧ LeavesSwitch words ∧
          landing? lines index = some ("    " ++ words) := by
  rcases buildModule_window with ⟨m, built⟩
  rcases exists_keyed_of_built built with ⟨keyed, _, _, isOver⟩
  have listed : ReflectionModule.unsetFunction m.table ∈ m.functions := by
    rw [isOver.functions, ReflectionModule.functionsOver]
    simp
  have runs : buildModule Record.window .slashed = .ok (Interpreter.new m).module := built
  exact ⟨.new m, _, _, runs, listed, rfl, rfl, switches_agree runs listed rfl⟩

end Cpp
end KeyedReflection
