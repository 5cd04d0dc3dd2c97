import KeyedReflection.Proofs.Dispatch
import KeyedReflection.Proofs.Module.Constants
import KeyedReflection.Proofs.Text.Bytes

/-!
# Key indices

A table is built unless two leaves have the same key, and then it holds the leaves by the bytes of their
keys.  The search by halves and the function of the generated units both find the positions of its keys:
the one compares characters and stops where the key stands, the other compares bytes, goes on to the lower
bound of the key and looks whether the key stands there (`build_indexes`).

The generated function is run here statement by statement, over the keys that the generated list of sorted
keys denotes.  Nothing is assumed of what the language leaves undefined: to read behind the end of the list
or to look for a lower bound among keys that are not in order has no outcome, and it is part of the result
that there is one.
-/

namespace KeyedReflection
namespace Cpp

/-! ## Running the function -/

/-- What the function knows: the sorted keys, the key that is looked for, and the lower bound of the key as
soon as there is one.  Keys are compared by their bytes. -/
structure LookupState where
  keys : List (List UInt8)
  key : List UInt8
  lower : Option Nat

/-- The lower bound of a key among others: the last place that has only smaller keys in front of it. -/
def lowerBound (keys : List (List UInt8)) (key : List UInt8) : Nat :=
  (keys.takeWhile fun other => decide (other < key)).length

/-- The lower bound of a key between two places of a list.  It may only be asked for where all smaller keys
stand in front of the others. -/
def lowerBound? (keys : List (List UInt8)) (key : List UInt8) (first last : Nat) : Option Nat :=
  let range := (keys.take last).drop first
  if first ≤ last ∧ last ≤ keys.length ∧
      ∀ other ∈ range.drop (lowerBound range key), ¬ other < key then
    some (first + lowerBound range key)
  else none

def PlaceExpression.value? (state : LookupState) : PlaceExpression → Option Nat
  | .start => some 0
  | .stop => some state.keys.length
  | .lower => state.lower

/-- Whether a condition holds.  There is no key at the end of the list. -/
def LookupCondition.holds? (state : LookupState) : LookupCondition → Option Bool
  | .same left right =>
    match left.value? state, right.value? state with
    | some place, some other => some (place == other)
    | _, _ => none
  | .holdsOther place =>
    match place.value? state with
    | some place => (state.keys[place]?).map fun held => held != state.key
    | none => none
  | .either left right =>
    match left.holds? state with
    | some true => some true
    | some false => right.holds? state
    | none => none

/-- What statements lead to. -/
inductive LookupOutcome where
  /-- Further statements follow. -/
  | goesOn (state : LookupState)
  | returns (position : Nat)
  /-- The key is thrown as unknown. -/
  | throws

def LookupStatement.run? (state : LookupState) : LookupStatement → Option LookupOutcome
  | .findLower first last =>
    match first.value? state, last.value? state with
    | some first, some last =>
      (lowerBound? state.keys state.key first last).map fun lower =>
        .goesOn { state with lower := some lower }
    | _, _ => none
  | .choose condition holds otherwise =>
    match condition.holds? state with
    | some true => holds.run? state
    | some false => otherwise.run? state
    | none => none
  | .throwUnknown => some .throws
  | .returnDistance first last =>
    match first.value? state, last.value? state with
    | some first, some last => if first ≤ last then some (.returns (last - first)) else none
    | _, _ => none

def runLookup? (state : LookupState) : List LookupStatement → Option LookupOutcome
  | [] => some (.goesOn state)
  | statement :: rest =>
    match statement.run? state with
    | some (.goesOn next) => runLookup? next rest
    | outcome => outcome

/-- What the function does for a key in a list of keys. -/
def keyIndexAmong? (keys : List String) (key : String) : Option LookupOutcome :=
  runLookup? ⟨keys.map Text.utf8, Text.utf8 key, none⟩ keyIndexBody

/-- The key that an expression denotes among key constants, if it denotes one alone. -/
def denotedKey? (constants : List KeyItem) (expression : String) : Option String :=
  match KeyItem.denoted constants expression with
  | [key] => some key
  | _ => none

/-- What the function of a module does for a key: the expressions in the list of sorted keys are read in the
block of key constants. -/
def keyIndex? (m : ReflectionModule) (key : String) : Option LookupOutcome :=
  ((m.table.entries.toList.map keyExpression).mapM (denotedKey? m.keys)).bind fun keys =>
    keyIndexAmong? keys key

/-- To return the position of a key, or to throw when there is none. -/
def LookupOutcome.ofIndex : Option Nat → LookupOutcome
  | some index => .returns index
  | none => .throws

/-! ## Lower bounds -/

/-- In ascending keys, the lower bound of a key that is there is its position. -/
theorem lowerBound_of_getElem? {keys : List (List UInt8)} (ascending : keys.Pairwise (· < ·))
    {index : Nat} {key : List UInt8} (there : keys[index]? = some key) :
    lowerBound keys key = index := by
  rcases List.getElem?_eq_some_iff.mp there with ⟨inside, rfl⟩
  have split : keys = keys.take index ++ keys[index] :: keys.drop (index + 1) := by
    rw [← List.drop_eq_getElem_cons, List.take_append_drop]
  have smaller : ∀ other ∈ keys.take index, decide (other < keys[index]) = true := by
    intro other listed
    rcases List.mem_take_iff_getElem.mp listed with ⟨place, before, rfl⟩
    rw [lt_min_iff] at before
    exact decide_eq_true (List.pairwise_iff_getElem.mp ascending place index before.2 inside before.1)
  rw [lowerBound]
  generalize keys[index] = key at split smaller
  rw [split, List.takeWhile_append_of_pos smaller,
    List.takeWhile_cons_of_neg (by simp [List.lt_irrefl]), List.append_nil, List.length_take]
  exact Nat.min_eq_left (Nat.le_of_lt inside)

/-- In ascending keys, no smaller key stands behind the lower bound. -/
theorem not_lt_of_mem_drop_lowerBound {keys : List (List UInt8)} (ascending : keys.Pairwise (· < ·))
    {key other : List UInt8} (listed : other ∈ keys.drop (lowerBound keys key)) : ¬ other < key := by
  induction keys with
  | nil => cases listed
  | cons first rest ih =>
      rcases List.pairwise_cons.mp ascending with ⟨least, restAscending⟩
      by_cases smaller : first < key
      · have one : lowerBound (first :: rest) key = lowerBound rest key + 1 := by
          simp [lowerBound, smaller]
        rw [one, List.drop_succ_cons] at listed
        exact ih restAscending listed
      · have none : lowerBound (first :: rest) key = 0 := by
          simp [lowerBound, smaller]
        rw [none, List.drop_zero] at listed
        rcases List.mem_cons.mp listed with rfl | later
        · exact smaller
        · exact fun below => smaller (List.lt_trans (least other later) below)

theorem lowerBound?_of_ascending {keys : List (List UInt8)} (ascending : keys.Pairwise (· < ·))
    (key : List UInt8) : lowerBound? keys key 0 keys.length = some (lowerBound keys key) := by
  rw [lowerBound?, List.take_length, List.drop_zero, Nat.zero_add]
  apply if_pos
  exact ⟨Nat.zero_le _, Nat.le_refl _, fun _ => not_lt_of_mem_drop_lowerBound ascending⟩

/-- The condition of the function tells whether the key stands at its lower bound. -/
theorem holds?_either {keys : List (List UInt8)} {key : List UInt8} {lower : Nat}
    (bounded : lower ≤ keys.length) :
    (LookupCondition.either (.same .lower .stop) (.holdsOther .lower)).holds? ⟨keys, key, some lower⟩ =
      some (decide (keys[lower]? ≠ some key)) := by
  simp only [LookupCondition.holds?, PlaceExpression.value?]
  by_cases atEnd : lower = keys.length
  · subst atEnd
    simp
  · have inside : lower < keys.length := Nat.lt_of_le_of_ne bounded atEnd
    rw [beq_false_of_ne atEnd, List.getElem?_eq_getElem inside]
    by_cases same : keys[lower] = key <;> simp [same]

/-- In ascending keys the function returns the lower bound of a key that stands there, and throws where
another key stands there or none. -/
theorem runLookup?_keyIndexBody {keys : List (List UInt8)} (ascending : keys.Pairwise (· < ·))
    (key : List UInt8) : runLookup? ⟨keys, key, none⟩ keyIndexBody =
      some (if keys[lowerBound keys key]? = some key then .returns (lowerBound keys key)
        else .throws) := by
  have found : (LookupStatement.findLower .start .stop).run? ⟨keys, key, none⟩ =
      some (.goesOn ⟨keys, key, some (lowerBound keys key)⟩) := by
    simp only [LookupStatement.run?, PlaceExpression.value?, lowerBound?_of_ascending ascending,
      Option.map_some]
  have bounded : lowerBound keys key ≤ keys.length := (List.takeWhile_sublist _).length_le
  rw [keyIndexBody, runLookup?, found]
  dsimp only
  rw [runLookup?, LookupStatement.run?, holds?_either bounded]
  by_cases stands : keys[lowerBound keys key]? = some key
  · simp [stands, LookupStatement.run?, PlaceExpression.value?]
  · simp [stands, LookupStatement.run?]

end Cpp

namespace DispatchTable

/-- Leaves at two places have the same key. -/
def SharesKey (leaves : List KeyedLeaf) : Prop :=
  ∃ earlier later : Nat, earlier < later ∧ ∃ first second, leaves[earlier]? = some first ∧
    leaves[later]? = some second ∧ first.key = second.key

theorem not_sharesKey_iff {leaves : List KeyedLeaf} :
    ¬SharesKey leaves ↔ (leaves.map KeyedLeaf.key).Nodup := by
  rw [List.nodup_iff_pairwise_ne, List.pairwise_map, List.pairwise_iff_getElem]
  constructor
  · intro distinct earlier later inside laterInside before same
    exact distinct ⟨earlier, later, before, _, _, List.getElem?_eq_getElem inside,
      List.getElem?_eq_getElem laterInside, same⟩
  · rintro distinct ⟨earlier, later, before, first, second, there, laterThere, same⟩
    rcases List.getElem?_eq_some_iff.mp there with ⟨inside, rfl⟩
    rcases List.getElem?_eq_some_iff.mp laterThere with ⟨laterInside, rfl⟩
    exact distinct earlier later inside laterInside before same

/-- A clash is that of two neighbours. -/
theorem exists_of_firstClash {leaves : List KeyedLeaf} {clash : KeyClash}
    (found : firstClash leaves = some clash) :
    ∃ front first second rest, leaves = front ++ first :: second :: rest ∧ first.key = second.key ∧
      clash = ⟨first.key, first.dottedId, second.dottedId⟩ := by
  fun_induction firstClash leaves with
  | case1 first second rest same =>
      exact ⟨[], first, second, rest, rfl, same, (Option.some.inj found).symm⟩
  | case2 first second rest different ih =>
      rcases ih found with ⟨front, left, right, others, split, same, named⟩
      exact ⟨first :: front, left, right, others, by rw [split, List.cons_append], same, named⟩
  | case3 => cases found

/-- Where no table is built, two leaves have the key that is named. -/
theorem build_error {leaves : List KeyedLeaf} {clash : KeyClash}
    (failed : build leaves = .error clash) :
    ∃ first second rest, leaves.Perm (first :: second :: rest) ∧ first.key = second.key ∧
      clash = ⟨first.key, first.dottedId, second.dottedId⟩ := by
  rw [build] at failed
  split at failed
  · rename_i found clashes
    cases failed
    rcases exists_of_firstClash clashes with ⟨front, first, second, rest, split, same, named⟩
    refine ⟨first, second, front ++ rest, ?_, same, named⟩
    have sorted := List.mergeSort_perm leaves fun left right => left.key ≤ right.key
    rw [split] at sorted
    exact sorted.symm.trans (List.perm_middle.trans (List.perm_middle.cons first))
  · cases failed

/-- A table is built exactly when no two leaves share a key. -/
theorem build_eq_error_iff {leaves : List KeyedLeaf} :
    (∃ clash, build leaves = .error clash) ↔ SharesKey leaves := by
  constructor
  · rintro ⟨clash, failed⟩
    rcases build_error failed with ⟨first, second, rest, permuted, same, _⟩
    by_contra distinct
    have names := (permuted.map KeyedLeaf.key).nodup_iff.mp (not_sharesKey_iff.mp distinct)
    rw [List.map_cons, List.map_cons, same] at names
    exact (List.nodup_cons.mp names).1 List.mem_cons_self
  · intro shares
    cases built : build leaves with
    | error clash => exact ⟨clash, rfl⟩
    | ok table =>
        rcases build_ok built with ⟨ascending, permuted⟩
        have names := (permuted.map KeyedLeaf.key).nodup_iff.mp ascending.distinctKeys
        exact absurd shares (not_sharesKey_iff.mpr names)

section

variable {table : DispatchTable}

/-- The bytes of the keys ascend with the keys. -/
theorem IsAscending.ascending_utf8 (ascending : table.IsAscending) :
    (table.keys.map Text.utf8).Pairwise (· < ·) := by
  rw [List.pairwise_map, keys, List.pairwise_map]
  exact List.Pairwise.imp Text.utf8_lt_utf8_iff.mpr ascending

/-- A key is unknown exactly when no entry has it. -/
theorem indexOf?_eq_none_iff (ascending : table.IsAscending) {key : String} :
    table.indexOf? key = none ↔ ∀ entry ∈ table.entries.toList, entry.key ≠ key := by
  constructor
  · intro missing entry listed same
    rcases List.getElem?_of_mem listed with ⟨index, there⟩
    rw [Array.getElem?_toList] at there
    rw [(indexOf?_eq_some_iff ascending).mpr ⟨entry, there, same⟩] at missing
    cases missing
  · intro none
    rw [Option.eq_none_iff_forall_ne_some]
    intro index found
    rcases (indexOf?_eq_some_iff ascending).mp found with ⟨entry, there, same⟩
    rw [← Array.getElem?_toList] at there
    exact none entry (List.mem_of_getElem? there) same

/-- The generated function finds the same position as the search by halves. -/
theorem keyIndexAmong?_keys (ascending : table.IsAscending) (key : String) :
    Cpp.keyIndexAmong? table.keys key = some (.ofIndex (table.indexOf? key)) := by
  have stands : ∀ index, (table.keys.map Text.utf8)[index]? = some (Text.utf8 key) ↔
      table.indexOf? key = some index := by
    intro index
    rw [indexOf?_eq_some_iff ascending, keys, List.getElem?_map, List.getElem?_map,
      Array.getElem?_toList, Option.map_map, Option.map_eq_some_iff]
    apply exists_congr
    intro entry
    exact and_congr_right fun _ => ⟨fun same => Text.utf8_injective same, congrArg Text.utf8⟩
  rw [Cpp.keyIndexAmong?, Cpp.runLookup?_keyIndexBody ascending.ascending_utf8]
  cases place : table.indexOf? key with
  | some index =>
      have there := (stands index).mpr place
      rw [Cpp.lowerBound_of_getElem? ascending.ascending_utf8 there, if_pos there]
      rfl
  | none =>
      rw [if_neg]
      · rfl
      · intro there
        rw [(stands _).mp there] at place
        cases place

/-- Where the expressions in the list of sorted keys denote the keys of the table, the function of a module
finds the positions of the table. -/
theorem keyIndex?_of_denoted {m : ReflectionModule} (ascending : m.table.IsAscending)
    (denoted : ∀ entry ∈ m.table.entries.toList,
      KeyItem.denoted m.keys (Cpp.keyExpression entry) = [entry.key]) (key : String) :
    Cpp.keyIndex? m key = some (.ofIndex (m.table.indexOf? key)) := by
  have read : (m.table.entries.toList.map Cpp.keyExpression).mapM (Cpp.denotedKey? m.keys) =
      some m.table.keys := by
    have each : ∀ entry ∈ m.table.entries.toList,
        Cpp.denotedKey? m.keys (Cpp.keyExpression entry) = some entry.key := by
      intro entry listed
      rw [Cpp.denotedKey?, denoted entry listed]
    rw [keys]
    generalize m.table.entries.toList = entries at each
    induction entries with
    | nil => rfl
    | cons entry rest ih =>
        rcases List.forall_mem_cons.mp each with ⟨own, others⟩
        rw [List.map_cons, List.mapM_cons, own, ih others]
        rfl
  rw [Cpp.keyIndex?, read]
  exact keyIndexAmong?_keys ascending key

end

/-- In a module the function that looks keys up finds the positions of the table: the list of sorted keys
denotes the keys of the table, since the names of a leaf lead to the constant for its key. -/
theorem keyIndex?_of_built {record : Record} {options : GenerateOptions} {m : ReflectionModule}
    (plain : record.tree.HasPlainNames) (distinct : record.tree.HasDistinctSiblings)
    (built : buildModule record options = .ok m) (key : String) :
    Cpp.keyIndex? m key = some (.ofIndex (m.table.indexOf? key)) := by
  rcases exists_keyed_of_built built with ⟨_, _, _, isOver⟩
  exact keyIndex?_of_denoted isOver.ascending (fun _ => denoted_keyExpression plain distinct built) key

/-- What the definitions of the modules over a table write for looking keys up, and what that does. -/
structure WritesKeyIndex (table : DispatchTable) : Prop where
  /-- The list of sorted keys has an expression for each entry, in the order of the table. -/
  sortedKeys : Cpp.sortedKeys table =
    Cpp.unlines (["const std::array<K, " ++ toString table.size ++ "> sorted_keys = \x7b"] ++
      (((table.entries.toList.map Cpp.keyExpression).zip table.keys).zipIdx.map fun place =>
        Cpp.sortedKeyRow place.1.1 place.1.2 place.2) ++ ["\x7d;", ""])
  /-- The function has the statements of its body between its braces. -/
  function : Cpp.keyIndexFunction = Cpp.unlines (["inline size_t key_index(const K& key) \x7b"] ++
    (Cpp.keyIndexBody.flatMap Cpp.LookupStatement.lines).map (fun line => "  " ++ line) ++ ["\x7d", ""])
  lines : Cpp.keyIndexBody.flatMap Cpp.LookupStatement.lines =
    ["const auto lower = std::lower_bound(sorted_keys.begin(), sorted_keys.end(), key);",
      "if (lower == sorted_keys.end() || *lower != key)", "  throw unknown_key(key);", "else",
      "  return std::distance(sorted_keys.begin(), lower);"]
  /-- Both stand in the definitions, one behind the other. -/
  placed : ∀ m : ReflectionModule, m.table = table → ∀ options, ∃ front back,
    Cpp.definitions m options = front ++ (Cpp.sortedKeys table ++ Cpp.keyIndexFunction) ++ back
  /-- Over the keys of the table the function finds what the search by halves finds. -/
  finds : ∀ key, Cpp.keyIndexAmong? table.keys key = some (.ofIndex (table.indexOf? key))
  /-- So it does over what the list of sorted keys denotes, where that is the keys of the table. -/
  findsDenoted : ∀ m : ReflectionModule, m.table = table →
    (∀ entry ∈ table.entries.toList, KeyItem.denoted m.keys (Cpp.keyExpression entry) = [entry.key]) →
    ∀ key, Cpp.keyIndex? m key = some (.ofIndex (table.indexOf? key))
  /-- A module that was built from a record with plain and distinct names is such a module. -/
  findsBuilt : ∀ record options m, record.tree.HasPlainNames → record.tree.HasDistinctSiblings →
    buildModule record options = .ok m → m.table = table →
      ∀ key, Cpp.keyIndex? m key = some (.ofIndex (table.indexOf? key))

theorem IsAscending.writesKeyIndex {table : DispatchTable} (ascending : table.IsAscending) :
    table.WritesKeyIndex := by
  refine ⟨Cpp.sortedKeys_eq table, rfl, by decide +kernel, ?_, keyIndexAmong?_keys ascending, ?_, ?_⟩
  · rintro m rfl options
    exact ⟨_, _, by rw [Cpp.definitions]; simp only [String.append_assoc]; rfl⟩
  · rintro m rfl denoted key
    exact keyIndex?_of_denoted ascending denoted key
  · rintro record options m plain distinct built rfl key
    exact keyIndex?_of_built plain distinct built key

/-- Building a table fails exactly when two leaves have the same key, and names two such leaves.
Otherwise the table holds the leaves, ascending by the bytes of their keys; a key is found at the position
of the entry that has it, and it is unknown exactly when no leaf has it; and the definitions of a module
over the table write a list of sorted keys and a function that finds the same in it. -/
theorem build_indexes (leaves : List KeyedLeaf) :
    ((∃ clash, build leaves = .error clash) ↔ SharesKey leaves) ∧
    (∀ clash, build leaves = .error clash → ∃ first second rest,
      leaves.Perm (first :: second :: rest) ∧ first.key = second.key ∧
      clash = ⟨first.key, first.dottedId, second.dottedId⟩) ∧
    ∀ table, build leaves = .ok table →
      table.entries.toList.Perm leaves ∧
      (table.keys.map Text.utf8).Pairwise (· < ·) ∧
      (∀ key,
        (∀ index, table.indexOf? key = some index ↔
          ∃ entry, table.entries[index]? = some entry ∧ entry.key = key) ∧
        (table.indexOf? key = none ↔ ∀ leaf ∈ leaves, leaf.key ≠ key)) ∧
      table.WritesKeyIndex := by
  refine ⟨build_eq_error_iff, fun clash => build_error, ?_⟩
  intro table built
  rcases build_ok built with ⟨ascending, permuted⟩
  refine ⟨permuted, ascending.ascending_utf8, ?_, ascending.writesKeyIndex⟩
  intro key
  refine ⟨fun index => indexOf?_eq_some_iff ascending, ?_⟩
  rw [indexOf?_eq_none_iff ascending]
  simp only [permuted.mem_iff]

/-- The keys of a window, in order; the name of the sub-record alone is none of them. -/
theorem build_indexes_window : ∃ m, buildModule Record.window .slashed = .ok m ∧
    build Record.windowKeyed = .ok m.table ∧ m.table.keys = ["size/width", "title"] ∧
    m.table.indexOf? "title" = some 1 ∧ Cpp.keyIndex? m "title" = some (.returns 1) ∧
    (∀ leaf ∈ Record.windowKeyed, leaf.key ≠ "size") ∧ Cpp.keyIndex? m "size" = some .throws := by
  rcases buildModule_window with ⟨m, made⟩
  rcases exists_keyed_of_built made with ⟨keyed, resolved, _, isOver⟩
  cases resolved.symm.trans resolve_eq_windowKeyed
  have built := isOver.table
  have table : build Record.windowKeyed = .ok ⟨Record.windowKeyed.toArray⟩ := by
    rw [build, List.mergeSort_of_pairwise (by decide)]
    rfl
  have entries : m.table.entries.toList = Record.windowKeyed := by
    rw [← Except.ok.inj (table.symm.trans built)]
  rcases (build_indexes Record.windowKeyed).2.2 m.table built with ⟨_, _, indexes, writes⟩
  have other : ∀ leaf ∈ Record.windowKeyed, leaf.key ≠ "size" := by decide
  have known : m.table.indexOf? "title" = some 1 := by
    rw [(indexes "title").1, ← Array.getElem?_toList, entries]
    exact ⟨_, rfl, rfl⟩
  have finds := writes.findsBuilt Record.window .slashed m (by decide) (by decide) made rfl
  refine ⟨m, made, built, by rw [keys, entries]; rfl, known, ?_, other, ?_⟩
  · rw [finds, known]
    rfl
  · rw [finds, (indexes "size").2.mpr other]
    rfl

end DispatchTable

end KeyedReflection
