import KeyedReflection.Proofs.Key.Uncached

/-!
# Keys that cannot clash

Without overrides, a key is the spelled names of a path with the separator in between.  When the names are
made of letters, digits and underscores, hyphens stand for underscores only, so that spelling a name loses
nothing.  When in addition the separator has a character that no spelled name has, a key can be taken apart
again, even where the separator has letters as well.  Then the leaves of a tree whose siblings have
different names never clash.
-/

namespace KeyedReflection

open Text (IsPlainName)

/-! ## Names and separators -/

/-- What counts as a letter or a digit.  Neither the dot nor the hyphen does. -/
structure Alphabet where
  isLetterOrDigit : Char → Bool
  dot : isLetterOrDigit '.' = false
  hyphen : isLetterOrDigit '-' = false

namespace Alphabet

/-- The letters and digits of ASCII. -/
def ascii : Alphabet :=
  ⟨Char.isAlphanum, by decide, by decide⟩

variable {alphabet : Alphabet} {style : KeyStyle} {name other separator : String}

/-- A name of letters, digits and underscores. -/
def IsName (alphabet : Alphabet) (name : String) : Prop :=
  name ≠ "" ∧ ∀ c ∈ name.toList, alphabet.isLetterOrDigit c = true ∨ c = '_'

/-- A character that no spelled name has: no letter, no digit, no underscore and no hyphen. -/
def IsMark (alphabet : Alphabet) (c : Char) : Prop :=
  alphabet.isLetterOrDigit c = false ∧ c ≠ '_' ∧ c ≠ '-'

-- Along the name, as an instance that runs over all characters would not finish.
instance (alphabet : Alphabet) (name : String) : Decidable (alphabet.IsName name) :=
  @instDecidableAnd _ _ inferInstance (List.decidableBAll _ name.toList)

instance (alphabet : Alphabet) (c : Char) : Decidable (alphabet.IsMark c) :=
  inferInstanceAs (Decidable (_ ∧ _))

theorem IsName.not_mem (named : alphabet.IsName name) {c : Char}
    (outside : alphabet.isLetterOrDigit c = false) (different : c ≠ '_') : c ∉ name.toList := by
  intro inside
  rcases named.2 c inside with listed | underscore
  · rw [outside] at listed
    cases listed
  · exact different underscore

theorem IsName.isPlainName (named : alphabet.IsName name) : IsPlainName name :=
  ⟨named.1, named.not_mem alphabet.dot (by decide)⟩

/-- A mark is in no name, however it is spelled. -/
theorem IsMark.not_mem_segment {mark : Char} (isMark : alphabet.IsMark mark)
    (named : alphabet.IsName name) (style : KeyStyle) : mark ∉ (style.segment name).toList := by
  rcases isMark with ⟨outside, notUnderscore, notHyphen⟩
  cases style with
  | verbatim => exact named.not_mem outside notUnderscore
  | hyphenated =>
      rw [KeyStyle.segment, String.toList_ofList]
      intro inside
      rcases List.mem_map.mp inside with ⟨c, listed, spelled⟩
      split at spelled
      · exact notHyphen spelled.symm
      · rw [spelled] at listed
        exact named.not_mem outside notUnderscore listed

/-- A segment with underscores in the place of hyphens. -/
def respell (segment : String) : String :=
  .ofList (segment.toList.map fun c => if c = '-' then '_' else c)

/-- The spelling of a name can be undone, since no name has a hyphen of its own. -/
theorem IsName.respell_segment (named : alphabet.IsName name) (style : KeyStyle) :
    respell (style.segment name) = name := by
  have free := named.not_mem alphabet.hyphen (by decide)
  have kept : ∀ c ∈ name.toList, (if c = '-' then '_' else c) = c := by
    intro c listed
    rw [if_neg]
    rintro rfl
    exact free listed
  cases style with
  | verbatim => rw [respell, KeyStyle.segment, List.map_congr_left kept, List.map_id', String.ofList_toList]
  | hyphenated =>
      have undone : ∀ c ∈ name.toList,
          ((fun c => if c = '-' then '_' else c) ∘ fun c => if c = '_' then '-' else c) c = c := by
        intro c listed
        by_cases underscore : c = '_'
        · rw [underscore]
          rfl
        · rw [Function.comp_apply, if_neg underscore]
          exact kept c listed
      rw [respell, KeyStyle.segment, String.toList_ofList, List.map_map, List.map_congr_left undone,
        List.map_id', String.ofList_toList]

theorem map_respell_segment {names : List String} (named : ∀ name ∈ names, alphabet.IsName name)
    (style : KeyStyle) : (names.map style.segment).map respell = names := by
  have undone : ∀ name ∈ names, (respell ∘ style.segment) name = name :=
    fun name listed => (named name listed).respell_segment style
  rw [List.map_map, List.map_congr_left undone, List.map_id']

end Alphabet

/-! ## Keys of paths -/

namespace KeyRules

variable {alphabet : Alphabet} {separator : String} {style : KeyStyle}

theorem parts_empty (separator : String) (style : KeyStyle) (above names : List String) :
    KeyRules.parts ⟨.empty, separator, style⟩ above names = names.map style.segment := by
  induction names generalizing above with
  | nil => rfl
  | cons name rest ih =>
      rw [parts, ih, part, SortedMap.find?_empty]
      rfl

/-- The key of a path determines its names. -/
theorem pathKey_injective {mark : Char} (isMark : alphabet.IsMark mark)
    (marked : mark ∈ separator.toList) {names others : List String}
    (some : names ≠ []) (othersSome : others ≠ []) (named : ∀ name ∈ names, alphabet.IsName name)
    (othersNamed : ∀ name ∈ others, alphabet.IsName name)
    (same : KeyRules.pathKey ⟨.empty, separator, style⟩ names =
      KeyRules.pathKey ⟨.empty, separator, style⟩ others) : names = others := by
  have free : ∀ names : List String, (∀ name ∈ names, alphabet.IsName name) →
      ∀ segment ∈ names.map style.segment, mark ∉ segment.toList :=
    fun names named => List.forall_mem_map.mpr fun name listed =>
      isMark.not_mem_segment (named name listed) style
  rw [pathKey, pathKey, parts_empty, parts_empty] at same
  have segments : names.map style.segment = others.map style.segment :=
    Text.join_injective marked (mt List.map_eq_nil_iff.mp some) (mt List.map_eq_nil_iff.mp othersSome)
      (free names named) (free others othersNamed) same
  rw [← Alphabet.map_respell_segment named style, segments,
    Alphabet.map_respell_segment othersNamed style]

end KeyRules

/-! ## Trees without clashes -/

/-- Every member of a field has a name over an alphabet. -/
def FieldTree.HasNamesOver (tree : FieldTree) (alphabet : Alphabet) : Prop :=
  ∀ parent, ∀ member ∈ tree.members parent, alphabet.IsName (tree.identifier member)

instance (tree : FieldTree) (alphabet : Alphabet) : Decidable (tree.HasNamesOver alphabet) :=
  inferInstanceAs (Decidable (∀ parent, ∀ member ∈ tree.members parent,
    alphabet.IsName (tree.identifier member)))

/-- A separator with a character that no spelled name has. -/
def Alphabet.Separates (alphabet : Alphabet) (separator : String) : Prop :=
  ∃ mark ∈ separator.toList, alphabet.IsMark mark

namespace FieldTree

variable {tree : FieldTree} {alphabet : Alphabet} {separator : String}

theorem HasNamesOver.hasPlainNames (named : tree.HasNamesOver alphabet) : tree.HasPlainNames :=
  fun parent member inside => (named parent member inside).isPlainName

end FieldTree

namespace KeyRules

theorem keyedLeaves_distinct {alphabet : Alphabet} {tree : FieldTree}
    (named : tree.HasNamesOver alphabet) (distinct : tree.HasDistinctSiblings) {separator : String}
    (separates : alphabet.Separates separator) (style : KeyStyle) :
    ((KeyRules.keyedLeaves ⟨.empty, separator, style⟩ tree).map KeyedLeaf.key).Nodup ∧
      ((KeyRules.keyedLeaves ⟨.empty, separator, style⟩ tree).map KeyedLeaf.dottedId).Nodup := by
  rcases separates with ⟨mark, marked, isMark⟩
  rw [keyedLeaves, List.map_map, List.map_map]
  constructor
  · exact FieldTree.nodup_leaves_of_injective named distinct fun names others some othersSome named
      othersNamed => pathKey_injective isMark marked some othersSome named othersNamed
  · exact FieldTree.nodup_dottedId_leaves named.hasPlainNames distinct

theorem haveSegments_empty : KeyOverrides.HaveSegments .empty := by
  intro dotted segment found
  rw [SortedMap.find?_empty] at found
  cases found

end KeyRules

/-- A tree whose siblings have different names of letters, digits and underscores has keys under every
separator that has any other character than these and the hyphen: whatever the resolver was used for
before, each leaf gets a key and a dotted id of its own, and a record with the tree has a module. -/
theorem buildModule_unambiguous {alphabet : Alphabet} {record : Record} {options : GenerateOptions}
    (named : record.tree.HasNamesOver alphabet) (distinct : record.tree.HasDistinctSiblings)
    (separates : alphabet.Separates options.separator) (plainly : options.overrides = .empty)
    (noParsers : options.parsers = []) (noFormatters : options.formatters = []) :
    (∀ style cache,
      let rules : KeyRules := ⟨.empty, options.separator, style⟩
      rules.Remembers cache →
        (rules.resolveFrom cache record.tree).1 = .ok (rules.keyedLeaves record.tree) ∧
          ((rules.keyedLeaves record.tree).map KeyedLeaf.key).Nodup ∧
          ((rules.keyedLeaves record.tree).map KeyedLeaf.dottedId).Nodup) ∧
    ∃ m, buildModule record options = .ok m := by
  have plain := named.hasPlainNames
  have resolves : ∀ style cache,
      KeyRules.Remembers ⟨.empty, options.separator, style⟩ cache →
      (KeyRules.resolveFrom ⟨.empty, options.separator, style⟩ cache record.tree).1 =
        .ok (KeyRules.keyedLeaves ⟨.empty, options.separator, style⟩ record.tree) := by
    intro style cache remembers
    have keys := (KeyRules.keyedLeaves_distinct named distinct separates style).1
    have verdict := (remembers.recalls KeyRules.haveSegments_empty).resolveFrom
      KeyRules.haveSegments_empty plain
    rcases verdict.2 with ⟨resolved, _⟩ | ⟨clash, _, isFirst⟩
    · exact resolved
    · exact absurd keys isFirst.not_nodup
  constructor
  · intro style cache rules remembers
    exact ⟨resolves style cache remembers, KeyRules.keyedLeaves_distinct named distinct separates style⟩
  · have resolved : ∃ keyed, (keyRulesFor record options.overrides options.separator
        options.keyStyle).resolve record.tree = .ok keyed := by
      rw [plainly]
      exact ⟨_, resolves _ _ .nothing⟩
    rcases resolved with ⟨keyed, resolved⟩
    refine buildModule_of_resolved plain resolved ?_
    rw [noParsers, noFormatters]
    rfl

/-- Keys with an arrow of two letters, in which only the bracket separates. -/
def GenerateOptions.bracketed : GenerateOptions where
  separator := "a>b"
  keyStyle := none
  overrides := .empty
  parsers := []
  formatters := []
  unit := ⟨[], "", []⟩

theorem buildModule_unambiguous_window :
    let tree := Record.window.tree
    tree.HasNamesOver .ascii ∧ tree.HasDistinctSiblings ∧
      Alphabet.ascii.Separates GenerateOptions.bracketed.separator ∧
      (∀ style cache,
        let rules : KeyRules := ⟨.empty, GenerateOptions.bracketed.separator, style⟩
        rules.Remembers cache →
          (rules.resolveFrom cache tree).1 = .ok (rules.keyedLeaves tree) ∧
            ((rules.keyedLeaves tree).map KeyedLeaf.key).Nodup ∧
            ((rules.keyedLeaves tree).map KeyedLeaf.dottedId).Nodup) ∧
      ∃ m, buildModule Record.window .bracketed = .ok m := by
  have named : Record.window.tree.HasNamesOver .ascii := by decide
  have distinct : Record.window.tree.HasDistinctSiblings := by decide
  have separates : Alphabet.ascii.Separates GenerateOptions.bracketed.separator :=
    ⟨'>', by decide, by decide⟩
  exact ⟨named, distinct, separates,
    buildModule_unambiguous named distinct separates rfl rfl rfl⟩

end KeyedReflection
