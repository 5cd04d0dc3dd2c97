import KeyedReflection.Proofs.Declaration.Scopes
import KeyedReflection.Proofs.Module.Alternatives

/-!
# Qualifiers in front of types

A qualifier in front of a type says whether the field itself can be changed, and it is right to drop it.  In
front of a pointer or a reference it says that about something else, and makes another type.  Qualifiers are
dropped from texts, though, word by word and without a look at how the text ends.

What is dropped is just the run of words in front (`isBehind_dropQualifiers`).  So the qualifiers of what is
pointed to are kept only where there are none, and a pointer to constants always has the canonical type of
the pointer to variables (`qualifiers_kept_iff`).
-/

namespace KeyedReflection

open Json (Value)

namespace FieldType

open Text.Characters (trim trimStart trimEnd dropMark)

/-! ## Words in front of a text -/

/-- A text is a run of words, each with the white space behind it, and a rest that does not begin with a
word. -/
inductive IsBehind (words : List (List Char)) : List (List Char) → List Char → List Char → Prop
  | none {rest : List Char} (behind : ∀ word ∈ words, ¬word <+: rest) : IsBehind words [] rest rest
  | word {word : List Char} {run : List (List Char)} {cs rest : List Char} (isWord : word ∈ words)
      (further : IsBehind words run (trimStart cs) rest) : IsBehind words (word :: run) (word ++ cs) rest

variable {words run otherRun : List (List Char)} {cs rest otherRest : List Char}

theorem isBehind_dropWords (nonempty : [] ∉ words) {steps : Nat} (enough : cs.length ≤ steps) :
    ∃ run, IsBehind words run cs (dropWords words steps cs) := by
  induction steps generalizing cs with
  | zero =>
      have empty : cs = [] := List.eq_nil_of_length_eq_zero (Nat.le_zero.mp enough)
      subst empty
      refine ⟨[], .none fun word isWord begins => nonempty ?_⟩
      rw [← List.prefix_nil.mp begins]
      exact isWord
  | succ steps ih =>
      rw [dropWords]
      cases found : words.findSome? fun word => dropMark word cs with
      | none =>
          refine ⟨[], .none fun word isWord begins => ?_⟩
          rcases begins with ⟨behind, rfl⟩
          have missing := List.findSome?_eq_none_iff.mp found word isWord
          rw [Text.Characters.dropMark_append] at missing
          cases missing
      | some behind =>
          rcases List.exists_of_findSome?_eq_some found with ⟨word, isWord, dropped⟩
          have split := Text.Characters.eq_append_of_dropMark dropped
          subst split
          have nonemptyWord : 0 < word.length :=
            List.length_pos_of_ne_nil fun empty => nonempty (empty ▸ isWord)
          have shorter : (trimStart behind).length ≤ behind.length :=
            (List.dropWhile_sublist Text.isBlank).length_le
          rw [List.length_append] at enough
          have fewer : (trimStart behind).length ≤ steps := by omega
          rcases ih fewer with ⟨run, further⟩
          exact ⟨word :: run, .word isWord further⟩

namespace IsBehind

theorem not_begins (behind : IsBehind words run cs rest) : ∀ word ∈ words, ¬word <+: rest := by
  induction behind with
  | none behind => exact behind
  | word _ _ ih => exact ih

/-- There is one way to read words of which none begins with another. -/
theorem unique (prefixFree : ∀ word ∈ words, ∀ other ∈ words, word <+: other → word = other)
    (behind : IsBehind words run cs rest) (otherBehind : IsBehind words otherRun cs otherRest) :
    rest = otherRest := by
  induction behind generalizing otherRun with
  | none behind =>
      cases otherBehind with
      | none => rfl
      | word isWord => exact absurd (List.prefix_append _ _) (behind _ isWord)
  | @word first run cs rest isWord further ih =>
      generalize whole : first ++ cs = text at otherBehind
      cases otherBehind with
      | none behind =>
          rw [← whole] at behind
          exact absurd (List.prefix_append _ _) (behind _ isWord)
      | @word second _ behind _ otherIsWord otherFurther =>
          have same : first = second := by
            have begins : first <+: second ++ behind := whole ▸ List.prefix_append first cs
            rcases List.prefix_or_prefix_of_prefix begins (List.prefix_append second behind) with
              shorter | longer
            · exact prefixFree _ isWord _ otherIsWord shorter
            · exact (prefixFree _ otherIsWord _ isWord longer).symm
          subst same
          rw [← List.append_cancel_left whole] at otherFurther
          exact ih otherFurther

end IsBehind

theorem elaborations_prefixFree :
    ∀ word ∈ elaborations, ∀ other ∈ elaborations, word <+: other → word = other := by
  decide

theorem qualifiers_subset : qualifiers ⊆ elaborations :=
  List.subset_append_left _ _

theorem isBehind_dropQualifiers (spelling : String) :
    ∃ run, IsBehind qualifiers run (trim spelling.toList) (dropQualifiers spelling).toList := by
  rw [dropQualifiers, String.toList_ofList]
  exact isBehind_dropWords (by decide) (Nat.le_refl _)

theorem isBehind_dropElaborations (spelling : String) :
    ∃ run, IsBehind elaborations run (trim spelling.toList) (dropElaborations spelling).toList := by
  rw [dropElaborations, String.toList_ofList]
  exact isBehind_dropWords (by decide) (Nat.le_refl _)

/-! ## Qualifiers -/

/-- A qualifier stands in front of a spelling. -/
def IsQualified (spelling : String) : Prop :=
  ∃ word ∈ qualifiers, word <+: trim spelling.toList

instance (spelling : String) : Decidable (IsQualified spelling) :=
  inferInstanceAs (Decidable (∃ word ∈ qualifiers, word <+: trim spelling.toList))

/-- A qualifier in front of a spelling is also in front of the type that is taken from it. -/
def KeepsQualifiers (spelling type : String) : Prop :=
  ∀ word ∈ qualifiers, word <+: trim spelling.toList → word <+: type.toList

instance (spelling type : String) : Decidable (KeepsQualifiers spelling type) :=
  inferInstanceAs (Decidable (∀ word ∈ qualifiers, _ → _))

/-- Behind all words there is no qualifier left to be kept. -/
theorem keepsQualifiers_iff {spelling type : String} (among : qualifiers ⊆ words)
    (behind : IsBehind words run (trim spelling.toList) type.toList) :
    KeepsQualifiers spelling type ↔ ¬IsQualified spelling := by
  constructor
  · rintro keeps ⟨word, isWord, begins⟩
    exact behind.not_begins word (among isWord) (keeps word isWord begins)
  · intro unqualified word isWord begins
    exact absurd ⟨word, isWord, begins⟩ unqualified

/-! ## Pointers and references -/

/-- The spelling of a pointer or of a reference. -/
def IsIndirect (spelling : String) : Prop :=
  spelling.toList.getLast? = some '*' ∨ spelling.toList.getLast? = some '&'

instance (spelling : String) : Decidable (IsIndirect spelling) :=
  inferInstanceAs (Decidable (_ ∨ _))

section

variable {c : Char} (last : cs.getLast? = some c) (dark : Text.isBlank c = false)

include last dark

theorem getLast?_trimStart : (trimStart cs).getLast? = some c := by
  rcases List.getLast?_eq_some_iff.mp last with ⟨front, rfl⟩
  rw [trimStart, List.dropWhile_append]
  split
  · rw [List.dropWhile_cons_of_neg (by simp [dark])]
    rfl
  · rw [List.getLast?_concat]

theorem trim_eq_trimStart : trim cs = trimStart cs := by
  rcases List.getLast?_eq_some_iff.mp (getLast?_trimStart last dark) with ⟨front, split⟩
  rw [trim, split, trimEnd, List.reverse_concat, List.dropWhile_cons_of_neg (by simp [dark]),
    ← List.reverse_concat, List.reverse_reverse]

/-- The words end in white space, so that the rest ends like the text. -/
theorem IsBehind.getLast? (blank : ∀ word ∈ words, ∀ c ∈ word.getLast?, Text.isBlank c = true)
    (behind : IsBehind words run cs rest) : rest.getLast? = some c := by
  induction behind with
  | none => exact last
  | @word word run behind rest isWord further ih =>
      apply ih
      apply getLast?_trimStart _ dark
      rw [List.getLast?_append] at last
      cases inside : behind.getLast? with
      | some d =>
          rw [inside] at last
          exact last
      | none =>
          rw [inside, Option.none_or] at last
          rw [blank word isWord c last] at dark
          cases dark

end

theorem elaborations_blank : ∀ word ∈ elaborations, ∀ c ∈ word.getLast?, Text.isBlank c = true := by
  have spaced : ∀ word ∈ elaborations, word.getLast? = some ' ' := by decide
  intro word isWord c last
  rw [spaced word isWord] at last
  cases last
  rfl

/-- What ends a pointer or a reference is not white space. -/
theorem IsIndirect.exists_last {spelling : String} (indirect : IsIndirect spelling) :
    ∃ c, spelling.toList.getLast? = some c ∧ Text.isBlank c = false ∧ c ≠ '>' := by
  rcases indirect with star | ampersand
  · exact ⟨'*', star, by decide, by decide⟩
  · exact ⟨'&', ampersand, by decide, by decide⟩

/-- A pointer or a reference stays one without the words in front of it. -/
theorem IsIndirect.of_isBehind {spelling type : String} (indirect : IsIndirect spelling)
    (among : words ⊆ elaborations) (behind : IsBehind words run (trim spelling.toList) type.toList) :
    IsIndirect type := by
  have kept : ∀ c, Text.isBlank c = false → spelling.toList.getLast? = some c →
      type.toList.getLast? = some c := by
    intro c dark last
    have trimmed : (trim spelling.toList).getLast? = some c := by
      rw [trim_eq_trimStart last dark]
      exact getLast?_trimStart last dark
    exact behind.getLast? trimmed dark fun word isWord => elaborations_blank word (among isWord)
  exact indirect.imp (kept '*' (by decide)) (kept '&' (by decide))

/-- An optional ends in a closing bracket. -/
theorem optionalArgument?_of_isIndirect {spelling : String} (indirect : IsIndirect spelling) :
    optionalArgument? spelling = none := by
  rcases isBehind_dropElaborations spelling with ⟨run, behind⟩
  rcases (indirect.of_isBehind (List.Subset.refl _) behind).exists_last with ⟨c, last, _, different⟩
  rw [optionalArgument?]
  split
  · rfl
  · rename_i rest opened
    rcases List.exists_of_findSome?_eq_some opened with ⟨opening, _, marked⟩
    rcases Option.map_eq_some_iff.mp marked with ⟨inner, begins, rfl⟩
    rw [Option.map_eq_none_iff, Text.dropEndMark, Option.map_eq_none_iff, Text.Characters.dropEndMark,
      Option.map_eq_none_iff, Option.eq_none_iff_forall_ne_some]
    intro front closed
    simp only [String.toList_ofList] at closed
    have ends : inner = front.reverse ++ ['>'] := by
      rw [← List.reverse_inj, Text.Characters.eq_append_of_dropMark closed]
      simp
    rw [Text.Characters.eq_append_of_dropMark begins, ends, ← List.append_assoc,
      List.getLast?_concat] at last
    exact different (Option.some.inj last).symm

/-- A qualifier in front of a pointer or a reference makes no difference. -/
theorem dropWords_qualified (nonempty : [] ∉ words)
    (prefixFree : ∀ word ∈ words, ∀ other ∈ words, word <+: other → word = other) {word : List Char}
    (isWord : word ∈ words) (cs : List Char) :
    dropWords words (word ++ cs).length (word ++ cs) =
      dropWords words (trimStart cs).length (trimStart cs) := by
  rcases isBehind_dropWords nonempty (Nat.le_refl (word ++ cs).length) with ⟨run, behind⟩
  rcases isBehind_dropWords nonempty (Nat.le_refl (trimStart cs).length) with ⟨otherRun, otherBehind⟩
  exact behind.unique prefixFree (.word isWord otherBehind)

theorem IsIndirect.trim_append {spelling : String} (indirect : IsIndirect spelling) {qualifier : String}
    (isQualifier : qualifier.toList ∈ qualifiers) :
    trim spelling.toList = trimStart spelling.toList ∧
      trim (qualifier ++ spelling).toList = qualifier.toList ++ spelling.toList := by
  rcases indirect.exists_last with ⟨c, last, dark, _⟩
  have whole : (qualifier.toList ++ spelling.toList).getLast? = some c := by
    rw [List.getLast?_append, last, Option.some_or]
  refine ⟨trim_eq_trimStart last dark, ?_⟩
  rw [String.toList_append, trim_eq_trimStart whole dark]
  -- A qualifier does not begin with white space itself.
  rcases List.mem_cons.mp isQualifier with same | later
  · rw [same]
    rfl
  · rw [List.mem_singleton.mp later]
    rfl

theorem dropQualifiers_qualified {spelling : String} (indirect : IsIndirect spelling) {qualifier : String}
    (isQualifier : qualifier.toList ∈ qualifiers) :
    dropQualifiers (qualifier ++ spelling) = dropQualifiers spelling := by
  rcases indirect.trim_append isQualifier with ⟨trimmed, trimmedBoth⟩
  rw [dropQualifiers, dropQualifiers, trimmed, trimmedBoth]
  exact congrArg String.ofList (dropWords_qualified (by decide) (by decide) isQualifier _)

theorem dropElaborations_qualified {spelling : String} (indirect : IsIndirect spelling) {qualifier : String}
    (isQualifier : qualifier.toList ∈ qualifiers) :
    dropElaborations (qualifier ++ spelling) = dropElaborations spelling := by
  rcases indirect.trim_append isQualifier with ⟨trimmed, trimmedBoth⟩
  rw [dropElaborations, dropElaborations, trimmed, trimmedBoth]
  exact congrArg String.ofList (dropWords_qualified (by decide) elaborations_prefixFree
    (qualifiers_subset isQualifier) _)

end FieldType

/-! ## The types of leaves -/

/-- The type of a field as written. -/
def NodeAttributes.spelling (attributes : NodeAttributes) : String :=
  attributes.writtenType.getD ""

/-- The type of a field without aliases. -/
def NodeAttributes.resolved (attributes : NodeAttributes) : String :=
  attributes.desugaredType.getD attributes.spelling

namespace RecordIndex

open FieldType
open Text.Characters (trim)

theorem classify_leafOf (field : Declaration) (name : String) :
    classify field.attributes.writtenType field.attributes.desugaredType =
      ((leafOf field name).declaredType, (leafOf field name).canonicalType,
        (leafOf field name).isOptional) := by
  simp only [leafOf]

/-- A field is not an optional one when neither of its types is. -/
theorem isOptional_leafOf_eq_false_iff {field : Declaration} {name : String} :
    (leafOf field name).isOptional = false ↔
      optionalArgument? (dropQualifiers field.attributes.spelling) = none ∧
        optionalArgument? (dropElaborations field.attributes.resolved) = none := by
  have classified := classify_leafOf field name
  unfold classify at classified
  dsimp only at classified
  rw [NodeAttributes.resolved, NodeAttributes.spelling]
  split at classified
  · rename_i argument inner declared
    rw [← (Prod.mk.inj (Prod.mk.inj classified).2).2, declared]
    simp
  · rename_i argument declared canonical
    rw [← (Prod.mk.inj (Prod.mk.inj classified).2).2, canonical]
    simp
  · rename_i declared canonical
    rw [← (Prod.mk.inj (Prod.mk.inj classified).2).2, declared, canonical]
    simp

/-- A field that is not an optional one has the types that are behind the words in front. -/
theorem types_leafOf {field : Declaration} {name : String}
    (plain : (leafOf field name).isOptional = false) :
    (leafOf field name).declaredType = dropQualifiers field.attributes.spelling ∧
      (leafOf field name).canonicalType = dropElaborations field.attributes.resolved := by
  rcases isOptional_leafOf_eq_false_iff.mp plain with ⟨declared, canonical⟩
  have classified := classify_leafOf field name
  rw [NodeAttributes.spelling] at declared
  rw [NodeAttributes.resolved, NodeAttributes.spelling] at canonical
  unfold classify at classified
  dsimp only at classified
  rw [declared, canonical] at classified
  rcases Prod.mk.inj classified with ⟨sameDeclared, rest⟩
  exact ⟨sameDeclared.symm, (Prod.mk.inj rest).1.symm⟩

theorem isOptional_leafOf {field : Declaration} (name : String)
    (indirect : IsIndirect field.attributes.spelling) (resolved : IsIndirect field.attributes.resolved) :
    (leafOf field name).isOptional = false := by
  rcases isBehind_dropQualifiers field.attributes.spelling with ⟨run, behind⟩
  rcases isBehind_dropElaborations field.attributes.resolved with ⟨otherRun, otherBehind⟩
  exact isOptional_leafOf_eq_false_iff.mpr
    ⟨optionalArgument?_of_isIndirect (indirect.of_isBehind qualifiers_subset behind),
      optionalArgument?_of_isIndirect (resolved.of_isBehind (List.Subset.refl _) otherBehind)⟩

end RecordIndex

/-- What becomes of the qualifiers in front of a type, when the field is not an optional one.  The declared
type is behind all qualifiers in front of the type as written, and the canonical type is behind all qualifiers
and keywords in front of the type without aliases.  So each of the two keeps the qualifiers in front of it
exactly when there are none.  Pointers and references are not excepted: with a qualifier in front, which
makes another type, they are leaves of the same types. -/
theorem qualifiers_kept_iff (field : Declaration) (name : String) :
    let spelling := field.attributes.spelling
    let resolved := field.attributes.resolved
    let leaf := RecordIndex.leafOf field name
    (leaf.isOptional = false →
      (∃ run, FieldType.IsBehind FieldType.qualifiers run (Text.Characters.trim spelling.toList)
        leaf.declaredType.toList) ∧
      (∃ run, FieldType.IsBehind FieldType.elaborations run (Text.Characters.trim resolved.toList)
        leaf.canonicalType.toList) ∧
      (FieldType.KeepsQualifiers spelling leaf.declaredType ↔ ¬FieldType.IsQualified spelling) ∧
      (FieldType.KeepsQualifiers resolved leaf.canonicalType ↔ ¬FieldType.IsQualified resolved)) ∧
    (FieldType.IsIndirect spelling → FieldType.IsIndirect resolved → leaf.isOptional = false) ∧
    ∀ other otherName, ∀ qualifier ∈ ["const ", "volatile "],
      let otherLeaf := RecordIndex.leafOf other otherName
      leaf.isOptional = false → otherLeaf.isOptional = false →
        (FieldType.IsIndirect spelling → other.attributes.spelling = qualifier ++ spelling →
          otherLeaf.declaredType = leaf.declaredType) ∧
        (FieldType.IsIndirect resolved → other.attributes.resolved = qualifier ++ resolved →
          otherLeaf.canonicalType = leaf.canonicalType) := by
  intro spelling resolved leaf
  refine ⟨?_, RecordIndex.isOptional_leafOf name, ?_⟩
  · intro plain
    rcases RecordIndex.types_leafOf plain with ⟨declared, canonical⟩
    rcases FieldType.isBehind_dropQualifiers spelling with ⟨run, behind⟩
    rcases FieldType.isBehind_dropElaborations resolved with ⟨otherRun, otherBehind⟩
    rw [← declared] at behind
    rw [← canonical] at otherBehind
    exact ⟨⟨run, behind⟩, ⟨otherRun, otherBehind⟩,
      FieldType.keepsQualifiers_iff (List.Subset.refl _) behind,
      FieldType.keepsQualifiers_iff FieldType.qualifiers_subset otherBehind⟩
  · intro other otherName qualifier isQualifier otherLeaf plain otherPlain
    have among : qualifier.toList ∈ FieldType.qualifiers :=
      List.mem_map_of_mem isQualifier
    rcases RecordIndex.types_leafOf plain with ⟨declared, canonical⟩
    rcases RecordIndex.types_leafOf otherPlain with ⟨otherDeclared, otherCanonical⟩
    constructor
    · intro indirect same
      rw [otherDeclared, declared, same, FieldType.dropQualifiers_qualified indirect among]
    · intro indirect same
      rw [otherCanonical, canonical, same, FieldType.dropElaborations_qualified indirect among]

/-- The type of a buffer has no qualifier to be kept, and a field with a qualifier in front of that type has the
same types. -/
theorem qualifiers_kept_iff_buffer :
    let buffer := RecordIndex.leafOf (.ofValue (Dump.field "buffer" "char *")) "buffer"
    let name := RecordIndex.leafOf (.ofValue (Dump.field "name" "const char *")) "name"
    buffer.isOptional = false ∧ FieldType.KeepsQualifiers "char *" buffer.canonicalType ∧
      name.isOptional = false ∧ ¬FieldType.KeepsQualifiers "const char *" name.canonicalType ∧
      name.declaredType = buffer.declaredType ∧ name.canonicalType = buffer.canonicalType := by
  intro buffer name
  have indirect : FieldType.IsIndirect "char *" := by decide
  have qualifiedIndirect : FieldType.IsIndirect "const char *" := by decide
  rcases qualifiers_kept_iff (.ofValue (Dump.field "buffer" "char *")) "buffer" with
    ⟨kept, notOptional, same⟩
  rcases qualifiers_kept_iff (.ofValue (Dump.field "name" "const char *")) "name" with
    ⟨otherKept, otherNotOptional, _⟩
  have plain := notOptional indirect indirect
  have otherPlain := otherNotOptional qualifiedIndirect qualifiedIndirect
  rcases same _ "name" "const " List.mem_cons_self plain otherPlain with ⟨declared, canonical⟩
  exact ⟨plain, (kept plain).2.2.2.mpr (by decide), otherPlain,
    mt (otherKept otherPlain).2.2.2.mp (not_not_intro (by decide)), declared indirect rfl,
    canonical indirect rfl⟩

/-- A struct with a pointer to constants and a pointer to variables. -/
def Dump.pointees : Value :=
  Dump.node "TranslationUnitDecl" []
    [Dump.struct "Entry" [Dump.field "name" "const char *", Dump.field "buffer" "char *"]]

def Record.pointees : Record where
  namespaces := []
  name := "Entry"
  origin := .source
  tree := .ofOutline "Entry" "" (.leaf ⟨"name", "char *", "char *", false, false, ""⟩
    (.leaf ⟨"buffer", "char *", "char *", false, false, ""⟩ .nil))

/-- The qualifier of the first field is in neither of its types, and the two fields share an alternative. -/
theorem pointees_share_alternative : ∃ m,
    (RecordSource.declarations ⟨.ofValue Dump.pointees, none⟩).findRecords "*" = .ok [.pointees] ∧
    FieldType.IsIndirect "const char *" ∧ FieldType.IsQualified "const char *" ∧
    ¬FieldType.KeepsQualifiers "const char *" "char *" ∧
    buildModule .pointees .slashed = .ok m ∧
    m.table.keys.Perm ["name", "buffer"] ∧
    ∀ canonicalType, canonicalType ∈ m.valueType.alternatives.keys ↔ canonicalType = "char *" := by
  have found : (RecordSource.declarations ⟨.ofValue Dump.pointees, none⟩).findRecords "*" =
      .ok [.pointees] := by
    decide +kernel
  have plain : Record.pointees.tree.HasPlainNames := by decide
  have keyed : (keyRulesFor .pointees .empty "/" none).resolve Record.pointees.tree =
      .ok [⟨"name", "name", ⟨"name", "char *", "char *", false, false, ""⟩⟩,
        ⟨"buffer", "buffer", ⟨"buffer", "char *", "char *", false, false, ""⟩⟩] := by
    rw [KeyRules.resolve_eq_ok_iff plain]
    decide +kernel
  rcases @buildModule_of_resolved _ .slashed _ plain keyed rfl with ⟨m, built⟩
  rcases exists_keyed_of_built built with ⟨others, resolved, _, isOver⟩
  rw [GenerateOptions.slashed, keyed] at resolved
  cases resolved
  refine ⟨m, found, by decide, by decide, by decide, built, isOver.perm.map KeyedLeaf.key, ?_⟩
  intro canonicalType
  rw [isOver.valueType, ValueType.mem_alternatives]
  simp only [isOver.perm.mem_iff, List.mem_cons, List.not_mem_nil, or_false, or_and_right, exists_or,
    exists_eq_left, or_self]
  exact eq_comm

end KeyedReflection
