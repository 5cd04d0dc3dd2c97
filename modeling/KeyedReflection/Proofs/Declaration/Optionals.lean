import KeyedReflection.Proofs.Declaration.Qualifiers
import KeyedReflection.Proofs.Text.Cutting

/-!
# Optionals and their brackets

The spelling of an optional begins with the name of the template and an opening bracket, and its last
character closes that bracket.  Of these two only the first is tested as such: the last character has to be
some closing bracket, whichever bracket it closes.  A member of an optional, such as
`optional<A>::rebind<B>`, passes too, and what is taken out of it is no type.

How brackets are matched is said by the number of open ones behind a text (`openedAfter`).  For balanced
spellings one level of an optional is taken off as it should exactly when neither spelling of the field is that of
such a member, and then balanced spellings are left (`optionals_unwrapped_iff`).
-/

namespace KeyedReflection
namespace FieldType

open Text.Characters (trim trimStart trimEnd IsTrimmed)

/-! ## Angle brackets -/

/-- How many brackets are open behind a text, when some are open in front of it.  There is no answer when a
bracket is closed that is not open. -/
def openedAfter (opened : Nat) : List Char → Option Nat
  | [] => some opened
  | c :: cs =>
    if c = '<' then openedAfter (opened + 1) cs
    else if c ≠ '>' then openedAfter opened cs
    else if opened = 0 then none
    else openedAfter (opened - 1) cs

/-- Every bracket is opened before it is closed, and closed in the end. -/
def IsBalanced (cs : List Char) : Prop :=
  openedAfter 0 cs = some 0

instance (cs : List Char) : Decidable (IsBalanced cs) :=
  inferInstanceAs (Decidable (_ = _))

section

variable {opened : Nat} {cs front back : List Char}

@[simp] theorem openedAfter_nil : openedAfter opened [] = some opened :=
  rfl

@[simp] theorem openedAfter_open : openedAfter opened ('<' :: cs) = openedAfter (opened + 1) cs := by
  rw [openedAfter, if_pos rfl]

@[simp] theorem openedAfter_close : openedAfter (opened + 1) ('>' :: cs) = openedAfter opened cs := by
  rw [openedAfter, if_neg (by decide), if_neg (by decide), if_neg (Nat.succ_ne_zero _), Nat.add_sub_cancel]

@[simp] theorem openedAfter_zero_close : openedAfter 0 ('>' :: cs) = none := by
  rw [openedAfter, if_neg (by decide), if_neg (by decide), if_pos rfl]

theorem openedAfter_other {c : Char} (noOpen : c ≠ '<') (noClose : c ≠ '>') :
    openedAfter opened (c :: cs) = openedAfter opened cs := by
  rw [openedAfter, if_neg noOpen, if_pos noClose]

/-- A bracket is opened or closed, or there is none: induction on a text that is followed from the left. -/
theorem openedAfter_induction {motive : Nat → List Char → Prop} (nil : ∀ opened, motive opened [])
    (opens : ∀ opened cs, motive (opened + 1) cs → motive opened ('<' :: cs))
    (closes : ∀ opened cs, motive opened cs → motive (opened + 1) ('>' :: cs))
    (fails : ∀ cs, motive 0 ('>' :: cs))
    (other : ∀ opened c cs, c ≠ '<' → c ≠ '>' → motive opened cs → motive opened (c :: cs))
    (opened : Nat) (cs : List Char) : motive opened cs := by
  induction cs generalizing opened with
  | nil => exact nil opened
  | cons c cs ih =>
      by_cases isOpen : c = '<'
      · subst isOpen
        exact opens opened cs (ih (opened + 1))
      · by_cases isClose : c = '>'
        · subst isClose
          cases opened with
          | zero => exact fails cs
          | succ opened => exact closes opened cs (ih opened)
        · exact other opened c cs isOpen isClose (ih opened)

theorem openedAfter_append :
    openedAfter opened (front ++ back) = (openedAfter opened front).bind fun n => openedAfter n back := by
  induction opened, front using openedAfter_induction with
  | nil opened => rfl
  | opens opened cs ih => rw [List.cons_append, openedAfter_open, openedAfter_open, ih]
  | closes opened cs ih => rw [List.cons_append, openedAfter_close, openedAfter_close, ih]
  | fails cs => rw [List.cons_append, openedAfter_zero_close, openedAfter_zero_close, Option.bind_none]
  | other opened c cs noOpen noClose ih =>
      rw [List.cons_append, openedAfter_other noOpen noClose, openedAfter_other noOpen noClose, ih]

/-- Text without brackets opens and closes nothing. -/
theorem openedAfter_quiet (quiet : ∀ c ∈ cs, c ≠ '<' ∧ c ≠ '>') : openedAfter opened cs = some opened := by
  induction cs with
  | nil => rfl
  | cons c cs ih =>
      rcases List.forall_mem_cons.mp quiet with ⟨⟨noOpen, noClose⟩, others⟩
      rw [openedAfter_other noOpen noClose, ih others]

/-- One more bracket that is open in front is still open behind. -/
theorem openedAfter_succ {n : Nat} (followed : openedAfter opened cs = some n) :
    openedAfter (opened + 1) cs = some (n + 1) := by
  induction opened, cs using openedAfter_induction with
  | nil opened => simp_all
  | opens opened cs ih =>
      rw [openedAfter_open] at followed ⊢
      exact ih followed
  | closes opened cs ih =>
      rw [openedAfter_close] at followed ⊢
      exact ih followed
  | fails cs =>
      rw [openedAfter_zero_close] at followed
      cases followed
  | other opened c cs noOpen noClose ih =>
      rw [openedAfter_other noOpen noClose] at followed ⊢
      exact ih followed

/-- There is a first bracket that is closed without being open. -/
theorem openedAfter_eq_none_iff :
    openedAfter opened cs = none ↔
      ∃ front rest, cs = front ++ '>' :: rest ∧ openedAfter opened front = some 0 := by
  constructor
  · intro unmatched
    induction opened, cs using openedAfter_induction with
    | nil opened => cases unmatched
    | opens opened cs ih =>
        rw [openedAfter_open] at unmatched
        rcases ih unmatched with ⟨front, rest, rfl, followed⟩
        exact ⟨'<' :: front, rest, rfl, openedAfter_open.trans followed⟩
    | closes opened cs ih =>
        rw [openedAfter_close] at unmatched
        rcases ih unmatched with ⟨front, rest, rfl, followed⟩
        exact ⟨'>' :: front, rest, rfl, openedAfter_close.trans followed⟩
    | fails cs => exact ⟨[], cs, rfl, rfl⟩
    | other opened c cs noOpen noClose ih =>
        rw [openedAfter_other noOpen noClose] at unmatched
        rcases ih unmatched with ⟨front, rest, rfl, followed⟩
        exact ⟨c :: front, rest, rfl, (openedAfter_other noOpen noClose).trans followed⟩
  · rintro ⟨front, rest, rfl, followed⟩
    rw [openedAfter_append, followed, Option.bind_some, openedAfter_zero_close]

theorem openedAfter_quiet_append (quiet : ∀ c ∈ front, c ≠ '<' ∧ c ≠ '>') :
    openedAfter opened (front ++ cs) = openedAfter opened cs := by
  rw [openedAfter_append, openedAfter_quiet quiet, Option.bind_some]

theorem quiet_of_blank (blank : ∀ c ∈ cs, Text.isBlank c = true) : ∀ c ∈ cs, c ≠ '<' ∧ c ≠ '>' := by
  intro c inside
  constructor
  · rintro rfl
    exact absurd (blank _ inside) (by decide)
  · rintro rfl
    exact absurd (blank _ inside) (by decide)

theorem openedAfter_trimStart : openedAfter opened (trimStart cs) = openedAfter opened cs := by
  rcases Text.Characters.exists_trimStart cs with ⟨front, blank, split⟩
  conv_rhs => rw [split, openedAfter_quiet_append (quiet_of_blank blank)]

theorem openedAfter_trim : openedAfter opened (trim cs) = openedAfter opened cs := by
  rcases Text.Characters.exists_trimEnd (trimStart cs) with ⟨back, blank, split⟩
  rw [← @openedAfter_trimStart opened cs, split, openedAfter_append, trim]
  cases openedAfter opened (trimEnd (trimStart cs)) with
  | none => rfl
  | some n => rw [Option.bind_some, openedAfter_quiet (quiet_of_blank blank)]

/-- What stands between an open bracket and a last one, which closes all there is, is balanced or closes the
open bracket itself before. -/
theorem isBalanced_or_exists_close (followed : openedAfter 1 (cs ++ ['>']) = some 0) :
    IsBalanced cs ∨ ∃ argument rest, cs = argument ++ '>' :: rest ∧ IsBalanced argument := by
  have inside : openedAfter 1 cs = some 1 := by
    rw [openedAfter_append] at followed
    rcases Option.bind_eq_some_iff.mp followed with ⟨n, first, last⟩
    cases n with
    | zero =>
        rw [openedAfter_zero_close] at last
        cases last
    | succ n =>
        rw [openedAfter_close, openedAfter_nil] at last
        cases last
        exact first
  cases level : openedAfter 0 cs with
  | none => exact .inr (openedAfter_eq_none_iff.mp level)
  | some n =>
      have raised := openedAfter_succ level
      rw [inside] at raised
      cases raised
      exact .inl level

end

/-! ## Words in front -/

section

variable {words others run otherRun : List (List Char)} {cs mid rest : List Char}

/-- The words in front have no brackets. -/
theorem IsBehind.openedAfter_eq {opened : Nat} (among : words ⊆ elaborations)
    (behind : IsBehind words run cs rest) : openedAfter opened rest = openedAfter opened cs := by
  have free : ∀ word ∈ elaborations, '<' ∉ word ∧ '>' ∉ word := by decide
  have quiet : ∀ word ∈ elaborations, ∀ c ∈ word, c ≠ '<' ∧ c ≠ '>' := by
    intro word isWord c inside
    rcases free word isWord with ⟨noOpen, noClose⟩
    exact ⟨ne_of_mem_of_not_mem inside noOpen, ne_of_mem_of_not_mem inside noClose⟩
  induction behind with
  | none => rfl
  | word isWord _ ih => rw [ih, openedAfter_trimStart, openedAfter_quiet_append (quiet _ (among isWord))]

theorem IsBehind.isTrimmed (behind : IsBehind words run cs rest) (trimmed : IsTrimmed cs) : IsTrimmed rest := by
  induction behind with
  | none => exact trimmed
  | @word word _ behind _ _ _ ih =>
      apply ih
      refine ⟨Text.Characters.head?_trimStart, fun c last => trimmed.last c ?_⟩
      rcases Text.Characters.exists_trimStart behind with ⟨front, _, split⟩
      rw [Option.mem_def] at last ⊢
      rw [split, ← List.append_assoc, List.getLast?_append, last, Option.some_or]

/-- Dropping some of the words first makes no difference. -/
theorem IsBehind.append (among : words ⊆ others) (behind : IsBehind words run cs mid)
    (further : IsBehind others otherRun mid rest) : ∃ whole, IsBehind others whole cs rest := by
  induction behind with
  | none => exact ⟨otherRun, further⟩
  | @word word _ _ _ isWord _ ih =>
      rcases ih further with ⟨whole, inside⟩
      exact ⟨word :: whole, .word (among isWord) inside⟩

end

theorem dropElaborations_behind {words run : List (List Char)} {spelling mid : String}
    (among : words ⊆ elaborations) (behind : IsBehind words run (trim spelling.toList) mid.toList) :
    dropElaborations mid = dropElaborations spelling := by
  have trimmed := behind.isTrimmed (Text.Characters.isTrimmed_trim spelling.toList)
  rcases isBehind_dropElaborations mid with ⟨further, inside⟩
  rcases isBehind_dropElaborations spelling with ⟨whole, all⟩
  rw [trimmed.trim_eq] at inside
  rcases behind.append among inside with ⟨joined, both⟩
  exact String.toList_inj.mp (both.unique elaborations_prefixFree all)

theorem optionalArgument?_dropQualifiers (spelling : String) :
    optionalArgument? (dropQualifiers spelling) = optionalArgument? spelling := by
  rcases isBehind_dropQualifiers spelling with ⟨run, behind⟩
  rw [optionalArgument?, optionalArgument?, dropElaborations_behind qualifiers_subset behind]

theorem optionalArgument?_dropElaborations (spelling : String) :
    optionalArgument? (dropElaborations spelling) = optionalArgument? spelling := by
  rcases isBehind_dropElaborations spelling with ⟨run, behind⟩
  rw [optionalArgument?, optionalArgument?, dropElaborations_behind (List.Subset.refl _) behind]

/-! ## Optionals -/

/-- Without the words in front, a spelling begins as that of an optional and ends in a closing bracket, with
`inner` in between. -/
def HasInner (spelling : String) (inner : List Char) : Prop :=
  ∃ opening ∈ optionalOpenings, (dropElaborations spelling).toList = opening.toList ++ inner ++ ['>']

/-- A spelling is that of an optional of the argument: its last character closes the bracket that the name of the
template opens. -/
def IsOptionalOf (spelling argument : String) : Prop :=
  ∃ inner, HasInner spelling inner ∧ IsBalanced inner ∧ argument = .ofList (trim inner)

/-- A spelling begins with an optional, whose bracket is closed before the last character, and yet ends in a
closing bracket. -/
def IsOptionalMember (spelling : String) : Prop :=
  ∃ argument rest, HasInner spelling (argument ++ '>' :: rest) ∧ IsBalanced argument

theorem optionalOpenings_prefixFree : ∀ opening ∈ optionalOpenings, ∀ other ∈ optionalOpenings,
    opening.toList <+: other.toList → opening = other := by
  decide

section

variable {spelling argument : String} {inner other : List Char}

theorem opening_unique {opening otherOpening : String} {cs : List Char}
    (isOpening : opening ∈ optionalOpenings) (isOther : otherOpening ∈ optionalOpenings)
    (begins : opening.toList <+: cs) (otherBegins : otherOpening.toList <+: cs) : opening = otherOpening := by
  rcases List.prefix_or_prefix_of_prefix begins otherBegins with shorter | longer
  · exact optionalOpenings_prefixFree _ isOpening _ isOther shorter
  · exact (optionalOpenings_prefixFree _ isOther _ isOpening longer).symm

theorem HasInner.unique (has : HasInner spelling inner) (hasOther : HasInner spelling other) : inner = other := by
  rcases has with ⟨opening, isOpening, split⟩
  rcases hasOther with ⟨otherOpening, isOther, otherSplit⟩
  have begins : opening.toList <+: (dropElaborations spelling).toList :=
    ⟨inner ++ ['>'], by rw [split, List.append_assoc]⟩
  have otherBegins : otherOpening.toList <+: (dropElaborations spelling).toList :=
    ⟨other ++ ['>'], by rw [otherSplit, List.append_assoc]⟩
  rw [opening_unique isOpening isOther begins otherBegins, otherSplit] at split
  exact (List.append_cancel_left (List.append_cancel_right split)).symm

/-- What is taken out of a spelling, whichever bracket its last character closes. -/
theorem optionalArgument?_eq_some_iff :
    optionalArgument? spelling = some argument ↔
      ∃ inner, HasInner spelling inner ∧ argument = .ofList (trim inner) := by
  rw [optionalArgument?]
  constructor
  · intro taken
    split at taken
    · cases taken
    · rename_i rest opened
      rcases List.exists_of_findSome?_eq_some opened with ⟨opening, isOpening, begins⟩
      rcases Option.map_eq_some_iff.mp taken with ⟨inner, ends, rfl⟩
      rw [Text.dropMark_eq_some_iff] at begins
      rw [Text.dropEndMark_eq_some_iff] at ends
      refine ⟨inner.toList, ⟨opening, isOpening, ?_⟩, rfl⟩
      rw [begins, ends, List.append_assoc]
      rfl
  · rintro ⟨inner, ⟨opening, isOpening, split⟩, rfl⟩
    have begins : Text.dropMark opening (dropElaborations spelling) = some (.ofList (inner ++ ['>'])) := by
      rw [Text.dropMark_eq_some_iff, split, String.toList_ofList, List.append_assoc]
    have found : optionalOpenings.findSome? (fun opening => Text.dropMark opening (dropElaborations spelling)) =
        some (.ofList (inner ++ ['>'])) := by
      cases first : optionalOpenings.findSome? fun opening =>
          Text.dropMark opening (dropElaborations spelling) with
      | none =>
          rw [List.findSome?_eq_none_iff.mp first opening isOpening] at begins
          cases begins
      | some rest =>
          rcases List.exists_of_findSome?_eq_some first with ⟨other, isOther, otherBegins⟩
          have same : other = opening :=
            opening_unique isOther isOpening
              ⟨_, (Text.dropMark_eq_some_iff.mp otherBegins).symm⟩ ⟨_, (Text.dropMark_eq_some_iff.mp begins).symm⟩
          rw [← otherBegins, same, begins]
    have ends : Text.dropEndMark ">" (.ofList (inner ++ ['>'])) = some (.ofList inner) := by
      rw [Text.dropEndMark_eq_some_iff, String.toList_ofList, String.toList_ofList]
      rfl
    rw [found]
    dsimp only
    rw [ends, Option.map_some, Text.trim, String.toList_ofList]

theorem IsOptionalOf.isBalanced (optional : IsOptionalOf spelling argument) : IsBalanced argument.toList := by
  rcases optional with ⟨inner, _, balanced, rfl⟩
  rw [IsBalanced, String.toList_ofList, openedAfter_trim]
  exact balanced

/-- A balanced spelling is that of an optional, of a member of an optional, or of something else, and in the
first two cases something is taken out of it. -/
theorem optional_cases (balanced : IsBalanced spelling.toList) :
    (optionalArgument? spelling = none ∧ (∀ argument, ¬IsOptionalOf spelling argument) ∧
      ¬IsOptionalMember spelling) ∨
    (∃ argument, optionalArgument? spelling = some argument ∧ IsOptionalOf spelling argument ∧
      ¬IsOptionalMember spelling) ∨
    (∃ argument, optionalArgument? spelling = some argument ∧ (∀ other, ¬IsOptionalOf spelling other) ∧
      IsOptionalMember spelling ∧ ¬IsBalanced argument.toList) := by
  cases taken : optionalArgument? spelling with
  | none =>
      have unread : ∀ inner, ¬HasInner spelling inner := by
        intro inner has
        rw [optionalArgument?_eq_some_iff.mpr ⟨inner, has, rfl⟩] at taken
        cases taken
      exact .inl ⟨rfl, fun _ ⟨inner, has, _⟩ => unread inner has,
        fun ⟨_, _, has, _⟩ => unread _ has⟩
  | some argument =>
      rcases optionalArgument?_eq_some_iff.mp taken with ⟨inner, has, rfl⟩
      have closed : ∀ argument rest, inner = argument ++ '>' :: rest → IsBalanced argument →
          ¬IsBalanced inner := by
        rintro argument rest rfl balanced whole
        rw [IsBalanced, openedAfter_eq_none_iff.mpr ⟨argument, rest, rfl, balanced⟩] at whole
        cases whole
      have followed : openedAfter 1 (inner ++ ['>']) = some 0 := by
        rcases isBehind_dropElaborations spelling with ⟨run, behind⟩
        rcases has with ⟨opening, isOpening, split⟩
        have opens : ∀ opening ∈ optionalOpenings, openedAfter 0 opening.toList = some 1 := by decide
        have whole : openedAfter 0 (dropElaborations spelling).toList = openedAfter 0 (trim spelling.toList) :=
          behind.openedAfter_eq (List.Subset.refl _)
        rw [openedAfter_trim, balanced, split, List.append_assoc, openedAfter_append, opens opening isOpening,
          Option.bind_some] at whole
        exact whole
      rcases isBalanced_or_exists_close followed with inside | ⟨argument, rest, split, inside⟩
      · refine .inr (.inl ⟨_, rfl, ⟨inner, has, inside, rfl⟩, ?_⟩)
        rintro ⟨argument, rest, hasMember, balancedArgument⟩
        exact closed argument rest (has.unique hasMember) balancedArgument inside
      · have unbalanced := closed argument rest split inside
        refine .inr (.inr ⟨_, rfl, ?_, ⟨argument, rest, split ▸ has, inside⟩, ?_⟩)
        · rintro other ⟨otherInner, hasOther, balancedOther, _⟩
          exact unbalanced (has.unique hasOther ▸ balancedOther)
        · rw [IsBalanced, String.toList_ofList, openedAfter_trim]
          exact unbalanced

end

/-- What is to become of the two spellings of a field: the declared type, the canonical type and whether the field
is optional.  The type as written decides, and otherwise the type without aliases, and one level is taken off. -/
inductive TakesOneLevel (written resolved : String) : String → String → Bool → Prop
  | both {declared canonical : String} (isWritten : IsOptionalOf written declared)
      (isResolved : IsOptionalOf resolved canonical) : TakesOneLevel written resolved declared canonical true
  | written {argument : String} (isWritten : IsOptionalOf written argument)
      (other : ∀ argument, ¬IsOptionalOf resolved argument) : TakesOneLevel written resolved argument argument true
  | resolved {argument : String} (other : ∀ argument, ¬IsOptionalOf written argument)
      (isResolved : IsOptionalOf resolved argument) : TakesOneLevel written resolved argument argument true
  | neither (other : ∀ argument, ¬IsOptionalOf written argument)
      (further : ∀ argument, ¬IsOptionalOf resolved argument) :
      TakesOneLevel written resolved (dropQualifiers written) (dropElaborations resolved) false

namespace TakesOneLevel

variable {written resolved declared canonical : String} {isOptional : Bool}

theorem isOptional_iff (takes : TakesOneLevel written resolved declared canonical isOptional) :
    isOptional = true ↔ (∃ argument, IsOptionalOf written argument) ∨ ∃ argument, IsOptionalOf resolved argument := by
  cases takes with
  | both isWritten _ => exact iff_of_true rfl (.inl ⟨_, isWritten⟩)
  | written isWritten _ => exact iff_of_true rfl (.inl ⟨_, isWritten⟩)
  | resolved _ isResolved => exact iff_of_true rfl (.inr ⟨_, isResolved⟩)
  | neither other further => simp [other, further]

/-- Balanced spellings are left. -/
theorem isBalanced (takes : TakesOneLevel written resolved declared canonical true) :
    IsBalanced declared.toList ∧ IsBalanced canonical.toList := by
  cases takes with
  | both isWritten isResolved => exact ⟨isWritten.isBalanced, isResolved.isBalanced⟩
  | written isWritten _ => exact ⟨isWritten.isBalanced, isWritten.isBalanced⟩
  | resolved _ isResolved => exact ⟨isResolved.isBalanced, isResolved.isBalanced⟩

end TakesOneLevel

/-- The types of a field, with the words in front left to the function that takes the argument out. -/
theorem classify_attributes (attributes : NodeAttributes) :
    classify attributes.writtenType attributes.desugaredType =
      match optionalArgument? attributes.spelling, optionalArgument? attributes.resolved with
      | some argument, inner => (argument, inner.getD argument, true)
      | none, some argument => (argument, argument, true)
      | none, none => (dropQualifiers attributes.spelling, dropElaborations attributes.resolved, false) := by
  have written := optionalArgument?_dropQualifiers attributes.spelling
  have desugared := optionalArgument?_dropElaborations attributes.resolved
  rw [NodeAttributes.resolved, NodeAttributes.spelling] at *
  unfold classify
  dsimp only
  cases first : optionalArgument? (attributes.writtenType.getD "") with
  | none =>
      cases second : optionalArgument? (attributes.desugaredType.getD (attributes.writtenType.getD "")) with
      | none => rw [written, desugared, first, second]
      | some argument => rw [written, desugared, first, second]
  | some argument => rw [written, desugared, first]

/-- One level is taken off just where neither spelling is that of a member of an optional. -/
theorem takesOneLevel_iff {attributes : NodeAttributes} {declared canonical : String} {isOptional : Bool}
    (classified : classify attributes.writtenType attributes.desugaredType = (declared, canonical, isOptional))
    (balanced : IsBalanced attributes.spelling.toList) (resolvedBalanced : IsBalanced attributes.resolved.toList) :
    TakesOneLevel attributes.spelling attributes.resolved declared canonical isOptional ↔
      ¬IsOptionalMember attributes.spelling ∧ ¬IsOptionalMember attributes.resolved := by
  rw [classify_attributes] at classified
  rcases optional_cases balanced with ⟨taken, noOptional, noMember⟩ | ⟨argument, taken, optional, noMember⟩ |
      ⟨argument, taken, noOptional, isMember, unbalanced⟩
  · rcases optional_cases resolvedBalanced with ⟨further, noFurther, noOther⟩ | ⟨other, further, isFurther, noOther⟩ |
      ⟨other, further, noFurther, isOther, otherUnbalanced⟩
    · rw [taken, further] at classified
      dsimp only at classified
      rcases Prod.mk.inj classified with ⟨rfl, others⟩
      rcases Prod.mk.inj others with ⟨rfl, rfl⟩
      exact iff_of_true (.neither noOptional noFurther) ⟨noMember, noOther⟩
    · rw [taken, further] at classified
      cases classified
      exact iff_of_true (.resolved noOptional isFurther) ⟨noMember, noOther⟩
    · rw [taken, further] at classified
      cases classified
      exact iff_of_false (fun takes => otherUnbalanced takes.isBalanced.2) fun none => none.2 isOther
  · rcases optional_cases resolvedBalanced with ⟨further, noFurther, noOther⟩ | ⟨other, further, isFurther, noOther⟩ |
      ⟨other, further, noFurther, isOther, otherUnbalanced⟩
    · rw [taken, further] at classified
      cases classified
      exact iff_of_true (.written optional noFurther) ⟨noMember, noOther⟩
    · rw [taken, further] at classified
      cases classified
      exact iff_of_true (.both optional isFurther) ⟨noMember, noOther⟩
    · rw [taken, further] at classified
      cases classified
      exact iff_of_false (fun takes => otherUnbalanced takes.isBalanced.2) fun none => none.2 isOther
  · rw [taken] at classified
    dsimp only at classified
    rcases Prod.mk.inj classified with ⟨rfl, others⟩
    rcases Prod.mk.inj others with ⟨rfl, rfl⟩
    exact iff_of_false (fun takes => unbalanced takes.isBalanced.1) fun none => none.1 isMember

end FieldType

open FieldType
open Json (Value)

/-- What becomes of the two spellings of a field, when they are balanced.  One level of an optional is taken off as
it should exactly when neither spelling is that of a member of an optional.  Then the field is optional just if
one of its spellings is that of an optional, and the types of an optional field are balanced spellings. -/
theorem optionals_unwrapped_iff (field : Declaration) (name : String)
    (balanced : IsBalanced field.attributes.spelling.toList)
    (resolvedBalanced : IsBalanced field.attributes.resolved.toList) :
    let written := field.attributes.spelling
    let resolved := field.attributes.resolved
    let leaf := RecordIndex.leafOf field name
    let takesOneLevel := TakesOneLevel written resolved leaf.declaredType leaf.canonicalType leaf.isOptional
    (takesOneLevel ↔ ¬IsOptionalMember written ∧ ¬IsOptionalMember resolved) ∧
    (takesOneLevel → (leaf.isOptional = true ↔
      (∃ argument, IsOptionalOf written argument) ∨ ∃ argument, IsOptionalOf resolved argument)) ∧
    (takesOneLevel → leaf.isOptional = true →
      IsBalanced leaf.declaredType.toList ∧ IsBalanced leaf.canonicalType.toList) := by
  intro written resolved leaf takesOneLevel
  refine ⟨?_, fun takes => takes.isOptional_iff, fun takes isOptional => ?_⟩
  · exact takesOneLevel_iff (RecordIndex.classify_leafOf field name) balanced resolvedBalanced
  · have taken : TakesOneLevel written resolved leaf.declaredType leaf.canonicalType true := isOptional ▸ takes
    exact taken.isBalanced

/-- An optional of an array, with a qualifier in front and another bracket next to its own. -/
theorem optionals_unwrapped_iff_array :
    let field := Declaration.ofValue (Dump.field "sides" "const std::optional<std::array<double, 3>>")
    let leaf := RecordIndex.leafOf field "sides"
    IsBalanced field.attributes.spelling.toList ∧ IsBalanced field.attributes.resolved.toList ∧
      leaf.isOptional = true ∧ IsBalanced leaf.declaredType.toList ∧ IsBalanced leaf.canonicalType.toList := by
  intro field leaf
  have balanced : IsBalanced field.attributes.spelling.toList := by decide
  have inner : HasInner field.attributes.spelling "std::array<double, 3>".toList :=
    ⟨"std::optional<", by decide, by decide +kernel⟩
  have noMember : ¬IsOptionalMember field.attributes.spelling := by
    rintro ⟨argument, rest, has, inside⟩
    have whole : IsBalanced "std::array<double, 3>".toList := by decide
    rw [inner.unique has, IsBalanced, openedAfter_eq_none_iff.mpr ⟨argument, rest, rfl, inside⟩] at whole
    cases whole
  rcases optionals_unwrapped_iff field "sides" balanced balanced with ⟨takes_iff, isOptional_iff, kept⟩
  have takes := takes_iff.mpr ⟨noMember, noMember⟩
  have isOptional := (isOptional_iff takes).mpr (.inl ⟨_, _, inner, by decide, rfl⟩)
  exact ⟨balanced, balanced, isOptional, kept takes isOptional⟩

/-- A struct with a field whose type is a member of an optional. -/
def Dump.rebound : Value :=
  Dump.node "TranslationUnitDecl" [] [Dump.struct "Holder" [Dump.field "value" "optional<A>::rebind<B>"]]

def Record.rebound : Record where
  namespaces := []
  name := "Holder"
  origin := .source
  tree := .ofOutline "Holder" "" (.leaf ⟨"value", "A>::rebind<B", "A>::rebind<B", true, false, ""⟩ .nil)

/-- The last bracket is that of another template, and the field is an optional one with no type left. -/
theorem rebound_unwrapped :
    (RecordSource.declarations ⟨.ofValue Dump.rebound, none⟩).findRecords "*" = .ok [.rebound] ∧
    IsBalanced "optional<A>::rebind<B>".toList ∧
    (∀ argument, ¬IsOptionalOf "optional<A>::rebind<B>" argument) ∧
    IsOptionalMember "optional<A>::rebind<B>" ∧
    ¬IsBalanced "A>::rebind<B".toList := by
  have inner : HasInner "optional<A>::rebind<B>" "A>::rebind<B".toList :=
    ⟨"optional<", by decide, by decide +kernel⟩
  refine ⟨by decide +kernel, by decide, ?_, ⟨"A".toList, "::rebind<B".toList, inner, by decide⟩, by decide⟩
  rintro argument ⟨other, has, balanced, _⟩
  rw [has.unique inner] at balanced
  exact absurd balanced (by decide)

end KeyedReflection
