import KeyedReflection.Proofs.Text.Pieces
import Mathlib.Data.List.Forall2
import Mathlib.Data.List.TakeWhile

/-!
# Cutting and trimming

A text is cut at the first occurrence of a mark, and it cannot be cut exactly when the mark is not inside.  White
space at the ends of a text is taken off; what is left begins and ends with something else, and a text that does
so already stays as it is.

The lines of a text are its pieces between line feeds, but for carriage returns and an empty piece at the end
(`splitOn_lines`).  So a reader of lines that does not look at white space at their ends may as well read the
pieces.
-/

namespace KeyedReflection
namespace Text.Characters

/-! ## Cutting at a mark -/

theorem eq_append_of_cut {mark cs before rest : List Char} (found : cut mark cs = some (before, rest)) :
    cs = before ++ mark ++ rest := by
  induction cs generalizing before with
  | nil =>
      rw [cut] at found
      split at found
      · rename_i empty
        cases found
        rw [empty]
        rfl
      · cases found
  | cons c cs ih =>
      rw [cut] at found
      split at found
      · rename_i behind dropped
        cases found
        exact eq_append_of_dropMark dropped
      · rcases Option.map_eq_some_iff.mp found with ⟨⟨front, behind⟩, later, same⟩
        cases same
        rw [ih later]
        rfl

/-- A text is cut behind what does not contain the first character of the mark. -/
theorem cut_append {m : Char} {before : List Char} (free : m ∉ before) (mark rest : List Char) :
    cut (m :: mark) (before ++ m :: mark ++ rest) = some (before, rest) := by
  induction before with
  | nil =>
      have dropped : dropMark (m :: mark) (m :: (mark ++ rest)) = some rest := dropMark_append (m :: mark) rest
      change cut (m :: mark) (m :: (mark ++ rest)) = some ([], rest)
      rw [cut, dropped]
  | cons c before ih =>
      have different : m ≠ c := fun same => free (same ▸ List.mem_cons_self)
      have further := ih fun inside => free (List.mem_cons_of_mem c inside)
      change cut (m :: mark) (c :: (before ++ m :: mark ++ rest)) = some (c :: before, rest)
      rw [cut, dropMark, if_neg different, further]
      rfl

/-- A mark is found exactly in texts that have it inside. -/
theorem contains_iff {mark cs : List Char} : contains mark cs = true ↔ mark <:+: cs := by
  constructor
  · intro found
    rw [contains, Option.isSome_iff_exists] at found
    rcases found with ⟨⟨before, rest⟩, found⟩
    exact ⟨before, rest, (eq_append_of_cut found).symm⟩
  · exact contains_of_infix

theorem cut_eq_none_iff {mark cs : List Char} : cut mark cs = none ↔ ¬mark <:+: cs := by
  rw [← contains_iff, contains, Option.isSome_iff_ne_none, not_not]

theorem dropEndMark_eq_some_iff {mark cs front : List Char} :
    dropEndMark mark cs = some front ↔ cs = front ++ mark := by
  rw [dropEndMark, Option.map_eq_some_iff]
  constructor
  · rintro ⟨reversed, dropped, rfl⟩
    rw [← List.reverse_inj, eq_append_of_dropMark dropped]
    simp
  · rintro rfl
    exact ⟨front.reverse, by rw [List.reverse_append, dropMark_append], List.reverse_reverse front⟩

/-! ## White space at the ends -/

/-- A text that neither begins nor ends with white space. -/
structure IsTrimmed (cs : List Char) : Prop where
  head : ∀ c ∈ cs.head?, isBlank c = false
  last : ∀ c ∈ cs.getLast?, isBlank c = false

/-- What is taken off in front is white space. -/
theorem exists_trimStart (cs : List Char) :
    ∃ front, (∀ c ∈ front, isBlank c = true) ∧ cs = front ++ trimStart cs :=
  ⟨cs.takeWhile isBlank, List.all_eq_true.mp List.all_takeWhile, List.takeWhile_append_dropWhile.symm⟩

/-- What is taken off at the end is white space. -/
theorem exists_trimEnd (cs : List Char) :
    ∃ back, (∀ c ∈ back, isBlank c = true) ∧ cs = trimEnd cs ++ back := by
  rcases exists_trimStart cs.reverse with ⟨front, blank, split⟩
  refine ⟨front.reverse, fun c inside => blank c (List.mem_reverse.mp inside), ?_⟩
  rw [← List.reverse_inj, split, trimEnd, List.reverse_append, List.reverse_reverse, List.reverse_reverse,
    trimStart]

/-- What is not in a trimmed text is white space. -/
theorem mem_trim_or_isBlank {cs : List Char} {c : Char} (inside : c ∈ cs) :
    c ∈ trim cs ∨ isBlank c = true := by
  rcases exists_trimStart cs with ⟨front, frontBlank, split⟩
  rcases exists_trimEnd (trimStart cs) with ⟨back, backBlank, further⟩
  rw [split, further] at inside
  rcases List.mem_append.mp inside with blank | later
  · exact .inr (frontBlank c blank)
  · rcases List.mem_append.mp later with kept | blank
    · exact .inl kept
    · exact .inr (backBlank c blank)

theorem trimStart_of_dark {cs : List Char} (dark : ∀ c ∈ cs.head?, isBlank c = false) : trimStart cs = cs := by
  cases cs with
  | nil => rfl
  | cons c cs => exact List.dropWhile_cons_of_neg (by simp [dark c rfl])

theorem trimEnd_of_dark {cs : List Char} (dark : ∀ c ∈ cs.getLast?, isBlank c = false) : trimEnd cs = cs := by
  have reversed : trimStart cs.reverse = cs.reverse := by
    apply trimStart_of_dark
    rwa [List.head?_reverse]
  rw [trimEnd, ← trimStart, reversed, List.reverse_reverse]

theorem head?_trimStart {cs : List Char} : ∀ c ∈ (trimStart cs).head?, isBlank c = false := by
  intro c first
  have notBlank := List.head?_dropWhile_not isBlank cs
  rw [trimStart] at first
  rw [first] at notBlank
  exact notBlank

theorem getLast?_trimEnd {cs : List Char} : ∀ c ∈ (trimEnd cs).getLast?, isBlank c = false := by
  rw [trimEnd, List.getLast?_reverse]
  exact head?_trimStart

theorem isTrimmed_trim (cs : List Char) : IsTrimmed (trim cs) where
  head := by
    rcases exists_trimEnd (trimStart cs) with ⟨back, _, split⟩
    intro c first
    have further : c ∈ (trimStart cs).head? := by
      rw [split, List.head?_append]
      rw [trim] at first
      rw [first]
      rfl
    exact head?_trimStart c further
  last := getLast?_trimEnd

theorem IsTrimmed.trim_eq {cs : List Char} (trimmed : IsTrimmed cs) : trim cs = cs := by
  rw [trim, trimStart_of_dark trimmed.head, trimEnd_of_dark trimmed.last]

theorem trimEnd_append_blank (cs : List Char) {c : Char} (blank : isBlank c = true) :
    trimEnd (cs ++ [c]) = trimEnd cs := by
  rw [trimEnd, List.reverse_concat, List.dropWhile_cons_of_pos blank, trimEnd]

theorem trimEnd_append {back : List Char} (filled : trimEnd back ≠ []) (front : List Char) :
    trimEnd (front ++ back) = front ++ trimEnd back := by
  rw [trimEnd, ne_eq, List.reverse_eq_nil_iff] at filled
  rw [trimEnd, List.reverse_append, List.dropWhile_append, if_neg (by simpa using filled),
    List.reverse_append, List.reverse_reverse, trimEnd]

theorem trimEnd_ne_nil {cs : List Char} (filled : trim cs ≠ []) : trimEnd cs ≠ [] := by
  intro empty
  rw [trimEnd, List.reverse_eq_nil_iff, List.dropWhile_eq_nil_iff] at empty
  apply filled
  rw [trim, trimEnd, List.reverse_eq_nil_iff, List.dropWhile_eq_nil_iff]
  intro c inside
  apply empty c
  rw [List.mem_reverse] at inside ⊢
  exact (List.dropWhile_sublist isBlank).subset inside

/-! ## Lines and pieces -/

/-- The lines of a text are its pieces between line feeds, up to carriage returns at their ends and to an
empty last piece. -/
theorem splitOn_lines (cs : List Char) : ∃ last, (last = [] ∨ last = [[]]) ∧
    List.Forall₂ (fun piece line => piece = line ∨ piece = line ++ ['\r'])
      (splitOn '\n' cs) (lines cs ++ last) := by
  fun_induction lines cs with
  | case1 => exact ⟨[[]], .inr rfl, .cons (.inl rfl) .nil⟩
  | case2 cs ih =>
      rcases ih with ⟨last, isLast, paired⟩
      rw [splitOn, if_pos rfl]
      exact ⟨last, isLast, .cons (.inl rfl) paired⟩
  | case3 cs ih =>
      rcases ih with ⟨last, isLast, paired⟩
      rw [splitOn, if_neg (by decide), splitOn, if_pos rfl]
      exact ⟨last, isLast, .cons (.inr rfl) paired⟩
  | case4 c cs notFeed _ empty _ =>
      have none : cs = [] := Classical.byContradiction fun nonempty => lines_ne_nil nonempty empty
      subst none
      rw [splitOn, if_neg notFeed]
      exact ⟨[], .inl rfl, .cons (.inl rfl) .nil⟩
  | case5 c cs notFeed _ line rest split ih =>
      rcases ih with ⟨last, isLast, paired⟩
      rw [split] at paired
      rw [splitOn, if_neg notFeed]
      refine ⟨last, isLast, ?_⟩
      cases pieces : splitOn '\n' cs with
      | nil =>
          rw [pieces] at paired
          cases paired
      | cons piece others =>
          rw [pieces] at paired
          cases paired with
          | cons first further => exact .cons (first.imp (congrArg (c :: ·)) (congrArg (c :: ·))) further

end Text.Characters

namespace Text

/-- A text without the mark is a piece of its own. -/
theorem splitOn_of_free {mark : Char} {s : String} (free : mark ∉ s.toList) : splitOn mark s = [s] := by
  have joined := splitOn_join mark (List.cons_ne_nil s []) (List.forall_mem_singleton.mpr free)
  rwa [join, String.intercalate_singleton] at joined

theorem dropMark_eq_some_iff {mark s rest : String} :
    dropMark mark s = some rest ↔ s.toList = mark.toList ++ rest.toList := by
  rw [dropMark, Option.map_eq_some_iff]
  constructor
  · rintro ⟨characters, dropped, rfl⟩
    rw [Characters.eq_append_of_dropMark dropped, String.toList_ofList]
  · intro split
    exact ⟨rest.toList, by rw [split, Characters.dropMark_append], String.ofList_toList⟩

theorem dropEndMark_eq_some_iff {mark s front : String} :
    dropEndMark mark s = some front ↔ s.toList = front.toList ++ mark.toList := by
  rw [dropEndMark, Option.map_eq_some_iff]
  constructor
  · rintro ⟨characters, dropped, rfl⟩
    rw [Characters.dropEndMark_eq_some_iff.mp dropped, String.toList_ofList]
  · intro split
    exact ⟨front.toList, Characters.dropEndMark_eq_some_iff.mpr split, String.ofList_toList⟩

end Text
end KeyedReflection
