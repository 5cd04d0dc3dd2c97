import KeyedReflection.Proofs.Declaration.Lawful
import KeyedReflection.Proofs.Text.Cutting

/-!
# Documentation of lawful declarations

The documentation of a declaration is put together from pieces of a comment, and each of the pieces is
within one line.  Taking off the indentation also takes off white space at the end, a carriage return
among it, and empty lines at either end are left out.  What remains is a text that is the same after it
was cut into lines (`keepsLines_ofDeclaration`).
-/

namespace KeyedReflection
namespace Documentation

open Text (KeepsLines)
open Text.Characters (trimEnd dropMark)

/-! ## Collecting -/

/-- All lines in a list are free of line feeds. -/
def SingleLines (lines : List String) : Prop :=
  ∀ line ∈ lines, '\n' ∉ line.toList

theorem SingleLines.append {lines more : List String} (single : SingleLines lines)
    (further : SingleLines more) : SingleLines (lines ++ more) :=
  List.forall_mem_append.mpr ⟨single, further⟩

theorem singleLines_collectAll {parts : List Declaration} {lines : List String}
    (each : ∀ part ∈ parts, ∀ lines, SingleLines lines → SingleLines (collect lines part))
    (single : SingleLines lines) : SingleLines (collectAll lines parts) := by
  induction parts generalizing lines with
  | nil => exact single
  | cons part rest ih =>
      rcases List.forall_mem_cons.mp each with ⟨first, others⟩
      rw [collectAll]
      exact ih others (first lines single)

/-- Nothing but the pieces of a comment is collected, and empty lines. -/
theorem singleLines_collect {comment : Declaration} (lawful : comment.IsLawfulThroughout)
    {lines : List String} (single : SingleLines lines) : SingleLines (collect lines comment) := by
  induction comment using Declaration.induction generalizing lines with
  | node attributes children ih =>
      have each : ∀ part ∈ children, ∀ lines, SingleLines lines →
          SingleLines (collect lines part) := by
        intro part listed lines before
        have isPart : part ∈ (Declaration.node attributes children).parts :=
          Declaration.mem_parts_of_child listed part.mem_parts_self
        exact ih part listed (lawful.of_mem_parts isPart) before
      rw [collect]
      split
      · rename_i kind
        apply single.append
        intro text given
        exact (lawful _ (Declaration.mem_parts_self _)).commentText kind text
          (Option.mem_toList.mp given)
      · apply singleLines_collectAll each
        split
        · exact single.append (by simp [SingleLines])
        · exact single
      · exact singleLines_collectAll each single

/-! ## Taking off the indentation -/

theorem dropMark_suffix {mark cs rest : List Char} (marked : dropMark mark cs = some rest) :
    rest <:+ cs := by
  rw [Text.Characters.eq_append_of_dropMark marked]
  exact List.suffix_append mark rest

theorem trimEnd_sublist (cs : List Char) : (trimEnd cs).Sublist cs := by
  have inside := (List.dropWhile_sublist (l := cs.reverse) Text.isBlank).reverse
  rwa [List.reverse_reverse] at inside

theorem dedentLine_sublist (indent : Nat) (line : List Char) :
    (dedentLine indent line).Sublist line := by
  have marked : ∀ rest : List Char, ((dropMark [' '] rest).getD rest).Sublist rest := by
    intro rest
    cases dropped : dropMark [' '] rest with
    | none => exact List.Sublist.refl rest
    | some behind => exact (dropMark_suffix dropped).sublist
  rw [dedentLine]
  refine (trimEnd_sublist _).trans ((marked _).trans ?_)
  split
  · exact List.drop_sublist indent line
  · exact List.Sublist.refl line

theorem getLast?_dedentLine (indent : Nat) (line : List Char) :
    (dedentLine indent line).getLast? ≠ some '\r' := by
  intro last
  exact absurd (Text.Characters.getLast?_trimEnd _ last) (by decide)

/-- The lines of a comment without their indentation, before empty lines are left out. -/
def dedentedLines (lines : List String) (indent : Nat) : List (List Char) :=
  match lines with
  | [] => []
  | first :: rest =>
    dedentLine 0 first.toList :: rest.map fun line => dedentLine indent line.toList

/-- A line without its indentation comes from a line. -/
theorem mem_dedentedLines {lines : List String} {indent : Nat} {line : List Char}
    (listed : line ∈ dedentedLines lines indent) :
    ∃ original ∈ lines, ∃ depth, line = dedentLine depth original.toList := by
  cases lines with
  | nil => cases listed
  | cons first rest =>
      rcases List.mem_cons.mp listed with rfl | later
      · exact ⟨first, List.mem_cons_self, 0, rfl⟩
      · rcases List.mem_map.mp later with ⟨original, inside, rfl⟩
        exact ⟨original, List.mem_cons_of_mem first inside, indent, rfl⟩

/-- The lines between the first and the last that are not empty. -/
def innerLines (lines : List (List Char)) : List (List Char) :=
  ((lines.dropWhile List.isEmpty).reverse.dropWhile List.isEmpty).reverse

theorem innerLines_subset (lines : List (List Char)) : innerLines lines ⊆ lines := by
  intro line listed
  have inside := (List.dropWhile_sublist _).subset (List.mem_reverse.mp listed)
  exact (List.dropWhile_sublist _).subset (List.mem_reverse.mp inside)

theorem getLast?_innerLines (lines : List (List Char)) : (innerLines lines).getLast? ≠ some [] := by
  intro last
  rw [innerLines, List.getLast?_reverse] at last
  have notEmpty := List.head?_dropWhile_not List.isEmpty (lines.dropWhile List.isEmpty).reverse
  rw [last] at notEmpty
  cases notEmpty

/-- Lines without line feeds make a text that keeps its lines. -/
theorem keepsLines_dedent {lines : List String} (single : SingleLines lines) (indent : Nat) :
    KeepsLines (dedent lines indent) := by
  have joined : dedent lines indent =
      Text.join "\n" ((innerLines (dedentedLines lines indent)).map .ofList) := by
    cases lines <;> rfl
  rw [joined]
  apply Text.keepsLines_join
  · intro line listed inside
    rcases mem_dedentedLines (innerLines_subset _ listed) with ⟨original, given, depth, rfl⟩
    exact single original given ((dedentLine_sublist depth original.toList).subset inside)
  · intro line listed
    rcases mem_dedentedLines (innerLines_subset _ listed) with ⟨original, given, depth, rfl⟩
    exact getLast?_dedentLine depth original.toList
  · exact getLast?_innerLines _

/-- The documentation of a lawful declaration is the same after it was cut into lines. -/
theorem keepsLines_ofDeclaration {declaration : Declaration}
    (lawful : declaration.IsLawfulThroughout) (column : Nat) :
    KeepsLines (ofDeclaration declaration column) := by
  have nothing : SingleLines [] := by
    intro line listed
    cases listed
  rw [ofDeclaration]
  split
  · exact Text.Characters.keepsLines_nil
  · rename_i comment found
    have isPart := Declaration.mem_parts_of_child (List.mem_of_find?_eq_some found)
      comment.mem_parts_self
    exact keepsLines_dedent (singleLines_collect (lawful.of_mem_parts isPart) nothing) (column - 1)

end Documentation
end KeyedReflection
