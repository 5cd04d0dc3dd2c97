import KeyedReflection.Text.Basic

/-!
# Joining and cutting are inverse

Dotted ids and qualified names are joined from pieces and cut into pieces again.  Cutting gives the
pieces back as long as none of them contains the mark, so that a joined text determines its pieces.
For dotted ids the pieces are plain names; for qualified names they are free of colons, which is more
than is needed to keep double colons apart but all that a name of the language can offer.  Of any other
separator it is enough that one of its characters is in none of the pieces (`join_injective`).

Documentation is cut into lines and joined by line feeds.  Here nothing is assumed of the text, and
`rejoinLines_eq_self` says exactly which texts survive.
-/

namespace KeyedReflection
namespace Text

/-- A name that can be a piece of a dotted id. -/
def IsPlainName (name : String) : Prop :=
  name ≠ "" ∧ '.' ∉ name.toList

instance (name : String) : Decidable (IsPlainName name) :=
  inferInstanceAs (Decidable (_ ∧ _))

/-! ## Pieces between single characters -/

theorem Characters.splitOn_eq (mark : Char) (cs : List Char) :
    Characters.splitOn mark cs = cs.splitOn mark := by
  induction cs with
  | nil => rw [Characters.splitOn, List.splitOn_nil]
  | cons c cs ih =>
      rw [Characters.splitOn, ih, List.splitOn_cons_eq_if_modifyHead]
      by_cases same : c = mark
      · rw [if_pos same, if_pos (beq_iff_eq.mpr same)]
      · rw [if_neg same, if_neg (fun equal => same (beq_iff_eq.mp equal))]
        cases pieces : cs.splitOn mark with
        | nil => exact absurd pieces (List.splitOn_ne_nil mark cs)
        | cons piece rest => rfl

/-- Cutting a joined text gives its pieces back. -/
theorem splitOn_join (mark : Char) {pieces : List String} (nonempty : pieces ≠ [])
    (free : ∀ piece ∈ pieces, mark ∉ piece.toList) :
    splitOn mark (join (String.singleton mark) pieces) = pieces := by
  have freeLists : ∀ piece ∈ pieces.map String.toList, mark ∉ piece := by
    intro piece member
    rcases List.mem_map.mp member with ⟨original, inside, rfl⟩
    exact free original inside
  have cutLists : ([mark].intercalate (pieces.map String.toList)).splitOn mark =
      pieces.map String.toList :=
    List.splitOn_intercalate mark freeLists (by simpa using nonempty)
  rw [splitOn, join, String.toList_intercalate, String.toList_singleton, Characters.splitOn_eq,
    cutLists, List.map_map]
  simp [Function.comp_def]

/-- Joining the pieces of a text gives the text back. -/
theorem join_splitOn (mark : Char) (text : String) :
    join (String.singleton mark) (splitOn mark text) = text := by
  have characters : (join (String.singleton mark) (splitOn mark text)).toList =
      [mark].intercalate (text.toList.splitOn mark) := by
    simp [join, splitOn, Characters.splitOn_eq, Function.comp_def]
  rw [← String.toList_inj, characters, List.intercalate_splitOn]

theorem Characters.not_mem_of_mem_splitOn {mark : Char} {cs piece : List Char}
    (listed : piece ∈ Characters.splitOn mark cs) : mark ∉ piece := by
  fun_induction Characters.splitOn mark cs generalizing piece with
  | case1 =>
      rw [List.mem_singleton.mp listed]
      exact List.not_mem_nil
  | case2 cs ih =>
      rcases List.mem_cons.mp listed with rfl | later
      · exact List.not_mem_nil
      · exact ih later
  | case3 c cs different empty ih =>
      rw [List.mem_singleton.mp listed]
      exact fun inside => different (List.mem_singleton.mp inside).symm
  | case4 c cs different first rest split ih =>
      rw [split] at ih
      rcases List.mem_cons.mp listed with rfl | later
      · intro inside
        rcases List.mem_cons.mp inside with same | further
        · exact different same.symm
        · exact ih List.mem_cons_self further
      · exact ih (List.mem_cons_of_mem _ later)

/-- The mark is in none of the pieces. -/
theorem not_mem_of_mem_splitOn {mark : Char} {text piece : String}
    (listed : piece ∈ splitOn mark text) : mark ∉ piece.toList := by
  rcases List.mem_map.mp listed with ⟨characters, inside, rfl⟩
  rw [String.toList_ofList]
  exact Characters.not_mem_of_mem_splitOn inside

/-- A dotted id is cut into the names it was joined from. -/
theorem splitOn_join_dot {names : List String} (nonempty : names ≠ [])
    (plain : ∀ name ∈ names, IsPlainName name) : splitOn '.' (join "." names) = names :=
  splitOn_join '.' nonempty fun name member => (plain name member).2

/-- A text joined from pieces that are not empty is not empty. -/
theorem join_ne_empty_of_pieces (separator : String) {pieces : List String} (some : pieces ≠ [])
    (nonempty : ∀ piece ∈ pieces, piece ≠ "") : join separator pieces ≠ "" := by
  rcases List.exists_cons_of_ne_nil some with ⟨first, rest, rfl⟩
  have begins := nonempty first List.mem_cons_self
  intro empty
  by_cases alone : rest = []
  · subst alone
    rw [join, String.intercalate_singleton] at empty
    exact begins empty
  · rw [join, String.intercalate_cons_of_ne_nil alone, String.append_eq_empty_iff,
      String.append_eq_empty_iff] at empty
    exact begins empty.1.1

/-- A text joined from a name and more is not empty. -/
theorem join_ne_empty {names : List String} (nonempty : names ≠ [])
    (plain : ∀ name ∈ names, IsPlainName name) : join "." names ≠ "" :=
  join_ne_empty_of_pieces "." nonempty fun name listed => (plain name listed).1

/-- A dotted id determines its names. -/
theorem join_dot_injective {left right : List String}
    (leftPlain : ∀ name ∈ left, IsPlainName name) (rightPlain : ∀ name ∈ right, IsPlainName name)
    (same : join "." left = join "." right) : left = right := by
  by_cases leftEmpty : left = []
  · subst leftEmpty
    by_cases rightEmpty : right = []
    · exact rightEmpty.symm
    · exact absurd same.symm (join_ne_empty rightEmpty rightPlain)
  · by_cases rightEmpty : right = []
    · subst rightEmpty
      exact absurd same (join_ne_empty leftEmpty leftPlain)
    · rw [← splitOn_join_dot leftEmpty leftPlain, same, splitOn_join_dot rightEmpty rightPlain]

/-- What is put behind joined pieces is joined with them. -/
theorem joinAfter_join_of_pieces (separator : String) {pieces : List String}
    (nonempty : ∀ piece ∈ pieces, piece ≠ "") (next : String) :
    joinAfter separator (join separator pieces) next = join separator (pieces ++ [next]) := by
  by_cases none : pieces = []
  · subst none
    simp [joinAfter, join]
  · rw [joinAfter, if_neg (join_ne_empty_of_pieces separator none nonempty), join, join,
      String.intercalate_append_of_ne_nil none (by simp), String.intercalate_singleton]

/-- Going down one level joins one more name. -/
theorem joinAfter_join {above : List String} (plain : ∀ name ∈ above, IsPlainName name)
    (name : String) : joinAfter "." (join "." above) name = join "." (above ++ [name]) :=
  joinAfter_join_of_pieces "." (fun name listed => (plain name listed).1) name

/-! ## Pieces between separators of any length -/

namespace Characters

/-- The first place of a mark divides a text in one way only. -/
theorem append_mark_injective {mark : Char} {left right leftRest rightRest : List Char}
    (leftFree : mark ∉ left) (rightFree : mark ∉ right)
    (same : left ++ mark :: leftRest = right ++ mark :: rightRest) :
    left = right ∧ leftRest = rightRest := by
  rcases List.append_eq_append_iff.mp same with ⟨more, rfl, remaining⟩ | ⟨more, rfl, remaining⟩
  · cases more with
    | nil => exact ⟨(List.append_nil _).symm, (List.cons.inj remaining).2⟩
    | cons c more =>
        rw [(List.cons.inj remaining).1] at rightFree
        exact absurd (List.mem_append_right _ List.mem_cons_self) rightFree
  · cases more with
    | nil => exact ⟨List.append_nil _, (List.cons.inj remaining).2.symm⟩
    | cons c more =>
        rw [(List.cons.inj remaining).1] at leftFree
        exact absurd (List.mem_append_right _ List.mem_cons_self) leftFree

/-- Two joined texts of which one has a single piece differ, since only the other has the mark. -/
private theorem intercalate_singleton_ne {mark : Char} {separator : List Char}
    (marked : mark ∈ separator) {piece other : List Char} {rest : List (List Char)}
    (further : rest ≠ []) (free : mark ∉ piece) :
    separator.intercalate [piece] ≠ separator.intercalate (other :: rest) := by
  intro equal
  rw [List.intercalate_singleton, List.intercalate_cons_of_ne_nil further] at equal
  apply free
  rw [equal, List.append_assoc]
  exact List.mem_append_right _ (List.mem_append_left _ marked)

/-- Joined pieces can be told apart again when the separator has a character that none of them has. -/
theorem intercalate_injective {mark : Char} {separator : List Char}
    (marked : mark ∈ separator) {left right : List (List Char)} (leftSome : left ≠ [])
    (rightSome : right ≠ []) (leftFree : ∀ piece ∈ left, mark ∉ piece)
    (rightFree : ∀ piece ∈ right, mark ∉ piece)
    (same : separator.intercalate left = separator.intercalate right) : left = right := by
  rcases List.eq_append_cons_of_mem marked with ⟨front, back, split, fresh⟩
  -- The first mark of a joined text is the first one of its first separator.
  have unfolded : ∀ (piece : List Char) (rest : List (List Char)), rest ≠ [] →
      separator.intercalate (piece :: rest) =
        (piece ++ front) ++ mark :: (back ++ separator.intercalate rest) := by
    intro piece rest further
    rw [List.intercalate_cons_of_ne_nil further, split]
    simp only [List.append_assoc, List.cons_append]
  have before : ∀ piece : List Char, mark ∉ piece → mark ∉ piece ++ front := by
    intro piece free inside
    rcases List.mem_append.mp inside with own | separated
    · exact free own
    · exact fresh separated
  induction left generalizing right with
  | nil => exact absurd rfl leftSome
  | cons piece rest ih =>
      rcases List.exists_cons_of_ne_nil rightSome with ⟨other, others, rfl⟩
      rcases List.forall_mem_cons.mp leftFree with ⟨pieceFree, restFree⟩
      rcases List.forall_mem_cons.mp rightFree with ⟨otherFree, othersFree⟩
      by_cases last : rest = []
      · subst last
        by_cases otherLast : others = []
        · subst otherLast
          rw [List.intercalate_singleton, List.intercalate_singleton] at same
          rw [same]
        · exact absurd same (intercalate_singleton_ne marked otherLast pieceFree)
      · by_cases otherLast : others = []
        · subst otherLast
          exact absurd same.symm (intercalate_singleton_ne marked last otherFree)
        · rw [unfolded piece rest last, unfolded other others otherLast] at same
          rcases append_mark_injective (before piece pieceFree) (before other otherFree) same with
            ⟨first, remaining⟩
          rw [List.append_cancel_right first,
            ih last otherLast restFree othersFree (List.append_cancel_left remaining)]

end Characters

/-- A text joined by a separator determines its pieces when a character of the separator is in none of
them. -/
theorem join_injective {mark : Char} {separator : String} (marked : mark ∈ separator.toList)
    {left right : List String} (leftSome : left ≠ []) (rightSome : right ≠ [])
    (leftFree : ∀ piece ∈ left, mark ∉ piece.toList)
    (rightFree : ∀ piece ∈ right, mark ∉ piece.toList)
    (same : join separator left = join separator right) : left = right := by
  have characters : separator.toList.intercalate (left.map String.toList) =
      separator.toList.intercalate (right.map String.toList) := by
    rw [← String.toList_intercalate, ← String.toList_intercalate]
    exact congrArg String.toList same
  have onLists := Characters.intercalate_injective marked (mt List.map_eq_nil_iff.mp leftSome)
    (mt List.map_eq_nil_iff.mp rightSome) (List.forall_mem_map.mpr leftFree)
    (List.forall_mem_map.mpr rightFree) characters
  exact (List.map_inj_right fun _ _ => String.toList_inj.mp).mp onLists

/-! ## Pieces between double colons -/

theorem Characters.splitScopes_append {piece : List Char} (free : ':' ∉ piece) (rest : List Char) :
    Characters.splitScopes (piece ++ ':' :: ':' :: rest) = piece :: Characters.splitScopes rest := by
  induction piece with
  | nil => rw [List.nil_append, Characters.splitScopes]
  | cons c cs ih =>
      have different : c ≠ ':' := fun same => free (same ▸ List.mem_cons_self)
      have tail := ih fun member => free (List.mem_cons_of_mem c member)
      rw [List.cons_append, Characters.splitScopes, tail]
      rintro _ rfl _
      exact different rfl

theorem Characters.splitScopes_of_free {piece : List Char} (free : ':' ∉ piece) :
    Characters.splitScopes piece = [piece] := by
  induction piece with
  | nil => rw [Characters.splitScopes]
  | cons c cs ih =>
      have different : c ≠ ':' := fun same => free (same ▸ List.mem_cons_self)
      have tail := ih fun member => free (List.mem_cons_of_mem c member)
      rw [Characters.splitScopes, tail]
      rintro _ rfl _
      exact different rfl

theorem Characters.splitScopes_ne_nil (cs : List Char) : Characters.splitScopes cs ≠ [] := by
  fun_cases Characters.splitScopes cs <;> exact List.cons_ne_nil _ _

theorem splitScopes_ne_nil (text : String) : splitScopes text ≠ [] :=
  mt List.map_eq_nil_iff.mp (Characters.splitScopes_ne_nil text.toList)

theorem Characters.intercalate_splitScopes (cs : List Char) :
    [':', ':'].intercalate (Characters.splitScopes cs) = cs := by
  fun_induction Characters.splitScopes cs with
  | case1 => rfl
  | case2 cs ih =>
      rw [List.intercalate_cons_of_ne_nil (Characters.splitScopes_ne_nil cs), ih]
      rfl
  | case3 c cs _ none ih => exact absurd none (Characters.splitScopes_ne_nil cs)
  | case4 c cs _ piece rest split ih =>
      rw [split] at ih
      rw [List.intercalate_cons_cons_left, ih]

/-- Joining the names of a qualified name gives it back. -/
theorem join_splitScopes (text : String) : join "::" (splitScopes text) = text := by
  have characters : (join "::" (splitScopes text)).toList =
      [':', ':'].intercalate (Characters.splitScopes text.toList) := by
    simp [join, splitScopes, Function.comp_def]
  rw [← String.toList_inj, characters, Characters.intercalate_splitScopes]

theorem Characters.eq_append_of_dropMark {mark cs rest : List Char}
    (dropped : Characters.dropMark mark cs = some rest) : cs = mark ++ rest := by
  fun_induction Characters.dropMark mark cs with
  | case1 cs => exact Option.some.inj dropped
  | case2 => cases dropped
  | case3 c mark cs ih => rw [List.cons_append, ← ih dropped]
  | case4 => cases dropped

theorem Characters.dropMark_append (mark rest : List Char) :
    Characters.dropMark mark (mark ++ rest) = some rest := by
  induction mark with
  | nil => rfl
  | cons m mark ih => rw [List.cons_append, Characters.dropMark, if_pos rfl, ih]

/-- What occurs in a text is found there. -/
theorem Characters.contains_of_infix {mark cs : List Char} (inside : mark <:+: cs) :
    Characters.contains mark cs = true := by
  rcases inside with ⟨before, after, rfl⟩
  rw [List.append_assoc]
  induction before with
  | nil =>
      rw [List.nil_append, Characters.contains]
      have begins := Characters.dropMark_append mark after
      cases whole : mark ++ after with
      | nil =>
          rw [Characters.cut, if_pos (List.append_eq_nil_iff.mp whole).1]
          rfl
      | cons c cs =>
          rw [whole] at begins
          rw [Characters.cut, begins]
          rfl
  | cons c before ih =>
      rw [Characters.contains] at ih ⊢
      rw [List.cons_append, Characters.cut]
      split
      · rfl
      · rw [Option.isSome_map]
        exact ih

/-- The last name of a qualified name is its end. -/
theorem Characters.suffix_of_getLast?_splitScopes {cs piece : List Char}
    (last : (Characters.splitScopes cs).getLast? = some piece) : piece <:+ cs := by
  rcases List.getLast?_eq_some_iff.mp last with ⟨front, pieces⟩
  have joined := Characters.intercalate_splitScopes cs
  rw [pieces] at joined
  rw [← joined]
  clear pieces joined last
  induction front with
  | nil =>
      refine ⟨[], ?_⟩
      rw [List.nil_append, List.nil_append, List.intercalate_singleton]
  | cons first front ih =>
      rw [List.cons_append, List.intercalate_cons_of_ne_nil (List.append_ne_nil_of_right_ne_nil _
        (List.cons_ne_nil _ _))]
      exact ih.trans (List.suffix_append _ _)

/-- In front of a double colon that a text starts with there is an empty name. -/
theorem dropMark_of_splitScopes {text : String} (named : "" ∉ splitScopes text) :
    dropMark "::" text = none := by
  rw [dropMark, Option.map_eq_none_iff]
  cases dropped : Characters.dropMark "::".toList text.toList with
  | none => rfl
  | some rest =>
      have begins : text.toList = ':' :: ':' :: rest := Characters.eq_append_of_dropMark dropped
      refine absurd ?_ named
      rw [splitScopes, begins, Characters.splitScopes]
      exact List.mem_cons_self

/-- A qualified name is cut into the names it was joined from. -/
theorem splitScopes_join {pieces : List String} (nonempty : pieces ≠ [])
    (free : ∀ piece ∈ pieces, ':' ∉ piece.toList) : splitScopes (join "::" pieces) = pieces := by
  induction pieces with
  | nil => exact absurd rfl nonempty
  | cons piece rest ih =>
      have freeFirst := free piece List.mem_cons_self
      cases rest with
      | nil =>
          rw [join, String.intercalate_singleton, splitScopes,
            Characters.splitScopes_of_free freeFirst]
          simp
      | cons next others =>
          have tail := ih (by simp) fun name member => free name (List.mem_cons_of_mem piece member)
          have unfolded : (join "::" (piece :: next :: others)).toList =
              piece.toList ++ ':' :: ':' :: (join "::" (next :: others)).toList := by
            rw [join, String.intercalate_cons_cons, String.toList_append, String.toList_append,
              List.append_assoc]
            rfl
          rw [splitScopes] at tail
          rw [splitScopes, unfolded, Characters.splitScopes_append freeFirst, List.map_cons, tail,
            String.ofList_toList]

/-! ## Lines -/

/-- A text that is the same after it was cut into lines: it does not end in a line feed, and no
carriage return in it is followed by one. -/
def KeepsLines (text : String) : Prop :=
  text.toList.getLast? ≠ some '\n' ∧ ¬ ['\r', '\n'] <:+: text.toList

/-- A text as it comes back when its lines are joined by line feeds. -/
def rejoinLines (text : String) : String :=
  join "\n" (lines text)

namespace Characters

/-- `Text.KeepsLines` on characters. -/
def KeepsLines (cs : List Char) : Prop :=
  cs.getLast? ≠ some '\n' ∧ ¬ ['\r', '\n'] <:+: cs

theorem keepsLines_nil : KeepsLines [] := by
  constructor <;> simp

theorem keepsLines_cons {c : Char} {cs : List Char} (nonempty : cs ≠ []) :
    KeepsLines (c :: cs) ↔ ¬ (c = '\r' ∧ cs.head? = some '\n') ∧ KeepsLines cs := by
  cases cs with
  | nil => exact absurd rfl nonempty
  | cons next rest =>
      simp only [KeepsLines, List.getLast?_cons_cons, List.infix_cons_iff (a := c),
        List.cons_prefix_cons, List.nil_prefix, List.head?_cons, Option.some.injEq]
      constructor
      · rintro ⟨ending, apart⟩
        exact ⟨fun both => apart (.inl ⟨both.1.symm, both.2.symm, trivial⟩), ending,
          fun inside => apart (.inr inside)⟩
      · rintro ⟨head, ending, apart⟩
        refine ⟨ending, fun inside => ?_⟩
        rcases inside with ⟨first, second, -⟩ | later
        · exact head ⟨first.symm, second.symm⟩
        · exact apart later

theorem keepsLines_singleton (c : Char) : KeepsLines [c] ↔ c ≠ '\n' := by
  constructor
  · rintro ⟨ending, -⟩ rfl
    exact ending rfl
  · intro different
    refine ⟨by simpa using different, fun inside => ?_⟩
    have := inside.length_le
    simp at this

theorem lines_ne_nil {cs : List Char} (nonempty : cs ≠ []) : lines cs ≠ [] := by
  fun_cases lines cs with
  | case1 => exact absurd rfl nonempty
  | case2 => simp
  | case3 => simp
  | case4 => simp
  | case5 => simp

theorem feed_not_mem_of_mem_lines {cs line : List Char} (listed : line ∈ lines cs) : '\n' ∉ line := by
  fun_induction lines cs generalizing line with
  | case1 => cases listed
  | case2 cs ih =>
      rcases List.mem_cons.mp listed with rfl | later
      · exact List.not_mem_nil
      · exact ih later
  | case3 cs ih =>
      rcases List.mem_cons.mp listed with rfl | later
      · exact List.not_mem_nil
      · exact ih later
  | case4 c cs notFeed _ _ _ =>
      rw [List.mem_singleton.mp listed]
      exact fun inside => notFeed (List.mem_singleton.mp inside).symm
  | case5 c cs notFeed _ first rest split ih =>
      rw [split] at ih
      rcases List.mem_cons.mp listed with rfl | later
      · intro inside
        rcases List.mem_cons.mp inside with same | further
        · exact notFeed same.symm
        · exact ih List.mem_cons_self further
      · exact ih (List.mem_cons_of_mem _ later)

/-- Joining what begins with an empty line puts a line feed in front. -/
private theorem intercalate_empty_line {rest : List (List Char)} (nonempty : rest ≠ []) :
    ['\n'].intercalate ([] :: rest) = '\n' :: ['\n'].intercalate rest := by
  rw [List.intercalate_cons_of_ne_nil nonempty]
  rfl

/-- Exactly the texts that keep their lines come back from them. -/
theorem intercalate_lines_eq_self (cs : List Char) :
    ['\n'].intercalate (lines cs) = cs ↔ KeepsLines cs := by
  fun_induction lines cs with
  | case1 => simpa using keepsLines_nil
  | case2 cs ih =>
      by_cases last : cs = []
      · subst last
        simp [lines, keepsLines_singleton]
      · rw [intercalate_empty_line (lines_ne_nil last), List.cons.injEq, ih, keepsLines_cons last]
        simp
  | case3 cs ih =>
      -- The carriage return is lost, whatever follows.
      have broken : ¬ KeepsLines ('\r' :: '\n' :: cs) := fun keeps =>
        ((keepsLines_cons (by simp)).mp keeps).1 ⟨rfl, rfl⟩
      refine iff_of_false (fun same => ?_) broken
      by_cases last : cs = []
      · subst last
        simp [lines] at same
      · rw [intercalate_empty_line (lines_ne_nil last), List.cons.injEq] at same
        exact absurd same.1 (by decide)
  | case4 c cs notFeed notReturn empty ih =>
      have last : cs = [] :=
        Classical.byContradiction fun nonempty => lines_ne_nil nonempty empty
      subst last
      have different : c ≠ '\n' := fun same => notFeed same
      simp [keepsLines_singleton, different]
  | case5 c cs notFeed notReturn line rest split ih =>
      have nonempty : cs ≠ [] := by
        rintro rfl
        simp [lines] at split
      have apart : ¬ (c = '\r' ∧ cs.head? = some '\n') := by
        rintro ⟨rfl, next⟩
        rcases List.head?_eq_some_iff.mp next with ⟨tail, rfl⟩
        exact notReturn tail rfl rfl
      rw [List.intercalate_cons_cons_left, List.cons.injEq, ← split, ih,
        keepsLines_cons nonempty]
      simp [apart]

theorem keepsLines_of_free {line : List Char} (free : '\n' ∉ line) : KeepsLines line := by
  constructor
  · intro ending
    exact free (List.mem_of_getLast? ending)
  · intro inside
    exact free (inside.subset (List.mem_cons_of_mem _ List.mem_cons_self))

theorem keepsLines_append {line rest : List Char} (free : '\n' ∉ line)
    (unreturned : line.getLast? ≠ some '\r') (nonempty : rest ≠ []) (kept : KeepsLines rest) :
    KeepsLines (line ++ '\n' :: rest) := by
  induction line with
  | nil =>
      rw [List.nil_append, keepsLines_cons nonempty]
      exact ⟨fun both => absurd both.1 (by decide), kept⟩
  | cons c line ih =>
      have further : '\n' ∉ line := fun inside => free (List.mem_cons_of_mem c inside)
      rw [List.cons_append, keepsLines_cons (List.append_ne_nil_of_right_ne_nil _ (by simp))]
      cases line with
      | nil =>
          have notReturn : c ≠ '\r' := fun same => unreturned (same ▸ rfl)
          exact ⟨fun both => notReturn both.1, ih further (by simp)⟩
      | cons next line =>
          rw [List.getLast?_cons_cons] at unreturned
          have notFeed : next ≠ '\n' := fun same => further (same ▸ List.mem_cons_self)
          exact ⟨fun both => notFeed (Option.some.inj both.2), ih further unreturned⟩

theorem keepsLines_intercalate {lines : List (List Char)} (free : ∀ line ∈ lines, '\n' ∉ line)
    (unreturned : ∀ line ∈ lines, line.getLast? ≠ some '\r') (last : lines.getLast? ≠ some []) :
    KeepsLines (['\n'].intercalate lines) := by
  induction lines with
  | nil => exact keepsLines_nil
  | cons line lines ih =>
      rcases List.forall_mem_cons.mp free with ⟨firstFree, othersFree⟩
      rcases List.forall_mem_cons.mp unreturned with ⟨firstUnreturned, othersUnreturned⟩
      cases lines with
      | nil =>
          rw [List.intercalate_singleton]
          exact keepsLines_of_free firstFree
      | cons next lines =>
          rw [List.getLast?_cons_cons] at last
          have nonempty : ['\n'].intercalate (next :: lines) ≠ [] := by
            cases lines with
            | nil =>
                rw [List.intercalate_singleton]
                exact fun empty => last (empty ▸ rfl)
            | cons _ _ =>
                rw [List.intercalate_cons_cons]
                simp
          rw [List.intercalate_cons_cons, List.append_assoc]
          exact keepsLines_append firstFree firstUnreturned nonempty
            (ih othersFree othersUnreturned last)

end Characters

/-- Joined lines can be told apart again when no line holds a line feed or ends in a carriage return, and
the last of them is not empty. -/
theorem keepsLines_join {lines : List (List Char)} (free : ∀ line ∈ lines, '\n' ∉ line)
    (unreturned : ∀ line ∈ lines, line.getLast? ≠ some '\r') (last : lines.getLast? ≠ some []) :
    KeepsLines (join "\n" (lines.map .ofList)) := by
  have characters : (join "\n" (lines.map .ofList)).toList = ['\n'].intercalate lines := by
    simp [join, Function.comp_def]
  rw [KeepsLines, characters]
  exact Characters.keepsLines_intercalate free unreturned last

/-- Joining the lines of a text gives the text back exactly when it keeps its lines. -/
theorem rejoinLines_eq_self (text : String) : rejoinLines text = text ↔ KeepsLines text := by
  have onCharacters : (rejoinLines text).toList = ['\n'].intercalate (Characters.lines text.toList) := by
    simp [rejoinLines, join, lines, Function.comp_def]
  rw [← String.toList_inj, onCharacters]
  exact Characters.intercalate_lines_eq_self text.toList

end Text
end KeyedReflection
