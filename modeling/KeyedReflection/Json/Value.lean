import KeyedReflection.Binary64
import KeyedReflection.SortedMap

/-!
# JSON values

The members of an object keep the order in which they were written, because a schema document lists
the fields of a record in declaration order.  Whole numbers and numbers of the 64-bit binary format
are different values even when they are numerically equal.

`Value.same` is the equality that record values are compared with: it looks through the order of
object members and takes the two zeros of the binary format for one value.
-/

namespace KeyedReflection
namespace Json

/-- A JSON value. -/
inductive Value where
  | null
  | bool (value : Bool)
  | integer (value : Int)
  | double (value : Binary64)
  | string (value : String)
  | array (items : List Value)
  | object (members : List (String × Value))
  deriving Inhabited

/-- The members of an object, in order. -/
abbrev Members := List (String × Value)

def findMember (name : String) : Members → Option Value
  | [] => none
  | (n, v) :: rest => if n = name then some v else findMember name rest

namespace Value

/-- The member of an object; other values have no members. -/
def member? (value : Value) (name : String) : Option Value :=
  match value with
  | .object members => findMember name members
  | _ => none

def string? : Value → Option String
  | .string s => some s
  | _ => none

/-- The items of an array. -/
def array? : Value → Option (List Value)
  | .array items => some items
  | _ => none

/-- The truth value of a boolean. -/
def bool? : Value → Option Bool
  | .bool b => some b
  | _ => none

/-- A whole number that is not negative. -/
def natural? : Value → Option Nat
  | .integer n => if 0 ≤ n then some n.toNat else none
  | _ => none

mutual

/-- Equality of values. Members may come in any order. -/
def same : Value → Value → Bool
  | .null, .null => true
  | .bool a, .bool b => a == b
  | .integer a, .integer b => a == b
  | .double a, .double b => a.same b
  | .string a, .string b => a == b
  | .array as, .array bs => sameItems as bs
  | .object as, .object bs => as.length == bs.length && sameMembers as bs
  | _, _ => false

/-- Equality of arrays, item by item. -/
def sameItems : List Value → List Value → Bool
  | [], [] => true
  | a :: as, b :: bs => same a b && sameItems as bs
  | _, _ => false

/-- Every member of the first object is a member of the second with an equal value. -/
def sameMembers : Members → Members → Bool
  | [], _ => true
  | (name, a) :: as, bs =>
    (match findMember name bs with
      | some b => same a b
      | none => false) && sameMembers as bs

end

end Value
/-!
## Collecting the members of an object

The names of an object's members are distinct.  Where members are collected that may have one name in
common, the first of them gives the place and the last the value.

The laws say that the names of collected members are distinct (`collect_distinct`), and that members
whose names were distinct before stay as they are (`collect_of_distinct`).
-/

namespace Members

/-- The first member of each name, without the names of a set. -/
def firsts (seen : SortedMap Unit) : Members → Members
  | [] => []
  | (name, value) :: rest =>
    if seen.contains name then firsts seen rest
    else (name, value) :: firsts (seen.insert name ()) rest

/-- Members with distinct names: the first of each name, with the value of the last. -/
def collect (members : Members) : Members :=
  let last := SortedMap.ofList members
  (firsts .empty members).map fun (name, value) => (name, (last.find? name).getD value)

/-! ### Laws -/

private theorem fst_mem_firsts {seen : SortedMap Unit} {members : Members} {name : String}
    (member : name ∈ (firsts seen members).map Prod.fst) : seen.contains name = false := by
  induction members generalizing seen with
  | nil => simp [firsts] at member
  | cons head rest ih =>
    obtain ⟨first, value⟩ := head
    unfold firsts at member
    split at member
    · exact ih member
    · rename_i absent
      rcases List.mem_cons.1 member with rfl | later
      · simpa using absent
      · have := ih later
        simp only [SortedMap.contains, SortedMap.find?_insert] at this ⊢
        split at this
        · simp at this
        · exact this

private theorem firsts_distinct (seen : SortedMap Unit) (members : Members) :
    ((firsts seen members).map Prod.fst).Nodup := by
  induction members generalizing seen with
  | nil => simp [firsts]
  | cons head rest ih =>
    obtain ⟨first, value⟩ := head
    unfold firsts
    split
    · exact ih seen
    · refine List.nodup_cons.2 ⟨fun later => ?_, ih _⟩
      have := fst_mem_firsts later
      simp [SortedMap.contains] at this

/-- Collected members have distinct names. -/
theorem collect_distinct (members : Members) : ((collect members).map Prod.fst).Nodup := by
  have same : (collect members).map Prod.fst = (firsts .empty members).map Prod.fst := by
    simp [collect, Function.comp_def]
  rw [same]
  exact firsts_distinct _ _

private theorem firsts_of_distinct {seen : SortedMap Unit} {members : Members}
    (distinct : (members.map Prod.fst).Nodup)
    (unseen : ∀ member ∈ members, seen.contains member.1 = false) :
    firsts seen members = members := by
  induction members generalizing seen with
  | nil => rfl
  | cons head rest ih =>
    obtain ⟨first, value⟩ := head
    obtain ⟨alone, others⟩ := List.nodup_cons.1 distinct
    have absent := unseen _ (List.mem_cons_self ..)
    simp only [firsts, absent, Bool.false_eq_true, if_false]
    congr 1
    refine ih others fun member inside => ?_
    have := unseen _ (List.mem_cons_of_mem _ inside)
    have different : first ≠ member.1 := by
      rintro rfl
      exact alone (List.mem_map.2 ⟨member, inside, rfl⟩)
    simpa [SortedMap.contains, different] using this

/-- Members with distinct names stay as they are. -/
theorem collect_of_distinct {members : Members} (distinct : (members.map Prod.fst).Nodup) :
    collect members = members := by
  unfold collect
  rw [firsts_of_distinct distinct (by simp [SortedMap.contains])]
  conv => rhs; rw [← List.map_id members]
  refine List.map_congr_left fun member inside => ?_
  have held := SortedMap.find?_ofList_of_distinct distinct inside
  simp [held]

end Members
end Json

end KeyedReflection
