import KeyedReflection.Interpreter
import KeyedReflection.Proofs.Module.Building

/-!
# What the operations on a key do

Each operation goes through a search by halves, a switch with shared branches and a statement.  Here
each of them gets one equation in terms of the entry of its key, and nothing after this module looks
at tables by position or at switches again.  None of the equations has a case for a mismatched
statement: a well built module never gives one to an operation.
-/

namespace KeyedReflection
namespace Interpreter

open Json (Value)
open ReflectionModule (fixedFunctions totalSwitch getFunction setFunction unsetFunction typeFunction)

variable {interpreter : Interpreter}

/-- A switch over every key leads to the body for the key's entry, or there is no entry at all. -/
theorem runBody_total (ascending : interpreter.module.table.IsAscending)
    (body : KeyedLeaf → Statement) (key : String) :
    (interpreter.module.table.entryOf? key = none ∧
      interpreter.runBody (totalSwitch interpreter.module.table body) key =
        .error (.unknownKey key)) ∨
    ∃ index entry, interpreter.module.table.entryOf? key = some entry ∧
      interpreter.module.table.entries[index]? = some entry ∧
      interpreter.runBody (totalSwitch interpreter.module.table body) key =
        .ok (index, body entry) := by
  simp only [totalSwitch, runBody, runSwitch]
  rcases DispatchTable.lookup_cases ascending key with
    ⟨unplaced, unknown⟩ | ⟨index, entry, place, there, known⟩
  · exact .inl ⟨unknown, by rw [unplaced]⟩
  · have branch := interpreter.module.table.body_branchFor?_switch .all .unreachable body index
    simp only [there, Option.bind_some, Subset.includes, if_true] at branch
    rcases Option.map_eq_some_iff.mp branch with ⟨taken, chosen, does⟩
    refine .inr ⟨index, entry, known, there, ?_⟩
    rw [place]
    dsimp only
    rw [chosen, ← does]

/-- Dispatching over every key finds the body of the key's entry, or no entry at all. -/
private theorem dispatch_total (isKeyed : interpreter.module.IsKeyed)
    {function : ModuleFunction} {body : KeyedLeaf → Statement}
    (fixed : function ∈ fixedFunctions interpreter.module.table interpreter.module.valueType)
    (kind : FunctionKind) (isOfKind : function.kind = kind)
    (total : function.body = totalSwitch interpreter.module.table body) (key : String) :
    (interpreter.module.table.entryOf? key = none ∧
      interpreter.dispatch kind key = .error (.key (.unknownKey key))) ∨
    ∃ index entry, interpreter.module.table.entryOf? key = some entry ∧
      interpreter.module.table.entries[index]? = some entry ∧
      interpreter.dispatch kind key = .ok (index, body entry) := by
  simp only [dispatch, isKeyed.function?_fixed fixed isOfKind, total]
  rcases runBody_total isKeyed.ascending body key with
    ⟨unknown, failed⟩ | ⟨index, entry, known, there, ran⟩
  · exact .inl ⟨unknown, by rw [failed]; rfl⟩
  · exact .inr ⟨index, entry, known, there, by rw [ran]; rfl⟩

theorem canonicalTypeAt_eq {index : Nat} {entry : KeyedLeaf}
    (there : interpreter.module.table.entries[index]? = some entry) :
    interpreter.canonicalTypeAt index = entry.leaf.canonicalType := by
  rw [canonicalTypeAt, there]

theorem get_eq (isKeyed : interpreter.module.IsKeyed) (state : RecordState) (key : String) :
    interpreter.get state key =
      match interpreter.module.table.entryOf? key with
      | none => .error (.key (.unknownKey key))
      | some entry =>
        .ok ((state.field? entry.dottedId).map fun value => ⟨entry.leaf.canonicalType, value⟩) := by
  have fixed : getFunction interpreter.module.table ∈
      fixedFunctions interpreter.module.table interpreter.module.valueType := by
    simp [fixedFunctions]
  rcases dispatch_total isKeyed fixed .get rfl rfl key with
    ⟨unknown, failed⟩ | ⟨index, entry, known, there, ran⟩
  · rw [get, failed, unknown]
  · rw [get, ran, known]
    dsimp only
    rw [canonicalTypeAt_eq there]

theorem set_eq (isKeyed : interpreter.module.IsKeyed) (state : RecordState) (key : String)
    (value : TaggedValue) :
    interpreter.set state key value =
      match interpreter.module.table.entryOf? key with
      | none => .error (.key (.unknownKey key))
      | some entry =>
        if value.canonicalType = entry.leaf.canonicalType then
          .ok (state.insert entry.dottedId (some value.value))
        else .error (.key (.typeMismatch key entry.leaf.canonicalType value.canonicalType)) := by
  have fixed : setFunction interpreter.module.table ∈
      fixedFunctions interpreter.module.table interpreter.module.valueType := by
    simp [fixedFunctions]
  rcases dispatch_total isKeyed fixed .set rfl rfl key with
    ⟨unknown, failed⟩ | ⟨index, entry, known, there, ran⟩
  · rw [set, failed, unknown]
  · rw [set, ran, known]
    dsimp only
    rw [narrow]
    split
    · rfl
    · rfl

theorem typeOf_eq (isKeyed : interpreter.module.IsKeyed) (key : String) :
    interpreter.typeOf key =
      match interpreter.module.table.entryOf? key with
      | none => .error (.key (.unknownKey key))
      | some entry => .ok entry.leaf.declaredType := by
  have fixed : typeFunction interpreter.module.table interpreter.module.valueType ∈
      fixedFunctions interpreter.module.table interpreter.module.valueType := by
    simp [fixedFunctions]
  rcases dispatch_total isKeyed fixed .type rfl rfl key with
    ⟨unknown, failed⟩ | ⟨index, entry, known, there, ran⟩
  · rw [typeOf, failed, unknown]
  · rw [typeOf, ran, known]

theorem unset_eq (isKeyed : interpreter.module.IsKeyed) (state : RecordState)
    (key : String) :
    interpreter.unset state key =
      match interpreter.module.table.entryOf? key with
      | none => .error (.key (.unknownKey key))
      | some entry =>
        if entry.leaf.isOptional then .ok (state.insert entry.dottedId none)
        else .error (.key (.notOptional key)) := by
  have fixed : unsetFunction interpreter.module.table ∈
      fixedFunctions interpreter.module.table interpreter.module.valueType := by
    simp [fixedFunctions]
  have found : interpreter.module.function? .unset = some (unsetFunction interpreter.module.table) :=
    isKeyed.function?_fixed fixed rfl
  rw [unset, dispatch, found]
  simp only [unsetFunction, runBody, runSwitch]
  rcases DispatchTable.lookup_cases isKeyed.ascending key with
    ⟨unplaced, unknown⟩ | ⟨index, entry, place, there, known⟩
  · rw [unplaced, unknown]
    rfl
  · have branch := interpreter.module.table.body_branchFor?_switch .optionalOnly .notOptional
      (fun entry => Statement.resetField entry.dottedId) index
    have included : Subset.includes .optionalOnly entry = entry.leaf.isOptional := rfl
    rw [there, Option.bind_some, included] at branch
    rw [place, known]
    dsimp only
    by_cases optional : entry.leaf.isOptional = true
    · rw [if_pos optional] at branch
      rcases Option.map_eq_some_iff.mp branch with ⟨taken, chosen, does⟩
      rw [if_pos optional, chosen]
      dsimp only [Except.mapError]
      rw [does]
    · rw [if_neg optional, Option.map_eq_none_iff] at branch
      rw [if_neg optional, branch]
      rfl

end Interpreter
end KeyedReflection
