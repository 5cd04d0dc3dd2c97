import KeyedReflection.Command.Job
import KeyedReflection.Host.Workspace
import KeyedReflection.Proofs.Results

/-!
# Actions on a workspace

An action that can fail goes from a workspace to a result and the workspace it leaves.  Of two actions one
after another the second begins where the first left off, unless the first failed.  Read backwards, that takes
a run apart into the runs of its parts.
-/

namespace KeyedReflection
namespace Action

variable {α β : Type}

/-! ## One action after another -/

section

variable {action : Action (StateM Workspace) α} {next : α → Action (StateM Workspace) β} {w w' : Workspace}

theorem bind_of_ok {a : α} (done : action.run.run w = (.ok a, w')) :
    (action >>= next).run.run w = (next a).run.run w' := by
  change (ExceptT.bindCont next (action.run.run w).1).run (action.run.run w).2 = _
  rw [done]
  rfl

theorem bind_of_error {failure : Failure} (failed : action.run.run w = (.error failure, w')) :
    (action >>= next).run.run w = (.error failure, w') := by
  change (ExceptT.bindCont next (action.run.run w).1).run (action.run.run w).2 = _
  rw [failed]
  rfl

/-- Two things are done when the first is and then the second. -/
theorem exists_of_bind_ok {b : β} (done : (action >>= next).run.run w = (.ok b, w')) :
    ∃ a mid, action.run.run w = (.ok a, mid) ∧ (next a).run.run mid = (.ok b, w') := by
  rcases first : action.run.run w with ⟨failure | a, mid⟩
  · rw [bind_of_error first] at done
    cases done
  · exact ⟨a, mid, rfl, bind_of_ok first ▸ done⟩

/-- Of two things either the first fails or the second, after the first is done. -/
theorem bind_error_cases {failure : Failure} (failed : (action >>= next).run.run w = (.error failure, w')) :
    action.run.run w = (.error failure, w') ∨
      ∃ a mid, action.run.run w = (.ok a, mid) ∧ (next a).run.run mid = (.error failure, w') := by
  rcases first : action.run.run w with ⟨other | a, mid⟩
  · rw [bind_of_error first] at failed
    cases failed
    exact .inl rfl
  · exact .inr ⟨a, mid, rfl, bind_of_ok first ▸ failed⟩

theorem run_within (activity : Activity) (action : Action (StateM Workspace) α) (w : Workspace) :
    (within activity action).run.run w =
      ((action.run.run w).1.mapError (Failure.within activity), (action.run.run w).2) :=
  rfl

theorem run_ofFile (activity : Activity) (operation : StateM Workspace (Except FileFault α)) (w : Workspace) :
    (ofFile activity operation).run.run w =
      ((operation.run w).1.mapError (Failure.ofFile activity), (operation.run w).2) := by
  rw [ofFile, ExceptT.run_mk, StateT.run_bind]
  rcases operation.run w with ⟨_ | _, _⟩ <;> rfl

end

/-- When one of several things fails, those in front of it are done. -/
theorem forM_error_cases {items : List α} {each : α → Action (StateM Workspace) Unit} {failure : Failure}
    {w w' : Workspace} (failed : (items.forM each).run.run w = (.error failure, w')) :
    ∃ front item rest mid, items = front ++ item :: rest ∧
      (front.forM each).run.run w = (.ok (), mid) ∧ (each item).run.run mid = (.error failure, w') := by
  induction items generalizing w with
  | nil => cases failed
  | cons item items ih =>
      rcases bind_error_cases failed with first | ⟨_, mid, first, later⟩
      · exact ⟨[], item, items, w, rfl, rfl, first⟩
      · rcases ih later with ⟨front, last, rest, reached, rfl, before, fails⟩
        exact ⟨item :: front, last, rest, reached, rfl, (bind_of_ok first).trans before, fails⟩

/-! ## Actions that are done -/

section

variable {w w' : Workspace} {a : α}

theorem of_ofFile_ok {operation : StateM Workspace (Except FileFault α)} {activity : Activity}
    (done : (ofFile activity operation).run.run w = (.ok a, w')) : operation.run w = (.ok a, w') := by
  rw [run_ofFile] at done
  rcases result : operation.run w with ⟨fault | found, mid⟩
  · rw [result] at done
    cases done
  · rw [result] at done
    cases done
    rfl

theorem of_within_ok {activity : Activity} {action : Action (StateM Workspace) α}
    (done : (within activity action).run.run w = (.ok a, w')) : action.run.run w = (.ok a, w') := by
  rw [run_within] at done
  rcases result : action.run.run w with ⟨failure | found, mid⟩
  · rw [result] at done
    cases done
  · rw [result] at done
    cases done
    rfl

theorem of_ofCause_ok {result : Except FailureCause α}
    (done : (ofCause result : Action (StateM Workspace) α).run.run w = (.ok a, w')) :
    result = .ok a ∧ w' = w := by
  cases result with
  | error cause => cases done
  | ok found =>
      cases done
      exact ⟨rfl, rfl⟩

theorem of_ofGeneration_ok {result : Except GenerationError α}
    (done : (ofGeneration result : Action (StateM Workspace) α).run.run w = (.ok a, w')) :
    result = .ok a ∧ w' = w :=
  (of_ofCause_ok done).imp_left exists_of_mapError_ok

end

end Action
end KeyedReflection
