import Mathlib.Data.List.Forall2

/-!
# Results of steps

What can fail is written in steps, and a proof about a run that succeeded takes the run apart into steps
that did.
-/

namespace KeyedReflection

variable {ε α β : Type}

theorem exists_of_map_ok {f : α → β} {step : Except ε α} {result : β}
    (mapped : step.map f = .ok result) : ∃ value, step = .ok value ∧ f value = result := by
  cases step with
  | error fault => cases mapped
  | ok value => exact ⟨value, rfl, Except.ok.inj mapped⟩

theorem exists_of_isOk {step : Except ε α} (succeeds : step.isOk = true) :
    ∃ value, step = .ok value := by
  cases step with
  | error fault => cases succeeds
  | ok value => exact ⟨value, rfl⟩

theorem exists_of_mapError_ok {φ : Type} {f : ε → φ} {step : Except ε α} {result : α}
    (mapped : step.mapError f = .ok result) : step = .ok result := by
  cases step with
  | error fault => cases mapped
  | ok value => exact congrArg _ (Except.ok.inj mapped)

/-- Every result of a list of steps is the result of one of them. -/
theorem exists_of_mem_mapM {f : α → Except ε β} {items : List α} {results : List β}
    (ran : items.mapM f = .ok results) {result : β} (listed : result ∈ results) :
    ∃ item ∈ items, f item = .ok result := by
  induction items generalizing results with
  | nil =>
      cases ran
      cases listed
  | cons item items ih =>
      rw [List.mapM_cons] at ran
      cases first : f item with
      | error fault =>
          rw [first] at ran
          cases ran
      | ok head =>
          cases others : items.mapM f with
          | error fault =>
              rw [first, others] at ran
              cases ran
          | ok tail =>
              rw [first, others] at ran
              cases ran
              rcases List.mem_cons.mp listed with rfl | later
              · exact ⟨item, List.mem_cons_self, first⟩
              · rcases ih others later with ⟨source, inside, stepped⟩
                exact ⟨source, List.mem_cons_of_mem item inside, stepped⟩

theorem partner_of_mem {relation : α → β → Prop} {left : List α} {right : List β}
    (paired : List.Forall₂ relation left right) {item : α} (listed : item ∈ left) :
    ∃ other ∈ right, relation item other := by
  induction paired with
  | nil => cases listed
  | cons related _ ih =>
      rcases List.mem_cons.mp listed with rfl | later
      · exact ⟨_, List.mem_cons_self, related⟩
      · rcases ih later with ⟨other, inside, agrees⟩
        exact ⟨other, List.mem_cons_of_mem _ inside, agrees⟩

/-- A list of steps gives the results of all of them, or fails with one of them. -/
theorem mapM_cases (f : α → Except ε β) (items : List α) :
    (∃ results, items.mapM f = .ok results ∧
      List.Forall₂ (fun item result => f item = .ok result) items results) ∨
    ∃ fault, items.mapM f = .error fault ∧ ∃ item ∈ items, f item = .error fault := by
  induction items with
  | nil => exact .inl ⟨[], rfl, .nil⟩
  | cons item items ih =>
      rw [List.mapM_cons]
      cases first : f item with
      | error fault => exact .inr ⟨fault, rfl, item, List.mem_cons_self, first⟩
      | ok head =>
          rcases ih with ⟨tail, ran, each⟩ | ⟨fault, failed, other, listed, cause⟩
          · rw [ran]
            exact .inl ⟨head :: tail, rfl, .cons first each⟩
          · rw [failed]
            exact .inr ⟨fault, rfl, other, List.mem_cons_of_mem item listed, cause⟩

/-- Every item of a list is made from something, and so is the list. -/
theorem exists_map_eq {P : α → Prop} {f : α → β} {items : List β}
    (each : ∀ item ∈ items, ∃ origin, P origin ∧ f origin = item) :
    ∃ origins : List α, (∀ origin ∈ origins, P origin) ∧ origins.map f = items := by
  induction items with
  | nil => exact ⟨[], nofun, rfl⟩
  | cons item items ih =>
      rcases List.forall_mem_cons.mp each with ⟨⟨origin, holds, rfl⟩, others⟩
      rcases ih others with ⟨origins, allHold, rfl⟩
      exact ⟨origin :: origins, List.forall_mem_cons.mpr ⟨holds, allHold⟩, rfl⟩

/-- What every step keeps holds of the result of a run. -/
theorem foldlM_induction {motive : β → Prop} {step : β → α → Except ε β}
    (keeps : ∀ state item next, motive state → step state item = .ok next → motive next)
    {items : List α} {first last : β} (ran : items.foldlM step first = .ok last)
    (start : motive first) : motive last := by
  induction items generalizing first with
  | nil => exact Except.ok.inj ran ▸ start
  | cons item rest ih =>
      rw [List.foldlM_cons] at ran
      cases stepped : step first item with
      | error fault =>
          rw [stepped] at ran
          cases ran
      | ok next =>
          rw [stepped] at ran
          exact ih ran (keeps first item next start stepped)

/-- A run that succeeds does so whatever its faults are called. -/
theorem foldlM_mapError {φ : Type} {step : β → α → Except ε β} (change : α → ε → φ)
    {items : List α} {first last : β} (ran : items.foldlM step first = .ok last) :
    items.foldlM (fun state item => (step state item).mapError (change item)) first = .ok last := by
  induction items generalizing first with
  | nil => exact congrArg Except.ok (Except.ok.inj ran)
  | cons item rest ih =>
      rw [List.foldlM_cons] at ran ⊢
      cases stepped : step first item with
      | error fault =>
          rw [stepped] at ran
          cases ran
      | ok next =>
          rw [stepped] at ran
          exact ih ran

/-- A run that fails does so whatever its faults are called. -/
theorem foldlM_mapError_error {φ : Type} {step : β → α → Except ε β} (change : α → ε → φ)
    {items : List α} {first : β} {fault : ε} (failed : items.foldlM step first = .error fault) :
    ∃ changed, items.foldlM (fun state item => (step state item).mapError (change item)) first =
      .error changed := by
  induction items generalizing first with
  | nil => cases failed
  | cons item rest ih =>
      rw [List.foldlM_cons] at failed ⊢
      cases stepped : step first item with
      | error cause => exact ⟨_, rfl⟩
      | ok next =>
          rw [stepped] at failed
          exact ih failed

end KeyedReflection
