import ArduMash.Behaviour.Moves

/-!
When an iteration of `loop` answers at all. The step that is current has to be in
the table and, if the iteration asks `startStep` for the step after it, that one too.
-/

namespace ArduMash.Behaviour.Faults
open Sketch Globals Hardware Screens Controllers Loop StartStep ControllerEffects Waiting Moves
  Foundation.RoundMachine

theorem startStep_answers (now : Millis) {index : Byte} {s : State}
    (asked : ∃ step, s.entry index.toNat = some step) :
    ∃ outcome, startStep now index s = .ok outcome := by
  obtain ⟨step, found⟩ := asked
  by_cases done : s.systemState = .finish
  · exact ⟨_, startStep_finished now index done⟩
  · by_cases marker : step.recipe = 0
    · exact ⟨_, startStep_recipeEnd now done found marker⟩
    · exact ⟨_, startStep_begun now done found marker⟩

/-- `startStep` never leaves a step outside the table current. -/
theorem startStep_current {now : Millis} {index : Byte} {s : State} {outcome : Outcome}
    (ran : startStep now index s = .ok outcome) (current : ∃ step, s.current = some step) :
    ∃ step, outcome.state.current = some step := by
  cases startStep_cases ran with
  | ignored => exact current
  | recipeEnd => exact current
  | begun _ step asked => exact ⟨_, begunState_current asked⟩

theorem stepController_answers (clock : Clocks Millis) (step : RecipeStep) {s : State}
    (safe : Active s → endNotReached clock.step s.tempC step = false → step.autoContinue = true →
      ∃ next, following s = some next) :
    ∃ outcome, stepController clock step s = .ok outcome := by
  by_cases active : Active s
  · cases due : endNotReached clock.step s.tempC step with
    | true => exact ⟨_, stepController_goesOn due⟩
    | false =>
      cases auto : step.autoContinue with
      | true =>
        rw [stepController_continues active due auto]
        exact startStep_answers _ (safe active due auto)
      | false => exact ⟨_, stepController_waits active due auto⟩
  · exact ⟨_, stepController_idle clock step active⟩

theorem inputController_answers (readings : Readings) {s : State}
    (current : ∃ step, s.current = some step)
    (safe : s.systemState = .wait → SelectAccepted readings s → ∃ next, following s = some next) :
    ∃ outcome, inputController readings s = .ok outcome := by
  cases accepted : accepts readings s with
  | false =>
    simp only [inputController, accepted, Bool.false_eq_true, if_false]
    exact ⟨_, rfl⟩
  | true =>
    simp only [inputController, accepted, if_true]
    cases phase : s.systemState with
    | init =>
      by_cases select : readLCDButtons readings.adcKeyIn = .select
      · have asked : ∃ step, s.entry s.currentStep.toNat = some step := current
        obtain ⟨started, start⟩ := startStep_answers readings.clock.selectStart asked
        simp only [select, selectionButtons_select, if_true, start]
        exact ⟨_, rfl⟩
      · simp only [if_neg select]
        exact ⟨_, rfl⟩
    | running => exact ⟨_, rfl⟩
    | finish => exact ⟨_, rfl⟩
    | wait =>
      by_cases select : readLCDButtons readings.adcKeyIn = .select
      · obtain ⟨started, start⟩ := startStep_answers readings.clock.selectStart
          (safe phase ⟨accepted, select⟩)
        simp only [if_pos select, start]
        exact ⟨_, rfl⟩
      · simp only [if_neg select]
        exact ⟨_, rfl⟩

/-- The selection screen and the finish screen do not look at the recipe. -/
theorem inputController_current {readings : Readings} {s : State} {outcome : Outcome}
    (ran : inputController readings s = .ok outcome) (current : ∃ step, s.current = some step) :
    outcome.state.systemState = .init ∨ ∃ step, outcome.state.current = some step := by
  cases inputController_cases ran with
  | ignored => exact Or.inr current
  | selects selecting =>
    rw [selectionButtons_frame]
    exact Or.inl selecting
  | begins _ _ _ started =>
    have kept := startStep_current started current
    exact Or.inr kept
  | confirms _ _ _ started =>
    have kept := startStep_current started current
    exact Or.inr kept

theorem screenController_answers (readings : Readings) {s : State}
    (current : s.systemState = .init ∨ ∃ step, s.current = some step) :
    ∃ outcome, screenController readings s = .ok outcome := by
  have shown : ∃ shown, showScreen readings (screenChanges s) s = .ok shown := by
    rcases current with selecting | ⟨step, found⟩
    · simp only [showScreen, selecting]
      exact ⟨_, rfl⟩
    · cases phase : s.systemState with
      | running => exact ⟨_, showScreen_running phase found⟩
      | wait =>
        simp only [showScreen, phase, waitAtStepEnd_eq found]
        split_ifs <;> exact ⟨_, rfl⟩
      | init =>
        simp only [showScreen, phase]
        exact ⟨_, rfl⟩
      | finish =>
        simp only [showScreen, phase]
        exact ⟨_, rfl⟩
  obtain ⟨shown, show_⟩ := shown
  exact ⟨_, bind_eq_ok.mpr ⟨shown, show_, rfl⟩⟩

/-- This iteration asks for the step after the current one. -/
def AsksNext (readings : Readings) (s : State) (step : RecipeStep) : Prop :=
  (s.systemState = .running ∧ Over readings step ∧ step.autoContinue = true) ∨
    (Waits readings s step ∧ SelectAccepted readings s)

/-- A wait that `stepController` leaves is on the step it was given. -/
theorem wait_of_step {readings : Readings} {s : State} {step : RecipeStep} {outcome : Outcome}
    (manual : Manual s) (current : s.current = some step)
    (ran : stepController readings.clock step (sense readings s) = .ok outcome)
    (waiting : outcome.state.systemState = .wait) :
    Waits readings s step ∧ outcome.state = { sense readings s with systemState := .wait } := by
  cases stepController_cases ran with
  | idle inactive => exact absurd (Or.inr waiting) inactive
  | goesOn =>
    refine ⟨Or.inl waiting, ?_⟩
    rw [← waiting]
  | continues active _ auto _ started =>
    have other : (sense readings s).systemState ≠ .wait := by
      intro before
      exact absurd (auto.symm.trans (manual.byHand before current)) (by decide)
    exact absurd waiting (startStep_not_wait other started)
  | waits active due byHand =>
    refine ⟨?_, rfl⟩
    rcases active with running | before
    · exact Or.inr ⟨running, due, byHand⟩
    · exact Or.inl before

/-- What is in the table and asked for is answered. -/
theorem loop_answers {readings : Readings} {s : State} {step : RecipeStep} (manual : Manual s)
    (current : s.current = some step)
    (safe : AsksNext readings s step → ∃ next, following s = some next) :
    ∃ iteration, loop readings s = .ok iteration := by
  have stepSafe : Active s → Over readings step → step.autoContinue = true →
      ∃ next, following s = some next := by
    intro active due auto
    rcases active with running | waiting
    · exact safe (Or.inl ⟨running, due, auto⟩)
    · exact absurd (auto.symm.trans (manual.byHand waiting current)) (by decide)
  obtain ⟨afterStep, ranStep⟩ :=
    stepController_answers readings.clock step (s := sense readings s) stepSafe
  have stepCurrent : ∃ entry, afterStep.state.current = some entry := by
    cases stepController_cases ranStep with
    | idle => exact ⟨step, current⟩
    | goesOn => exact ⟨step, current⟩
    | continues _ _ _ _ started => exact startStep_current started ⟨step, current⟩
    | waits => exact ⟨step, current⟩
  obtain ⟨entry, heaterEntry⟩ := stepCurrent
  have heater := heaterController_state entry afterStep.state
  have heaterCurrent :
      ∃ kept, (heaterController entry afterStep.state).state.current = some kept := by
    rw [heater]
    exact ⟨entry, heaterEntry⟩
  have inputSafe : (heaterController entry afterStep.state).state.systemState = .wait →
      SelectAccepted readings (heaterController entry afterStep.state).state →
        ∃ next, following (heaterController entry afterStep.state).state = some next := by
    intro waiting accepted
    rw [heater] at waiting accepted ⊢
    obtain ⟨found, same⟩ := wait_of_step manual current ranStep waiting
    rw [same] at accepted ⊢
    exact safe (Or.inr ⟨found, accepted⟩)
  obtain ⟨afterInput, ranInput⟩ := inputController_answers readings heaterCurrent inputSafe
  obtain ⟨afterScreen, ranScreen⟩ :=
    screenController_answers readings (inputController_current ranInput heaterCurrent)
  refine ⟨⟨step, afterStep, entry, heaterController entry afterStep.state, afterInput, afterScreen⟩,
    loop_ok_iff.mpr ?_⟩
  exact ⟨current, ranStep, heaterEntry, rfl, ranInput, ranScreen⟩

/-- Select in a wait, whenever it was entered, is a confirmation. -/
theorem confirms_of_waits {readings : Readings} {s : State} {iteration : Iteration}
    (rounded : Rounded readings s iteration) (manual : Manual s)
    (found : Waits readings s iteration.stepArgument) (accepted : SelectAccepted readings s) :
    Confirms iteration := by
  have kept : ¬AutoContinues readings s iteration.stepArgument := by
    intro continues
    rcases found with waiting | ⟨_, _, byHand⟩
    · exact absurd (waiting.symm.trans (manual.running continues)) (by decide)
    · exact absurd (continues.auto.symm.trans byHand) (by decide)
  have heater := congrArg Control.systemState (heater_of_kept rounded kept)
  rw [confirms_iff rounded]
  constructor
  · rcases found with waiting | ⟨running, due, _⟩
    · rw [waiting, ite_self] at heater
      exact heater
    · rw [if_pos ⟨Or.inl running, due⟩] at heater
      exact heater
  · exact (selectAccepted_heater rounded).mpr accepted

/-- An iteration that answers had the step it asked for. -/
theorem following_of_asksNext {readings : Readings} {s : State} {iteration : Iteration}
    (rounded : Rounded readings s iteration) (manual : Manual s)
    (asks : AsksNext readings s iteration.stepArgument) : ∃ next, following s = some next := by
  have started : s.systemState ≠ .init := by
    rcases asks with ⟨running, _⟩ | ⟨waiting | ⟨running, _⟩, _⟩
    · simp [running]
    · simp [waiting]
    · simp [running]
  have confirms : Waits readings s iteration.stepArgument ∧ SelectAccepted readings s →
      Confirms iteration :=
    fun both => confirms_of_waits rounded manual both.1 both.2
  cases loop_moves rounded started manual with
  | rests _ _ unconfirmed calm =>
    rcases asks with ⟨running, due, _⟩ | both
    · exact absurd due (calm running)
    · exact absurd (confirms both) unconfirmed
  | pauses _ _ unconfirmed _ _ byHand =>
    rcases asks with ⟨_, _, auto⟩ | both
    · exact absurd (auto.symm.trans byHand) (by decide)
    · exact absurd (confirms both) unconfirmed
  | continues next _ _ _ _ _ _ asked => exact ⟨next, asked⟩
  | finishes next _ _ _ _ _ _ asked => exact ⟨next, asked⟩
  | confirms next _ _ _ _ asked => exact ⟨next, asked⟩
  | refused next _ _ _ _ asked => exact ⟨next, asked⟩

end ArduMash.Behaviour.Faults
