import ArduMash.Behaviour.ControllerEffects

/-!
`ST_FINISH` is absorbing and cold: once `stepController` returns in it, the
control variables never change again and the relay stays low.
-/

namespace ArduMash.Behaviour.Finish
open Sketch Globals Hardware Screens Controllers Loop ControllerEffects Foundation.RoundMachine

/-- `s` is finished and has the control variables of `done`. -/
structure Settled (done s : State) : Prop where
  finished : s.systemState = .finish
  step : s.currentStep = done.currentStep
  selected : s.currentRecipe = done.currentRecipe
  input : s.lastInput = done.lastInput
  table : s.recipe = done.recipe

/-- Settled, with the heater off. -/
structure Cold (done s : State) : Prop extends Settled done s where
  off : s.heatingState = false
  low : s.relay = .low

theorem settled_step {clock : Clocks Millis} {step : RecipeStep} {done s : State}
    {outcome : Outcome} (settled : Settled done s)
    (ran : stepController clock step s = .ok outcome) : Settled done outcome.state := by
  rw [stepController_idle clock step (not_active_of_finish settled.finished)] at ran
  cases ran
  exact settled

theorem cold_heater (step : RecipeStep) {done s : State} (settled : Settled done s) :
    Cold done (heaterController step s).state := by
  have off : heats step s = false := by simp only [heats, if_pos settled.finished]
  rw [heaterController_state, off]
  exact ⟨⟨settled.finished, settled.step, settled.selected, settled.input, settled.table⟩, rfl, rfl⟩

theorem cold_input {readings : Readings} {done s : State} {outcome : Outcome}
    (cold : Cold done s) (ran : inputController readings s = .ok outcome) :
    Cold done outcome.state := by
  cases inputController_cases ran with
  | ignored => exact cold
  | selects selecting => simp [cold.finished] at selecting
  | begins selecting => simp [cold.finished] at selecting
  | confirms waiting => simp [cold.finished] at waiting

theorem cold_screen {readings : Readings} {done s : State} {outcome : Outcome}
    (cold : Cold done s) (ran : screenController readings s = .ok outcome) :
    Cold done outcome.state := by
  rw [screenController_state ran]
  exact ⟨⟨cold.finished, cold.step, cold.selected, cold.input, cold.table⟩, cold.off, cold.low⟩

/-- The finish is reached inside an iteration, so the rest of that iteration comes first. -/
theorem cold_rest {readings : Readings} {done s : State} {iteration : Iteration}
    (rounded : Rounded readings s iteration) (settled : Settled done iteration.afterStep.state) :
    Cold done iteration.afterHeater.state ∧ Cold done iteration.afterInput.state ∧
      Cold done iteration.final := by
  have heater : Cold done iteration.afterHeater.state := by
    rw [rounded.heater]
    exact cold_heater _ settled
  have input := cold_input heater rounded.input
  exact ⟨heater, input, cold_screen input rounded.screen⟩

theorem settled_iteration {readings : Readings} {done s : State} {iteration : Iteration}
    (rounded : Rounded readings s iteration) (settled : Settled done s) :
    Settled done iteration.afterStep.state := by
  have sensed : Settled done (sense readings s) :=
    ⟨settled.finished, settled.step, settled.selected, settled.input, settled.table⟩
  exact settled_step sensed rounded.step

/-- In the iteration in which `stepController` first returns in `ST_FINISH` and in every later
one, the state after each controller is finished with unchanged control variables, and from the
heater on it is cold. -/
theorem finish_final_and_cold (run : SketchRun) {first : ℕ}
    (finished : (run.record first).afterStep.state.systemState = .finish)
    {n : ℕ} (later : first ≤ n) (inside : n < run.length) :
    Settled (run.record first).afterStep.state (run.record n).afterStep.state ∧
      Cold (run.record first).afterStep.state (run.record n).afterHeater.state ∧
      (run.record n).afterHeater.events = [.digitalWrite .low] ∧
      Cold (run.record first).afterStep.state (run.record n).afterInput.state ∧
      Cold (run.record first).afterStep.state (run.record n).final := by
  have rounded : ∀ k < run.length, Rounded (run.input k) (run.state k) (run.record k) :=
    fun k bound => loop_ok_iff.mp (run.rounds k bound)
  have start : Settled (run.record first).afterStep.state (run.record first).afterStep.state :=
    ⟨finished, rfl, rfl, rfl, rfl⟩
  have settled : Settled (run.record first).afterStep.state (run.record n).afterStep.state := by
    induction n, later using Nat.le_induction with
    | base => exact start
    | succ n later ih =>
      have before := rounded n (by omega)
      have cold := (cold_rest before (ih (by omega))).2.2
      rw [← show run.state (n + 1) = (run.record n).final from run.links n (by omega)] at cold
      exact settled_iteration (rounded (n + 1) inside) cold.toSettled
  obtain ⟨heater, input, screen⟩ := cold_rest (rounded n inside) settled
  refine ⟨settled, heater, ?_, input, screen⟩
  have low := heater.low
  rw [(rounded n inside).heater, heaterController_state] at low
  rw [(rounded n inside).heater, heaterController_events]
  exact congrArg (fun level => [Event.digitalWrite level]) low

theorem finish_final_and_cold_shortBrew :
    (shortBrew.record 1).afterStep.state.systemState = .finish ∧
      Cold (shortBrew.record 1).afterStep.state (shortBrew.record 3).final :=
  ⟨by decide +kernel,
    (finish_final_and_cold shortBrew (by decide +kernel) (show 1 ≤ 3 by decide)
      (by decide)).2.2.2.2⟩

end ArduMash.Behaviour.Finish
