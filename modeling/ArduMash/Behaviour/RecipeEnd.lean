import ArduMash.Behaviour.Finish

/-!
The end of the recipe. `startStep` sets `ST_FINISH` when it meets a step of
recipe 0 and says so on the serial line; the decision survives the iteration
exactly if the call came from `stepController`.
-/

namespace ArduMash.Behaviour.RecipeEnd
open Sketch Globals Hardware Screens Controllers Loop StartStep ControllerEffects Finish
  Foundation.RoundMachine

/-- `startStep` has met the end of the recipe. -/
def endMet : Event := .serial recipeEndLine

theorem endMet_endEvents (s : State) (index : Byte) : endMet ∈ endEvents s index := by
  simp [endMet, endEvents]

theorem endMet_beginEvents (s : State) (index : Byte) (step : RecipeStep) :
    endMet ∉ beginEvents s index step := by
  simp [endMet, beginEvents, recipeEndLine, startingStepLine]

/-- The serial line is printed exactly where `startStep` decides on the finish. -/
theorem endMet_startStep {now : Millis} {index : Byte} {s : State} {outcome : Outcome}
    (ran : startStep now index s = .ok outcome) :
    endMet ∈ outcome.events ↔ s.systemState ≠ .finish ∧
      ∃ step, s.entry index.toNat = some step ∧ step.recipe = 0 := by
  cases startStep_cases ran with
  | ignored done =>
    constructor
    · intro member
      cases member
    · intro ⟨active, _⟩
      exact absurd done active
  | recipeEnd active step asked marker =>
    exact ⟨fun _ => ⟨active, step, asked, marker⟩, fun _ => endMet_endEvents s index⟩
  | begun active step asked real =>
    constructor
    · intro member
      exact absurd member (endMet_beginEvents s index step)
    · intro ⟨_, other, found, marker⟩
      rw [asked] at found
      exact absurd (Option.some.inj found ▸ marker) real

theorem endMet_heater (step : RecipeStep) (s : State) :
    endMet ∉ (heaterController step s).events := by
  rw [heaterController_events]
  simp [endMet]

theorem endMet_draw (ops : List LcdOp) : endMet ∉ draw ops := by
  simp [endMet, draw]

theorem endMet_showScreen {readings : Readings} {changed : Bool} {s : State} {outcome : Outcome}
    (ran : showScreen readings changed s = .ok outcome) : endMet ∉ outcome.events := by
  unfold showScreen at ran
  cases phase : s.systemState with
  | init =>
    simp only [phase] at ran
    cases ran
    cases changed <;> simp [endMet, recipeEndLine, initScreen, draw]
  | running =>
    simp only [phase] at ran
    obtain ⟨step, _, rest⟩ := bind_eq_ok.mp ran
    cases rest
    simp [endMet, displayStatusScreen, draw]
  | finish =>
    simp only [phase] at ran
    cases ran
    cases changed <;> simp [endMet, recipeEndLine, finishScreen, draw]
  | wait =>
    simp only [phase] at ran
    cases changed with
    | true =>
      obtain ⟨step, _, rest⟩ := bind_eq_ok.mp ran
      cases rest
      simp [endMet, recipeEndLine, draw]
    | false =>
      cases ran
      simp

theorem endMet_screen {readings : Readings} {s : State} {outcome : Outcome}
    (ran : screenController readings s = .ok outcome) : endMet ∉ outcome.events := by
  obtain ⟨shown, show_, _, events⟩ := screenController_ok ran
  rw [events, List.mem_append, not_or]
  refine ⟨?_, endMet_showScreen show_⟩
  cases screenChanges s with
  | true => exact endMet_draw _
  | false => simp

/-- Only the two controllers that call `startStep` can meet the end. -/
theorem endMet_iteration {readings : Readings} {s : State} {iteration : Iteration}
    (rounded : Rounded readings s iteration) :
    endMet ∈ iteration.events s ↔
      endMet ∈ iteration.afterStep.events ∨ endMet ∈ iteration.afterInput.events := by
  have heater := endMet_heater iteration.heaterArgument iteration.afterStep.state
  rw [← rounded.heater] at heater
  have screen := endMet_screen rounded.screen
  simp only [Iteration.events, List.mem_append, heater, screen, or_false]
  simp [endMet]

/-- `inputController` overwrites the decision in the same call. -/
theorem input_resumes {readings : Readings} {s : State} {outcome : Outcome}
    (ran : inputController readings s = .ok outcome) (met : endMet ∈ outcome.events) :
    s.systemState ≠ .finish ∧ outcome.state.systemState = .running := by
  cases inputController_cases ran with
  | ignored => cases met
  | selects => cases met
  | begins selecting => exact ⟨by simp [selecting], rfl⟩
  | confirms waiting => exact ⟨by simp [waiting], rfl⟩

theorem final_systemState {readings : Readings} {s : State} {iteration : Iteration}
    (rounded : Rounded readings s iteration) :
    iteration.final.systemState = iteration.afterInput.state.systemState := by
  have kept := congrArg State.systemState (screenController_state rounded.screen)
  exact kept

/-- The current step auto-continues in this iteration, into the end of the recipe. -/
def AutoFinishes (readings : Readings) (s : State) : Prop :=
  ∃ step next, AutoContinues readings s step ∧ following s = some next ∧ next.recipe = 0

theorem autoFinishes_final {readings : Readings} {s : State} {iteration : Iteration}
    (rounded : Rounded readings s iteration) (finishes : AutoFinishes readings s) :
    iteration.afterStep.state.systemState = .finish ∧ iteration.final.systemState = .finish := by
  obtain ⟨step, next, continues, asked, marker⟩ := finishes
  have ended := step_of_autoEnd rounded continues asked marker
  have finished : iteration.afterStep.state.systemState = .finish := by rw [ended]
  exact ⟨finished, (cold_rest rounded ⟨finished, rfl, rfl, rfl, rfl⟩).2.2.finished⟩

theorem autoFinishes_of_endMet {readings : Readings} {s : State} {iteration : Iteration}
    (rounded : Rounded readings s iteration) (met : endMet ∈ iteration.afterStep.events) :
    AutoFinishes readings s := by
  by_cases continues : AutoContinues readings s iteration.stepArgument
  · have started := step_of_autoContinues rounded continues
    obtain ⟨_, next, asked, marker⟩ := (endMet_startStep started).mp met
    exact ⟨iteration.stepArgument, next, continues, asked, marker⟩
  · rw [(step_of_kept rounded continues).1] at met
    cases met

/-- An end met in an iteration of `loop` is still the state when it returns exactly if
`stepController` met it by auto-continuing. -/
theorem end_kept_iff {readings : Readings} {s : State} {iteration : Iteration}
    (ran : loop readings s = .ok iteration) (met : endMet ∈ iteration.events s) :
    iteration.final.systemState = .finish ↔ AutoFinishes readings s := by
  have rounded := loop_ok_iff.mp ran
  constructor
  · intro kept
    rcases (endMet_iteration rounded).mp met with step | input
    · exact autoFinishes_of_endMet rounded step
    · have resumed := (input_resumes rounded.input input).2
      rw [final_systemState rounded, resumed] at kept
      cases kept
  · intro finishes
    exact (autoFinishes_final rounded finishes).2

theorem end_kept_shortBrew :
    (shortBrew.record 1).final.systemState = .finish ↔
      AutoFinishes (shortBrew.input 1) (shortBrew.state 1) :=
  end_kept_iff (shortBrew.rounds 1 (by decide)) (by decide +kernel)

/-- The recipe of `setup`: right selects step 8, Select starts it and confirms it. -/
def lastConfirm : SketchRun :=
  sketch.follow (fun n => readingsAt 12800 (if n < 8 then 0 else 700)
    (BitVec.ofNat 32 (1000 * (n + 1)))) setup 10 (by decide +kernel)

/-- Confirming the last step of the recipe loses the finish. -/
theorem confirmed_end_lost :
    ¬∀ (readings : Readings) (s : State) (iteration : Iteration),
      loop readings s = .ok iteration → endMet ∈ iteration.events s →
        iteration.final.systemState = .finish := by
  intro kept
  have finished := kept _ _ _ (lastConfirm.rounds 9 (by decide)) (by decide +kernel)
  exact absurd finished (by decide +kernel)

end ArduMash.Behaviour.RecipeEnd
