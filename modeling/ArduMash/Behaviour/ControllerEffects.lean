import ArduMash.Behaviour.StartStep

/-!
What each controller and one iteration of `loop` can do, said once. Every later
result goes through the case lemmas here and never unfolds a controller.
-/

namespace ArduMash.Behaviour.ControllerEffects
open Sketch Globals Hardware Screens Controllers Loop StartStep Foundation.RoundMachine

/-! `stepController`. -/

/-- The states in which `stepController` looks at the step. -/
def Active (s : State) : Prop := s.systemState = .running ∨ s.systemState = .wait

instance (s : State) : Decidable (Active s) := inferInstanceAs (Decidable (_ ∨ _))

theorem active_iff (s : State) :
    Active s ↔ ¬(s.systemState = .finish ∨ s.systemState = .init) := by
  unfold Active
  cases s.systemState <;> simp

theorem Active.not_finish {s : State} (active : Active s) : s.systemState ≠ .finish := by
  intro finished
  rcases active with running | waiting
  · exact absurd (running.symm.trans finished) (by decide)
  · exact absurd (waiting.symm.trans finished) (by decide)

theorem not_active_of_finish {s : State} (finished : s.systemState = .finish) : ¬Active s := by
  simp [Active, finished]

theorem not_active_of_init {s : State} (selecting : s.systemState = .init) : ¬Active s := by
  simp [Active, selecting]

inductive StepCases (clock : Clocks Millis) (step : RecipeStep) (s : State) : Outcome → Prop where
  | idle (inactive : ¬Active s) : StepCases clock step s ⟨s, []⟩
  | goesOn (active : Active s) (open_ : endNotReached clock.step s.tempC step = true) :
      StepCases clock step s ⟨s, []⟩
  | continues (active : Active s) (due : endNotReached clock.step s.tempC step = false)
      (auto : step.autoContinue = true) (outcome : Outcome)
      (started : startStep clock.autoStart (s.currentStep + 1) s = .ok outcome) :
      StepCases clock step s outcome
  | waits (active : Active s) (due : endNotReached clock.step s.tempC step = false)
      (manual : step.autoContinue = false) :
      StepCases clock step s ⟨{ s with systemState := .wait }, []⟩

theorem stepController_idle (clock : Clocks Millis) (step : RecipeStep) {s : State}
    (inactive : ¬Active s) : stepController clock step s = .ok ⟨s, []⟩ := by
  rw [active_iff, not_not] at inactive
  simp only [stepController, if_pos inactive]

theorem stepController_goesOn {clock : Clocks Millis} {step : RecipeStep} {s : State}
    (open_ : endNotReached clock.step s.tempC step = true) :
    stepController clock step s = .ok ⟨s, []⟩ := by
  simp only [stepController, open_, if_true, ite_self]

theorem stepController_continues {clock : Clocks Millis} {step : RecipeStep} {s : State}
    (active : Active s) (due : endNotReached clock.step s.tempC step = false)
    (auto : step.autoContinue = true) :
    stepController clock step s = startStep clock.autoStart (s.currentStep + 1) s := by
  rw [active_iff] at active
  simp only [stepController, if_neg active, due, auto, Bool.false_eq_true, if_false, if_true]

theorem stepController_waits {clock : Clocks Millis} {step : RecipeStep} {s : State}
    (active : Active s) (due : endNotReached clock.step s.tempC step = false)
    (manual : step.autoContinue = false) :
    stepController clock step s = .ok ⟨{ s with systemState := .wait }, []⟩ := by
  rw [active_iff] at active
  simp only [stepController, if_neg active, due, manual, Bool.false_eq_true, if_false]

theorem stepController_cases {clock : Clocks Millis} {step : RecipeStep} {s : State}
    {outcome : Outcome} (ran : stepController clock step s = .ok outcome) :
    StepCases clock step s outcome := by
  by_cases active : Active s
  · cases due : endNotReached clock.step s.tempC step with
    | true =>
      rw [stepController_goesOn due] at ran
      cases ran
      exact .goesOn active due
    | false =>
      cases auto : step.autoContinue with
      | true =>
        rw [stepController_continues active due auto] at ran
        exact .continues active due auto outcome ran
      | false =>
        rw [stepController_waits active due auto] at ran
        cases ran
        exact .waits active due auto
  · rw [stepController_idle clock step active] at ran
    cases ran
    exact .idle active

theorem stepController_frame {clock : Clocks Millis} {step : RecipeStep} {s : State}
    {outcome : Outcome} (ran : stepController clock step s = .ok outcome) :
    outcome.state = { s with
      currentStep := outcome.state.currentStep
      recipe := outcome.state.recipe
      systemState := outcome.state.systemState } := by
  cases stepController_cases ran with
  | idle => rfl
  | goesOn => rfl
  | continues _ _ _ _ started => exact startStep_frame started
  | waits => rfl

/-! `heaterController`. -/

/-- The heating state the controller leaves, finish override included. -/
def heats (step : RecipeStep) (s : State) : Bool :=
  if s.systemState = .finish then false else heating step s

def levelOf (on : Bool) : Level := if on then .high else .low

theorem heaterController_state (step : RecipeStep) (s : State) :
    (heaterController step s).state =
      { s with heatingState := heats step s, relay := levelOf (heats step s) } := by
  by_cases done : s.systemState = .finish
  · simp only [heaterController, heats, levelOf, if_pos done, Bool.false_eq_true, if_false]
  · simp only [heaterController, heats, levelOf, if_neg done]

theorem heaterController_events (step : RecipeStep) (s : State) :
    (heaterController step s).events = [.digitalWrite (levelOf (heats step s))] := by
  by_cases done : s.systemState = .finish
  · simp only [heaterController, heats, levelOf, if_pos done, Bool.false_eq_true, if_false]
  · simp only [heaterController, heats, levelOf, if_neg done]

/-! `inputController`. -/

/-- Select is read and the debounce test passed. -/
def SelectAccepted (readings : Readings) (s : State) : Prop :=
  accepts readings s = true ∧ readLCDButtons readings.adcKeyIn = .select

instance (readings : Readings) (s : State) : Decidable (SelectAccepted readings s) :=
  inferInstanceAs (Decidable (_ ∧ _))

inductive InputCases (readings : Readings) (s : State) : Outcome → Prop where
  | ignored (quiet : s.systemState = .init → accepts readings s = false)
      (unconfirmed : ¬(s.systemState = .wait ∧ SelectAccepted readings s)) :
      InputCases readings s ⟨s, []⟩
  | selects (selecting : s.systemState = .init) (accepted : accepts readings s = true)
      (other : readLCDButtons readings.adcKeyIn ≠ .select) :
      InputCases readings s
        ⟨selectionButtons (readLCDButtons readings.adcKeyIn) readings.clock.stamp s, []⟩
  | begins (selecting : s.systemState = .init) (accepted : SelectAccepted readings s)
      (outcome : Outcome)
      (started : startStep readings.clock.selectStart s.currentStep s = .ok outcome) :
      InputCases readings s
        ⟨{ outcome.state with systemState := .running, lastInput := readings.clock.stamp },
          outcome.events ++ draw [.clear]⟩
  | confirms (waiting : s.systemState = .wait) (accepted : SelectAccepted readings s)
      (outcome : Outcome)
      (started : startStep readings.clock.selectStart (s.currentStep + 1) s = .ok outcome) :
      InputCases readings s ⟨{ outcome.state with systemState := .running }, outcome.events⟩

theorem selectionButtons_select (now : Millis) (s : State) :
    selectionButtons .select now s = s := by
  simp only [selectionButtons, reduceCtorEq, false_and, if_false]

theorem inputController_cases {readings : Readings} {s : State} {outcome : Outcome}
    (ran : inputController readings s = .ok outcome) : InputCases readings s outcome := by
  cases accepted : accepts readings s with
  | false =>
    simp only [inputController, accepted, Bool.false_eq_true, if_false] at ran
    cases ran
    exact .ignored (fun _ => accepted)
      (fun confirmed => by simp [SelectAccepted, accepted] at confirmed)
  | true =>
    simp only [inputController, accepted, if_true] at ran
    cases phase : s.systemState with
    | init =>
      simp only [phase] at ran
      by_cases select : readLCDButtons readings.adcKeyIn = .select
      · rw [if_pos select, select, selectionButtons_select] at ran
        obtain ⟨started, start, rest⟩ := bind_eq_ok.mp ran
        cases rest
        exact .begins phase ⟨accepted, select⟩ started start
      · rw [if_neg select] at ran
        cases ran
        exact .selects phase accepted select
    | running =>
      simp only [phase] at ran
      cases ran
      exact .ignored (fun selecting => by simp [phase] at selecting)
        (fun confirmed => by simp [phase] at confirmed)
    | finish =>
      simp only [phase] at ran
      cases ran
      exact .ignored (fun selecting => by simp [phase] at selecting)
        (fun confirmed => by simp [phase] at confirmed)
    | wait =>
      simp only [phase] at ran
      by_cases select : readLCDButtons readings.adcKeyIn = .select
      · rw [if_pos select] at ran
        obtain ⟨started, start, rest⟩ := bind_eq_ok.mp ran
        cases rest
        exact .confirms phase ⟨accepted, select⟩ started start
      · rw [if_neg select] at ran
        cases ran
        exact .ignored (fun selecting => by simp [phase] at selecting)
          (fun confirmed => select confirmed.2.2)

theorem inputController_ignored {readings : Readings} {s : State}
    (quiet : s.systemState = .init → accepts readings s = false)
    (unconfirmed : ¬(s.systemState = .wait ∧ SelectAccepted readings s)) :
    inputController readings s = .ok ⟨s, []⟩ := by
  cases accepted : accepts readings s with
  | false => simp only [inputController, accepted, Bool.false_eq_true, if_false]
  | true =>
    simp only [inputController, accepted, if_true]
    cases phase : s.systemState with
    | init => exact absurd ((quiet phase).symm.trans accepted) (by decide)
    | running => rfl
    | finish => rfl
    | wait =>
      have other : readLCDButtons readings.adcKeyIn ≠ .select :=
        fun select => unconfirmed ⟨phase, accepted, select⟩
      simp only [if_neg other]

theorem inputController_selects {readings : Readings} {s : State}
    (selecting : s.systemState = .init) (accepted : accepts readings s = true)
    (other : readLCDButtons readings.adcKeyIn ≠ .select) :
    inputController readings s =
      .ok ⟨selectionButtons (readLCDButtons readings.adcKeyIn) readings.clock.stamp s, []⟩ := by
  simp only [inputController, accepted, if_true, selecting, if_neg other]

theorem inputController_begins {readings : Readings} {s : State} {outcome : Outcome}
    (selecting : s.systemState = .init) (accepted : SelectAccepted readings s)
    (started : startStep readings.clock.selectStart s.currentStep s = .ok outcome) :
    inputController readings s =
      .ok ⟨{ outcome.state with systemState := .running, lastInput := readings.clock.stamp },
        outcome.events ++ draw [.clear]⟩ := by
  simp only [inputController, accepted.1, if_true, selecting, accepted.2, selectionButtons_select,
    started, bind, Except.bind]

theorem inputController_confirms {readings : Readings} {s : State} {outcome : Outcome}
    (waiting : s.systemState = .wait) (accepted : SelectAccepted readings s)
    (started : startStep readings.clock.selectStart (s.currentStep + 1) s = .ok outcome) :
    inputController readings s =
      .ok ⟨{ outcome.state with systemState := .running }, outcome.events⟩ := by
  simp only [inputController, accepted.1, if_true, waiting, accepted.2, started, bind, Except.bind]

theorem selectionButtons_frame (key : Button) (now : Millis) (s : State) :
    selectionButtons key now s = { s with
      currentStep := (selectionButtons key now s).currentStep
      currentRecipe := (selectionButtons key now s).currentRecipe
      lastInput := (selectionButtons key now s).lastInput } := by
  unfold selectionButtons
  dsimp only
  split_ifs <;> rfl

theorem inputController_frame {readings : Readings} {s : State} {outcome : Outcome}
    (ran : inputController readings s = .ok outcome) :
    outcome.state = { s with
      currentStep := outcome.state.currentStep
      currentRecipe := outcome.state.currentRecipe
      lastInput := outcome.state.lastInput
      recipe := outcome.state.recipe
      systemState := outcome.state.systemState } := by
  cases inputController_cases ran with
  | ignored => rfl
  | selects => rw [selectionButtons_frame]
  | begins _ _ _ started => rw [startStep_frame started]
  | confirms _ _ _ started => rw [startStep_frame started]

/-! `screenController`. -/

def screenChanges (s : State) : Bool := s.lastSystemState ≠ some s.systemState

/-- Only the status screen takes a reading of its own. -/
def screenTemp (readings : Readings) (s : State) : ℚ :=
  if s.systemState = .running then getTempC readings.screenProbe else s.tempC

theorem waitAtStepEnd_eq {s : State} {step : RecipeStep} (current : s.current = some step) :
    waitAtStepEnd s = .ok ⟨s, .recipeRead s.currentRecipe.toNat s.currentStep.toNat ::
      .serial [.message (getMessage step.messageNo)] :: draw (promptOps step)⟩ := by
  have read := (readRecipe_eq_ok (s := s)).mpr current
  simp only [waitAtStepEnd, read, bind, Except.bind]

theorem waitAtStepEnd_state {s : State} {outcome : Outcome} (ran : waitAtStepEnd s = .ok outcome) :
    outcome.state = s := by
  obtain ⟨step, read, rest⟩ := bind_eq_ok.mp ran
  cases rest
  rfl

theorem showScreen_other {readings : Readings} {changed : Bool} {s : State} {outcome : Outcome}
    (other : s.systemState ≠ .running) (ran : showScreen readings changed s = .ok outcome) :
    outcome.state = s := by
  cases phase : s.systemState with
  | running => exact absurd phase other
  | init =>
    simp only [showScreen, phase] at ran
    cases ran
    rfl
  | finish =>
    simp only [showScreen, phase] at ran
    cases ran
    rfl
  | wait =>
    simp only [showScreen, phase] at ran
    cases changed with
    | true => exact waitAtStepEnd_state ran
    | false =>
      cases ran
      rfl

theorem showScreen_running {readings : Readings} {changed : Bool} {s : State} {step : RecipeStep}
    (phase : s.systemState = .running) (current : s.current = some step) :
    showScreen readings changed s =
      .ok ⟨{ s with tempC := getTempC readings.screenProbe },
        .recipeRead s.currentRecipe.toNat s.currentStep.toNat ::
          draw (statusOps (getTempC readings.screenProbe) s.heatingState readings.clock.screen
            step)⟩ := by
  have read := (readRecipe_eq_ok (s := s)).mpr current
  simp only [showScreen, phase, read, bind, Except.bind, displayStatusScreen]

theorem showScreen_state {readings : Readings} {changed : Bool} {s : State} {outcome : Outcome}
    (ran : showScreen readings changed s = .ok outcome) :
    outcome.state = { s with tempC := screenTemp readings s } := by
  by_cases phase : s.systemState = .running
  · have reads := ran
    simp only [showScreen, phase] at reads
    obtain ⟨step, read, _⟩ := bind_eq_ok.mp reads
    rw [showScreen_running phase (readRecipe_eq_ok.mp read)] at ran
    cases ran
    simp only [screenTemp, if_pos phase]
  · rw [showScreen_other phase ran]
    simp only [screenTemp, if_neg phase]

theorem screenController_ok {readings : Readings} {s : State} {outcome : Outcome}
    (ran : screenController readings s = .ok outcome) :
    ∃ shown, showScreen readings (screenChanges s) s = .ok shown ∧
      outcome.state =
        { s with tempC := screenTemp readings s, lastSystemState := some s.systemState } ∧
      outcome.events = (if screenChanges s then draw [.clear] else []) ++ shown.events := by
  obtain ⟨shown, show_, rest⟩ := bind_eq_ok.mp ran
  cases rest
  refine ⟨shown, show_, ?_, rfl⟩
  rw [showScreen_state show_]

theorem screenController_state {readings : Readings} {s : State} {outcome : Outcome}
    (ran : screenController readings s = .ok outcome) :
    outcome.state =
      { s with tempC := screenTemp readings s, lastSystemState := some s.systemState } := by
  obtain ⟨_, _, same, _⟩ := screenController_ok ran
  exact same

/-! One iteration of `loop`. -/

structure Rounded (readings : Readings) (s : State) (iteration : Iteration) : Prop where
  stepEntry : s.current = some iteration.stepArgument
  step : stepController readings.clock iteration.stepArgument (sense readings s) =
    .ok iteration.afterStep
  heaterEntry : iteration.afterStep.state.current = some iteration.heaterArgument
  heater : iteration.afterHeater =
    heaterController iteration.heaterArgument iteration.afterStep.state
  input : inputController readings iteration.afterHeater.state = .ok iteration.afterInput
  screen : screenController readings iteration.afterInput.state = .ok iteration.afterScreen

theorem loop_ok_iff {readings : Readings} {s : State} {iteration : Iteration} :
    loop readings s = .ok iteration ↔ Rounded readings s iteration := by
  constructor
  · intro ran
    obtain ⟨stepArgument, stepRead, ran⟩ := bind_eq_ok.mp ran
    obtain ⟨afterStep, step, ran⟩ := bind_eq_ok.mp ran
    obtain ⟨heaterArgument, heaterRead, ran⟩ := bind_eq_ok.mp ran
    obtain ⟨afterInput, input, ran⟩ := bind_eq_ok.mp ran
    obtain ⟨afterScreen, screen, ran⟩ := bind_eq_ok.mp ran
    cases ran
    exact ⟨readRecipe_eq_ok.mp stepRead, step, readRecipe_eq_ok.mp heaterRead, rfl, input, screen⟩
  · intro ⟨stepEntry, step, heaterEntry, heater, input, screen⟩
    refine bind_eq_ok.mpr ⟨_, readRecipe_eq_ok.mpr stepEntry, ?_⟩
    refine bind_eq_ok.mpr ⟨_, step, ?_⟩
    refine bind_eq_ok.mpr ⟨_, readRecipe_eq_ok.mpr heaterEntry, ?_⟩
    rw [heater] at input
    refine bind_eq_ok.mpr ⟨_, input, ?_⟩
    refine bind_eq_ok.mpr ⟨_, screen, ?_⟩
    rw [← heater]

/-! The step that `stepController` leaves current, told from the state before the iteration. -/

/-- The end condition of `step` holds for the clock and the reading of this iteration. -/
def Over (readings : Readings) (step : RecipeStep) : Prop :=
  endNotReached readings.clock.step (getTempC readings.probe) step = false

instance (readings : Readings) (step : RecipeStep) : Decidable (Over readings step) :=
  inferInstanceAs (Decidable (_ = _))

/-- `stepController` auto-continues in this iteration. -/
structure AutoContinues (readings : Readings) (s : State) (step : RecipeStep) : Prop where
  current : s.current = some step
  active : Active s
  due : Over readings step
  auto : step.autoContinue = true

/-- The step after the current one. -/
def following (s : State) : Option RecipeStep := s.entry (s.currentStep + 1).toNat

theorem step_of_autoContinues {readings : Readings} {s : State} {iteration : Iteration}
    {step : RecipeStep} (rounded : Rounded readings s iteration)
    (continues : AutoContinues readings s step) :
    startStep readings.clock.autoStart (s.currentStep + 1) (sense readings s) =
      .ok iteration.afterStep := by
  have same : iteration.stepArgument = step :=
    Option.some.inj (rounded.stepEntry.symm.trans continues.current)
  have ran := rounded.step
  rw [same] at ran
  exact (stepController_continues (s := sense readings s) continues.active continues.due
    continues.auto).symm.trans ran

theorem step_of_autoEnd {readings : Readings} {s : State} {iteration : Iteration}
    {step next : RecipeStep} (rounded : Rounded readings s iteration)
    (continues : AutoContinues readings s step) (asked : following s = some next)
    (marker : next.recipe = 0) :
    iteration.afterStep = ⟨{ sense readings s with systemState := .finish },
      endEvents s (s.currentStep + 1)⟩ := by
  have active : (sense readings s).systemState ≠ .finish := continues.active.not_finish
  have ran := step_of_autoContinues rounded continues
  rw [startStep_recipeEnd _ active asked marker] at ran
  exact (Except.ok.inj ran).symm

theorem step_of_autoBegin {readings : Readings} {s : State} {iteration : Iteration}
    {step next : RecipeStep} (rounded : Rounded readings s iteration)
    (continues : AutoContinues readings s step) (asked : following s = some next)
    (real : next.recipe ≠ 0) :
    iteration.afterStep =
      ⟨begunState (sense readings s) readings.clock.autoStart (s.currentStep + 1),
        beginEvents s (s.currentStep + 1) next⟩ := by
  have active : (sense readings s).systemState ≠ .finish := continues.active.not_finish
  have ran := step_of_autoContinues rounded continues
  rw [startStep_begun _ active asked real] at ran
  exact (Except.ok.inj ran).symm

/-- Without auto-continuation `stepController` can only enter the wait. -/
theorem step_of_kept {readings : Readings} {s : State} {iteration : Iteration}
    (rounded : Rounded readings s iteration)
    (kept : ¬AutoContinues readings s iteration.stepArgument) :
    iteration.afterStep.events = [] ∧
      iteration.afterStep.state = { sense readings s with
        systemState := if Active s ∧ Over readings iteration.stepArgument then .wait
          else s.systemState } := by
  cases given : iteration.afterStep with
  | mk state events =>
    have ran := rounded.step
    rw [given] at ran
    cases stepController_cases ran with
    | idle inactive =>
      rw [if_neg (fun both => inactive both.1)]
      exact ⟨rfl, rfl⟩
    | goesOn active open_ =>
      have notOver : ¬Over readings iteration.stepArgument := by
        unfold Over
        intro due
        exact absurd (open_.symm.trans due) (by decide)
      rw [if_neg (fun both => notOver both.2)]
      exact ⟨rfl, rfl⟩
    | continues active due auto =>
      exact absurd ⟨rounded.stepEntry, active, due, auto⟩ kept
    | waits active due =>
      rw [if_pos ⟨active, due⟩]
      exact ⟨rfl, rfl⟩

end ArduMash.Behaviour.ControllerEffects
