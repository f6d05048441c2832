import ArduMash.Behaviour.Waiting

/-!
What one iteration of `loop` does to the control variables of a started recipe.
There are six moves; every invariant of a brew is one short case analysis over
them.
-/

namespace ArduMash.Behaviour.Moves
open Sketch Globals Hardware Screens Controllers Loop StartStep ControllerEffects Waiting
  Foundation.RoundMachine

/-! The starts of steps. -/

/-- The events tell that `startStep` accepted step `index`. -/
def Accepts (index : Byte) (events : List Event) : Prop :=
  ∃ step, .serial (startingStepLine index step) ∈ events

theorem accepts_beginEvents (s : State) (index : Byte) (step : RecipeStep) :
    Accepts index (beginEvents s index step) :=
  ⟨step, by simp [beginEvents]⟩

theorem not_accepts_nil (index : Byte) : ¬Accepts index [] := by
  simp [Accepts]

theorem not_accepts_endEvents (s : State) (index other : Byte) :
    ¬Accepts other (endEvents s index) := by
  simp [Accepts, endEvents, recipeEndLine, startingStepLine]

/-- The line is printed exactly where `startStep` starts the step it is asked for. -/
theorem accepts_startStep {now : Millis} {index other : Byte} {s : State} {outcome : Outcome}
    (ran : startStep now index s = .ok outcome) :
    Accepts other outcome.events ↔ other = index ∧ s.systemState ≠ .finish ∧
      ∃ step, s.entry index.toNat = some step ∧ step.recipe ≠ 0 := by
  cases startStep_cases ran with
  | ignored done =>
    constructor
    · intro accepted
      exact absurd accepted (not_accepts_nil other)
    · intro ⟨_, active, _⟩
      exact absurd done active
  | recipeEnd _ step asked marker =>
    constructor
    · intro accepted
      exact absurd accepted (not_accepts_endEvents s index other)
    · intro ⟨_, _, found, same, real⟩
      rw [asked] at same
      exact absurd (Option.some.inj same ▸ marker) real
  | begun active step asked real =>
    constructor
    · intro ⟨line, printed⟩
      have number : other.toNat = index.toNat := by
        simp [beginEvents, startingStepLine] at printed
        exact printed.1
      exact ⟨BitVec.eq_of_toNat_eq number, active, step, asked, real⟩
    · intro ⟨same, _⟩
      rw [same]
      exact accepts_beginEvents s index step

/-- A step is started in the iteration. -/
def Starts (iteration : Iteration) : Prop :=
  ∃ index, Accepts index iteration.afterStep.events ∨ Accepts index iteration.afterInput.events

/-! The choice of the recipe. -/

/-- The states that the controllers of an iteration leave. -/
def phases (iteration : Iteration) : List State :=
  [iteration.afterStep.state, iteration.afterHeater.state, iteration.afterInput.state,
    iteration.final]

theorem forall_phases {iteration : Iteration} {holds : State → Prop}
    (step : holds iteration.afterStep.state) (heater : holds iteration.afterHeater.state)
    (input : holds iteration.afterInput.state) (final : holds iteration.final) :
    ∀ after ∈ phases iteration, holds after := by
  intro after member
  simp only [phases, List.mem_cons, List.not_mem_nil, or_false] at member
  rcases member with same | same | same | same
  · exact same ▸ step
  · exact same ▸ heater
  · exact same ▸ input
  · exact same ▸ final

/-- The recipe is chosen, and it is `row`. -/
def Chosen (row : Byte) (s : State) : Prop := s.systemState ≠ .init ∧ s.currentRecipe = row

theorem startStep_chosen {now : Millis} {index row : Byte} {s : State} {outcome : Outcome}
    (chosen : Chosen row s) (ran : startStep now index s = .ok outcome) :
    Chosen row outcome.state := by
  cases startStep_cases ran with
  | ignored => exact chosen
  | recipeEnd => exact ⟨by simp, chosen.2⟩
  | begun => exact chosen

theorem stepController_chosen {clock : Clocks Millis} {step : RecipeStep} {row : Byte} {s : State}
    {outcome : Outcome} (chosen : Chosen row s) (ran : stepController clock step s = .ok outcome) :
    Chosen row outcome.state := by
  cases stepController_cases ran with
  | idle => exact chosen
  | goesOn => exact chosen
  | continues _ _ _ _ started => exact startStep_chosen chosen started
  | waits => exact ⟨by simp, chosen.2⟩

theorem inputController_chosen {readings : Readings} {row : Byte} {s : State} {outcome : Outcome}
    (chosen : Chosen row s) (ran : inputController readings s = .ok outcome) :
    Chosen row outcome.state := by
  cases inputController_cases ran with
  | ignored => exact chosen
  | selects selecting => exact absurd selecting chosen.1
  | begins selecting => exact absurd selecting chosen.1
  | confirms _ _ _ started => exact ⟨by simp, (startStep_chosen chosen started).2⟩

/-- No controller goes back to the selection or changes the recipe. -/
theorem phases_chosen {readings : Readings} {s : State} {iteration : Iteration} {row : Byte}
    (rounded : Rounded readings s iteration) (chosen : Chosen row s) :
    ∀ after ∈ phases iteration, Chosen row after := by
  have step : Chosen row iteration.afterStep.state :=
    stepController_chosen (s := sense readings s) chosen rounded.step
  have heater : Chosen row iteration.afterHeater.state := by
    rw [rounded.heater, heaterController_state]
    exact step
  have input := inputController_chosen heater rounded.input
  have final : Chosen row iteration.final := by
    unfold Iteration.final
    rw [screenController_state rounded.screen]
    exact input
  exact forall_phases step heater input final

theorem heater_started {readings : Readings} {s : State} {iteration : Iteration}
    (rounded : Rounded readings s iteration) (started : s.systemState ≠ .init) :
    iteration.afterHeater.state.systemState ≠ .init := by
  have chosen := phases_chosen rounded (show Chosen s.currentRecipe s from ⟨started, rfl⟩)
  exact (chosen iteration.afterHeater.state (by simp [phases])).1

theorem final_started {readings : Readings} {s : State} {iteration : Iteration}
    (rounded : Rounded readings s iteration) (started : s.systemState ≠ .init) :
    iteration.final.systemState ≠ .init := by
  have chosen := phases_chosen rounded (show Chosen s.currentRecipe s from ⟨started, rfl⟩)
  exact (chosen iteration.final (by simp [phases])).1

/-! The moves. -/

/-- The variables that decide what happens next; readings, heater and screen are left out. -/
structure Control where
  lastInput : Millis
  recipe : RecipeTable
  currentStep : Byte
  currentRecipe : Byte
  systemState : SystemState

def control (s : State) : Control :=
  ⟨s.lastInput, s.recipe, s.currentStep, s.currentRecipe, s.systemState⟩

/-- The control variables after an accepted start of the next step. -/
def advanced (s : State) (now : Millis) : Control where
  lastInput := s.lastInput
  recipe := begunTable s.recipe s.currentRecipe.toNat (s.currentStep + 1).toNat now
  currentStep := s.currentStep + 1
  currentRecipe := s.currentRecipe
  systemState := .running

/-- `inputController` finds the system waiting: it already did, or this iteration's
`stepController` has just found the end of a step that needs the operator. -/
def Waits (readings : Readings) (s : State) (step : RecipeStep) : Prop :=
  s.systemState = .wait ∨
    (s.systemState = .running ∧ Over readings step ∧ step.autoContinue = false)

/-- The confirmation of a wait: `inputController` leaves it. -/
def Confirms (iteration : Iteration) : Prop :=
  iteration.afterHeater.state.systemState = .wait ∧
    iteration.afterInput.state.systemState ≠ .wait

instance (iteration : Iteration) : Decidable (Confirms iteration) :=
  inferInstanceAs (Decidable (_ ∧ _))

inductive Move (readings : Readings) (s : State) (iteration : Iteration) : Prop where
  | rests (quietStep : iteration.afterStep.events = [])
      (quietInput : iteration.afterInput.events = [])
      (unconfirmed : ¬Confirms iteration)
      (calm : s.systemState = .running → ¬Over readings iteration.stepArgument)
      (same : control iteration.final = control s)
  | pauses (quietStep : iteration.afterStep.events = [])
      (quietInput : iteration.afterInput.events = [])
      (unconfirmed : ¬Confirms iteration)
      (running : s.systemState = .running) (due : Over readings iteration.stepArgument)
      (manual : iteration.stepArgument.autoContinue = false)
      (same : control iteration.final = { control s with systemState := .wait })
  | continues (next : RecipeStep)
      (begun : iteration.afterStep.events = beginEvents s (s.currentStep + 1) next)
      (quietInput : iteration.afterInput.events = [])
      (unconfirmed : ¬Confirms iteration)
      (running : s.systemState = .running) (due : Over readings iteration.stepArgument)
      (auto : iteration.stepArgument.autoContinue = true)
      (asked : following s = some next) (real : next.recipe ≠ 0)
      (same : control iteration.final = advanced s readings.clock.autoStart)
  | finishes (next : RecipeStep)
      (ended : iteration.afterStep.events = endEvents s (s.currentStep + 1))
      (quietInput : iteration.afterInput.events = [])
      (unconfirmed : ¬Confirms iteration)
      (running : s.systemState = .running) (due : Over readings iteration.stepArgument)
      (auto : iteration.stepArgument.autoContinue = true)
      (asked : following s = some next) (marker : next.recipe = 0)
      (same : control iteration.final = { control s with systemState := .finish })
  | confirms (next : RecipeStep)
      (quietStep : iteration.afterStep.events = [])
      (begun : iteration.afterInput.events = beginEvents s (s.currentStep + 1) next)
      (found : Waits readings s iteration.stepArgument) (confirmed : Confirms iteration)
      (asked : following s = some next) (real : next.recipe ≠ 0)
      (same : control iteration.final = advanced s readings.clock.selectStart)
  | refused (next : RecipeStep)
      (quietStep : iteration.afterStep.events = [])
      (ended : iteration.afterInput.events = endEvents s (s.currentStep + 1))
      (found : Waits readings s iteration.stepArgument) (confirmed : Confirms iteration)
      (asked : following s = some next) (marker : next.recipe = 0)
      (same : control iteration.final = { control s with systemState := .running })

/-- The entries of the recipe do not depend on the system state. -/
theorem entry_of_control {s next : State} {phase : SystemState}
    (same : control next = { control s with systemState := phase }) (index : ℕ) :
    next.entry index = s.entry index := by
  have sameRow : next.currentRecipe = s.currentRecipe := congrArg Control.currentRecipe same
  have sameTable : next.recipe = s.recipe := congrArg Control.recipe same
  unfold State.entry
  rw [sameTable, sameRow]

section Iteration
variable {readings : Readings} {s : State} {iteration : Iteration}
  (rounded : Rounded readings s iteration)
include rounded

theorem control_heater :
    control iteration.afterHeater.state = control iteration.afterStep.state := by
  rw [rounded.heater, heaterController_state]
  rfl

theorem control_final : control iteration.final = control iteration.afterInput.state := by
  have kept := congrArg control (screenController_state rounded.screen)
  exact kept

theorem control_lastInput : iteration.afterHeater.state.lastInput = s.lastInput := by
  have heater := congrArg Control.lastInput (control_heater rounded)
  have step := congrArg State.lastInput (stepController_frame rounded.step)
  exact heater.trans step

/-- The debounce test of `inputController`, told from the state before the iteration. -/
theorem accepts_heater : accepts readings iteration.afterHeater.state = accepts readings s := by
  unfold accepts
  rw [control_lastInput rounded]

theorem selectAccepted_heater :
    SelectAccepted readings iteration.afterHeater.state ↔ SelectAccepted readings s := by
  unfold SelectAccepted
  rw [accepts_heater rounded]

/-- A wait is left exactly where Select is accepted in it. -/
theorem confirms_iff :
    Confirms iteration ↔ iteration.afterHeater.state.systemState = .wait ∧
      SelectAccepted readings iteration.afterHeater.state := by
  unfold Confirms
  refine and_congr_right fun waiting => ?_
  cases given : iteration.afterInput with
  | mk state events =>
    have ran := rounded.input
    rw [given] at ran
    cases inputController_cases ran with
    | ignored _ unconfirmed =>
      exact iff_of_false (fun left => left waiting) fun accepted => unconfirmed ⟨waiting, accepted⟩
    | selects selecting => exact absurd (waiting.symm.trans selecting) (by decide)
    | begins selecting => exact absurd (waiting.symm.trans selecting) (by decide)
    | confirms _ accepted => exact iff_of_true (fun stays => by cases stays) accepted

/-- Outside the selection only a confirmation is more than a look at the buttons. -/
theorem input_ignored (selecting : iteration.afterHeater.state.systemState ≠ .init)
    (unconfirmed : ¬Confirms iteration) :
    iteration.afterInput = ⟨iteration.afterHeater.state, []⟩ := by
  have ignored := inputController_ignored (fun init => absurd init selecting)
    fun accepted => unconfirmed ((confirms_iff rounded).mpr accepted)
  exact Except.ok.inj (rounded.input.symm.trans ignored)

theorem moves_auto (manual : Manual s)
    (continues : AutoContinues readings s iteration.stepArgument) :
    Move readings s iteration := by
  have running := manual.running continues
  have heater := control_heater rounded
  cases asked : following s with
  | none =>
    have outside := startStep_outside readings.clock.autoStart
      (s := sense readings s) continues.active.not_finish asked
    rw [step_of_autoContinues rounded continues] at outside
    cases outside
  | some next =>
    by_cases marker : next.recipe = 0
    · have ended := step_of_autoEnd rounded continues asked marker
      rw [ended] at heater
      have finished : iteration.afterHeater.state.systemState = .finish :=
        congrArg Control.systemState heater
      have unconfirmed : ¬Confirms iteration :=
        fun confirmed => absurd (confirmed.1.symm.trans finished) (by decide)
      have input := input_ignored rounded (by simp [finished]) unconfirmed
      refine .finishes next (by rw [ended]) (by rw [input]) unconfirmed running continues.due
        continues.auto asked marker ?_
      rw [control_final rounded, input, heater]
      rfl
    · have begun := step_of_autoBegin rounded continues asked marker
      rw [begun] at heater
      have active : iteration.afterHeater.state.systemState = .running :=
        (congrArg Control.systemState heater).trans running
      have unconfirmed : ¬Confirms iteration :=
        fun confirmed => absurd (confirmed.1.symm.trans active) (by decide)
      have input := input_ignored rounded (by simp [active]) unconfirmed
      refine .continues next (by rw [begun]) (by rw [input]) unconfirmed running continues.due
        continues.auto asked marker ?_
      rw [control_final rounded, input, heater]
      unfold control advanced begunState sense
      rw [running]

/-- What `inputController` finds when the step was not continued. -/
theorem heater_of_kept (kept : ¬AutoContinues readings s iteration.stepArgument) :
    control iteration.afterHeater.state = { control s with
      systemState := if Active s ∧ Over readings iteration.stepArgument then .wait
        else s.systemState } := by
  rw [control_heater rounded, (step_of_kept rounded kept).2]
  rfl

/-- In the selection `inputController` finds the state of the iteration before. -/
theorem heater_of_selecting (selecting : s.systemState = .init) :
    control iteration.afterHeater.state = control s := by
  have inactive := not_active_of_init selecting
  have heater := heater_of_kept rounded (fun continues => inactive continues.active)
  rw [if_neg (fun both => inactive both.1)] at heater
  exact heater

theorem byHand_of_kept (kept : ¬AutoContinues readings s iteration.stepArgument)
    (active : Active s) (due : Over readings iteration.stepArgument) :
    iteration.stepArgument.autoContinue = false := by
  cases auto : iteration.stepArgument.autoContinue with
  | false => rfl
  | true => exact absurd ⟨rounded.stepEntry, active, due, auto⟩ kept

theorem waits_of_found (kept : ¬AutoContinues readings s iteration.stepArgument)
    (found : iteration.afterHeater.state.systemState = .wait) :
    Waits readings s iteration.stepArgument := by
  have same := congrArg Control.systemState (heater_of_kept rounded kept)
  rw [show (control iteration.afterHeater.state).systemState = .wait from found] at same
  change SystemState.wait = if _ then _ else _ at same
  split_ifs at same with entered
  · rcases entered.1 with running | waiting
    · exact Or.inr ⟨running, entered.2, byHand_of_kept rounded kept entered.1 entered.2⟩
    · exact Or.inl waiting
  · exact Or.inl same.symm

/-- The wait and the step it is on are all that a confirmation looks at. -/
theorem moves_confirmed (kept : ¬AutoContinues readings s iteration.stepArgument)
    (confirmed : Confirms iteration) : Move readings s iteration := by
  have found := waits_of_found rounded kept confirmed.1
  have heater := heater_of_kept rounded kept
  have sameStep : iteration.afterHeater.state.currentStep = s.currentStep :=
    congrArg Control.currentStep heater
  have sameRow : iteration.afterHeater.state.currentRecipe = s.currentRecipe :=
    congrArg Control.currentRecipe heater
  have sameInput : iteration.afterHeater.state.lastInput = s.lastInput :=
    congrArg Control.lastInput heater
  have sameTable : iteration.afterHeater.state.recipe = s.recipe :=
    congrArg Control.recipe heater
  have sameFollowing := entry_of_control heater
  have quiet := (step_of_kept rounded kept).1
  have final := control_final rounded
  cases given : iteration.afterInput with
  | mk state events =>
    have ran := rounded.input
    rw [given] at ran final
    cases inputController_cases ran with
    | ignored _ unconfirmed => exact absurd ((confirms_iff rounded).mp confirmed) unconfirmed
    | selects init => exact absurd (confirmed.1.symm.trans init) (by decide)
    | begins init => exact absurd (confirmed.1.symm.trans init) (by decide)
    | confirms waiting accepted outcome started =>
      rw [sameStep] at started
      cases startStep_cases started with
      | ignored done => exact absurd (waiting.symm.trans done) (by decide)
      | recipeEnd _ next asked marker =>
        rw [sameFollowing] at asked
        refine .refused next quiet ?_ found confirmed asked marker ?_
        · rw [given]
          simp only [endEvents, sameRow]
        · rw [final]
          simp only [control, sameStep, sameRow, sameTable, sameInput]
      | begun _ next asked real =>
        rw [sameFollowing] at asked
        refine .confirms next quiet ?_ found confirmed asked real ?_
        · rw [given]
          simp only [beginEvents, sameRow]
        · rw [final]
          simp only [control, begunState, advanced, sameRow, sameTable, sameInput]

theorem moves_unconfirmed (started : s.systemState ≠ .init)
    (kept : ¬AutoContinues readings s iteration.stepArgument)
    (unconfirmed : ¬Confirms iteration) : Move readings s iteration := by
  have quiet := (step_of_kept rounded kept).1
  have heater := heater_of_kept rounded kept
  have heaterStarted := heater_started rounded started
  have input := input_ignored rounded heaterStarted unconfirmed
  have final : control iteration.final = control iteration.afterHeater.state := by
    rw [control_final rounded, input]
  rw [heater] at final
  by_cases entered : Active s ∧ Over readings iteration.stepArgument
  · rw [if_pos entered] at final
    rcases entered.1 with running | waiting
    · exact .pauses quiet (by rw [input]) unconfirmed running entered.2
        (byHand_of_kept rounded kept entered.1 entered.2) final
    · refine .rests quiet (by rw [input]) unconfirmed ?_ ?_
      · intro running
        exact absurd (running.symm.trans waiting) (by decide)
      · rw [final, ← waiting]
        rfl
  · rw [if_neg entered] at final
    exact .rests quiet (by rw [input]) unconfirmed
      (fun running due => entered ⟨Or.inl running, due⟩) final

/-- Every iteration of a started recipe is one of the six moves. -/
theorem loop_moves (started : s.systemState ≠ .init) (manual : Manual s) :
    Move readings s iteration := by
  by_cases continues : AutoContinues readings s iteration.stepArgument
  · exact moves_auto rounded manual continues
  · by_cases confirmed : Confirms iteration
    · exact moves_confirmed rounded continues confirmed
    · exact moves_unconfirmed rounded started continues confirmed

end Iteration

end ArduMash.Behaviour.Moves
