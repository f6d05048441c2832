import ArduMash.Behaviour.ControllerEffects

/-!
What does not reach the brew. The screen's own reading of the probe and the
buttons outside the selection and the wait leave every later decision as it is.
-/

namespace ArduMash.Behaviour.Interference
open Sketch Globals Hardware Screens Controllers Loop StartStep ControllerEffects
  Foundation.RoundMachine

/-- The states agree on everything but the temperature. -/
def UpToTemp (s other : State) : Prop := other = { s with tempC := other.tempC }

/-- `inputController` looks at the buttons in the selection and in the wait only. -/
theorem inputController_of_buttons {readings other : Readings} {s : State}
    (clock : other.clock = readings.clock)
    (buttons : s.systemState = .init ∨ s.systemState = .wait →
      readLCDButtons other.adcKeyIn = readLCDButtons readings.adcKeyIn) :
    inputController other s = inputController readings s := by
  have guard : accepts other s = accepts readings s := by
    unfold accepts
    rw [clock]
  unfold inputController
  rw [guard, clock]
  cases phase : s.systemState with
  | init => rw [buttons (Or.inl phase)]
  | wait => rw [buttons (Or.inr phase)]
  | running => rfl
  | finish => rfl

section Iteration
variable {readings otherReadings : Readings} {s otherState : State} {iteration other : Iteration}

/-- The reading that `loop` takes replaces whatever the screen has left. -/
theorem sense_upToTemp (agree : UpToTemp s otherState)
    (probe : getTempC otherReadings.probe = getTempC readings.probe) :
    sense otherReadings otherState = sense readings s := by
  rw [agree]
  unfold sense
  rw [probe]

theorem afterHeater_upToTemp (rounded : Rounded readings s iteration)
    (otherRounded : Rounded otherReadings otherState other) (agree : UpToTemp s otherState)
    (clock : otherReadings.clock = readings.clock)
    (probe : getTempC otherReadings.probe = getTempC readings.probe) :
    other.afterHeater = iteration.afterHeater := by
  have sensed := sense_upToTemp agree probe
  have current : otherState.current = s.current := by
    rw [agree]
    rfl
  have argument : other.stepArgument = iteration.stepArgument := by
    have found := otherRounded.stepEntry
    rw [current, rounded.stepEntry] at found
    exact (Option.some.inj found).symm
  have step : other.afterStep = iteration.afterStep := by
    have ran := otherRounded.step
    rw [argument, clock, sensed, rounded.step] at ran
    exact (Except.ok.inj ran).symm
  have heated : other.heaterArgument = iteration.heaterArgument := by
    have found := otherRounded.heaterEntry
    rw [step, rounded.heaterEntry] at found
    exact (Option.some.inj found).symm
  rw [otherRounded.heater, rounded.heater, heated, step]

/-- One iteration hides the screen's reading and the buttons it does not ask for. -/
theorem upToTemp_next (rounded : Rounded readings s iteration)
    (otherRounded : Rounded otherReadings otherState other) (agree : UpToTemp s otherState)
    (clock : otherReadings.clock = readings.clock)
    (probe : getTempC otherReadings.probe = getTempC readings.probe)
    (buttons : iteration.afterHeater.state.systemState = .init ∨
      iteration.afterHeater.state.systemState = .wait →
        readLCDButtons otherReadings.adcKeyIn = readLCDButtons readings.adcKeyIn) :
    UpToTemp iteration.final other.final := by
  have heater := afterHeater_upToTemp rounded otherRounded agree clock probe
  have input : other.afterInput = iteration.afterInput := by
    have ran := otherRounded.input
    rw [heater, inputController_of_buttons clock buttons, rounded.input] at ran
    exact (Except.ok.inj ran).symm
  unfold UpToTemp Iteration.final
  rw [screenController_state rounded.screen, screenController_state otherRounded.screen, input]

end Iteration

/-- Two runs from one state, with the same clock and the same temperature for the controllers. The
buttons agree where `inputController` asks for them; the screen may read anything. -/
structure SameBrew (run other : SketchRun) : Prop where
  start : other.state 0 = run.state 0
  clock : ∀ n, n < run.length → n < other.length → (other.input n).clock = (run.input n).clock
  probe : ∀ n, n < run.length → n < other.length →
    getTempC (other.input n).probe = getTempC (run.input n).probe
  buttons : ∀ n, n < run.length → n < other.length →
    (run.record n).afterHeater.state.systemState = .init ∨
      (run.record n).afterHeater.state.systemState = .wait →
        readLCDButtons (other.input n).adcKeyIn = readLCDButtons (run.input n).adcKeyIn

theorem SameBrew.upToTemp {run other : SketchRun} (same : SameBrew run other) {n : ℕ}
    (bound : n ≤ run.length) (otherBound : n ≤ other.length) :
    UpToTemp (run.state n) (other.state n) := by
  apply run.lockstep other UpToTemp _ _ bound otherBound
  · rw [same.start]
    exact Eq.refl _
  · intro k inside otherInside agree
    have rounded := loop_ok_iff.mp (run.rounds k inside)
    have otherRounded := loop_ok_iff.mp (other.rounds k otherInside)
    exact upToTemp_next rounded otherRounded agree (same.clock k inside otherInside)
      (same.probe k inside otherInside) (same.buttons k inside otherInside)

/-- Neither the screen's readings nor the buttons pressed while a step runs reach the brew. -/
theorem brew_undisturbed {run other : SketchRun} (same : SameBrew run other) {n : ℕ}
    (bound : n ≤ run.length) (otherBound : n ≤ other.length) :
    (other.state n).systemState = (run.state n).systemState ∧
      (other.state n).currentRecipe = (run.state n).currentRecipe ∧
      (other.state n).currentStep = (run.state n).currentStep ∧
      (other.state n).lastInput = (run.state n).lastInput ∧
      (other.state n).recipe = (run.state n).recipe ∧
      (other.state n).heatingState = (run.state n).heatingState ∧
      (other.state n).relay = (run.state n).relay := by
  have agree := same.upToTemp bound otherBound
  rw [agree]
  exact ⟨rfl, rfl, rfl, rfl, rfl, rfl, rfl⟩

/-- `firstConfirm`, with the probe lost whenever the screen reads it and another button pressed
once step 1 is running. -/
def disturbed : SketchRun :=
  sketch.follow (fun n =>
    { readingsAt 12800 (if n < 2 then 700 else 0) (BitVec.ofNat 32 (1000 * (n + 1))) with
      screenProbe := none }) setup 3 (by decide +kernel)

theorem sameBrew_disturbed : SameBrew firstConfirm disturbed where
  start := by decide +kernel
  clock := fun _ _ _ => rfl
  probe := fun _ _ _ => rfl
  buttons := by
    intro n inside _ asked
    obtain rfl | rfl | rfl : n = 0 ∨ n = 1 ∨ n = 2 := by
      change n < 3 at inside
      omega
    · rfl
    · rfl
    · exact absurd asked (by decide +kernel)

theorem brew_undisturbed_disturbed :
    (disturbed.state 3).systemState = (firstConfirm.state 3).systemState ∧
      (disturbed.state 3).relay = (firstConfirm.state 3).relay := by
  obtain ⟨phase, _, _, _, _, _, relay⟩ :=
    brew_undisturbed sameBrew_disturbed (show 3 ≤ 3 by decide) (show 3 ≤ 3 by decide)
  exact ⟨phase, relay⟩

end ArduMash.Behaviour.Interference
