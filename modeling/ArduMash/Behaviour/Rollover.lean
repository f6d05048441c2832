import ArduMash.Behaviour.Moves

/-!
A shift of the clock. The sketch only looks at differences of clock readings, and
of the start times in the table only at that of the current step. So a run whose
clock is ahead by a constant does the same, with the two stored times ahead by it.
-/

namespace ArduMash.Behaviour.Rollover
open Sketch Globals Hardware Screens Controllers Loop StartStep ControllerEffects Moves
  Foundation.RoundMachine Foundation.WrappingClock

/-! The shift. -/

def shiftStep (c : Millis) (step : RecipeStep) : RecipeStep :=
  { step with startTime := step.startTime + c }

/-- `lastInput` and the start time of the current step are larger by `c`. -/
def shifted (c : Millis) (s : State) : State :=
  { s with
    lastInput := s.lastInput + c
    recipe := s.recipe.modify s.currentRecipe.toNat s.currentStep.toNat (shiftStep c) }

def shiftReadings (c : Millis) (readings : Readings) : Readings :=
  { readings with clock := readings.clock.map (· + c) }

/-- What is drawn, printed and switched is not shifted. -/
def shiftOutcome (c : Millis) (outcome : Outcome) : Outcome :=
  ⟨shifted c outcome.state, outcome.events⟩

def shiftIteration (c : Millis) (iteration : Iteration) : Iteration where
  stepArgument := shiftStep c iteration.stepArgument
  afterStep := shiftOutcome c iteration.afterStep
  heaterArgument := shiftStep c iteration.heaterArgument
  afterHeater := shiftOutcome c iteration.afterHeater
  afterInput := shiftOutcome c iteration.afterInput
  afterScreen := shiftOutcome c iteration.afterScreen

section Shift
variable {c : Millis}

theorem modify_entry (table : RecipeTable) (row index i : ℕ) (change : RecipeStep → RecipeStep) :
    (table.modify row index change).entry row i =
      (table.entry row i).map (fun step => if i = index then change step else step) := by
  unfold RecipeTable.entry
  by_cases inside : row < 1 ∧ i < 10
  · simp only [dif_pos inside, RecipeTable.modify, true_and, Option.map_some]
  · simp only [dif_neg inside, Option.map_none]

theorem shifted_current (s : State) : (shifted c s).current = s.current.map (shiftStep c) := by
  change (s.recipe.modify s.currentRecipe.toNat s.currentStep.toNat (shiftStep c)).entry
    s.currentRecipe.toNat s.currentStep.toNat = _
  rw [modify_entry]
  simp only [if_true]
  rfl

theorem shifted_entry {s : State} {i : ℕ} (other : i ≠ s.currentStep.toNat) :
    (shifted c s).entry i = s.entry i := by
  change (s.recipe.modify s.currentRecipe.toNat s.currentStep.toNat (shiftStep c)).entry
    s.currentRecipe.toNat i = _
  rw [modify_entry]
  simp only [if_neg other, Option.map_id']
  rfl

theorem endNotReached_shift (now : Millis) (tempC : ℚ) (step : RecipeStep) :
    endNotReached (now + c) tempC (shiftStep c step) = endNotReached now tempC step := by
  unfold endNotReached runTime elapsedMinutes shiftStep
  rw [elapsed_shift]

/-- The start time of the step that is left, shifted or not, is reset; that of the new one is
the shifted clock. -/
theorem begunTable_shift (table : RecipeTable) (row index : ℕ) (now : Millis) :
    begunTable (table.modify row index (shiftStep c)) row (index + 1) (now + c) =
      (begunTable table row (index + 1) now).modify row (index + 1) (shiftStep c) := by
  funext r i
  by_cases inRow : r.val = row
  · rcases Nat.lt_trichotomy i.val (index + 1) with before | same | after
    · simp only [begunTable, RecipeTable.modify, inRow, true_and, if_pos before,
        if_neg (Nat.ne_of_lt before)]
      split_ifs <;> rfl
    · have other : index + 1 ≠ index := Nat.succ_ne_self index
      simp only [begunTable, RecipeTable.modify, inRow, same, true_and, Nat.lt_irrefl, if_false,
        if_true, if_neg other]
      rfl
    · have other : i.val ≠ index := by omega
      simp only [begunTable, RecipeTable.modify, inRow, true_and, if_neg (Nat.lt_asymm after),
        if_neg (Nat.ne_of_gt after), if_neg other]
  · simp only [begunTable, RecipeTable.modify, inRow, false_and, if_false]

theorem begunState_shift {s : State} (now : Millis) (inside : s.currentStep.toNat < 10) :
    begunState (shifted c s) (now + c) (s.currentStep + 1) =
      shifted c (begunState s now (s.currentStep + 1)) := by
  have next := toNat_next (show s.currentStep.toNat < 255 by omega)
  have table := begunTable_shift (c := c) s.recipe s.currentRecipe.toNat s.currentStep.toNat now
  rw [← next] at table
  simp only [begunState, shifted]
  rw [table]

theorem startStep_shift {now : Millis} {s : State} {outcome : Outcome}
    (inside : s.currentStep.toNat < 10)
    (ran : startStep now (s.currentStep + 1) s = .ok outcome) :
    startStep (now + c) (s.currentStep + 1) (shifted c s) = .ok (shiftOutcome c outcome) := by
  have next := toNat_next (show s.currentStep.toNat < 255 by omega)
  have asks : (shifted c s).entry (s.currentStep + 1).toNat = s.entry (s.currentStep + 1).toNat :=
    shifted_entry (by omega)
  cases startStep_cases ran with
  | ignored done => exact startStep_finished _ _ done
  | recipeEnd active step asked marker =>
    rw [← asks] at asked
    exact startStep_recipeEnd (s := shifted c s) _ active asked marker
  | begun active step asked real =>
    rw [← asks] at asked
    rw [startStep_begun (s := shifted c s) _ active asked real, begunState_shift now inside]
    rfl

theorem stepController_shift {clock : Clocks Millis} {step : RecipeStep} {s : State}
    {outcome : Outcome} (inside : s.currentStep.toNat < 10)
    (ran : stepController clock step s = .ok outcome) :
    stepController (clock.map (· + c)) (shiftStep c step) (shifted c s) =
      .ok (shiftOutcome c outcome) := by
  have same : endNotReached (clock.map (· + c)).step (shifted c s).tempC (shiftStep c step) =
      endNotReached clock.step s.tempC step := endNotReached_shift clock.step s.tempC step
  cases stepController_cases ran with
  | idle inactive => exact stepController_idle _ _ inactive
  | goesOn _ open_ => exact stepController_goesOn (same.trans open_)
  | continues active due auto _ started =>
    rw [stepController_continues (s := shifted c s) active (same.trans due) auto]
    exact startStep_shift inside started
  | waits active due byHand =>
    exact stepController_waits (s := shifted c s) active (same.trans due) byHand

theorem heaterController_shift (step : RecipeStep) (s : State) :
    heaterController (shiftStep c step) (shifted c s) =
      shiftOutcome c (heaterController step s) := by
  by_cases done : s.systemState = .finish
  · have shiftedDone : (shifted c s).systemState = .finish := done
    simp only [heaterController, if_pos done, if_pos shiftedDone]
    rfl
  · have shiftedActive : (shifted c s).systemState ≠ .finish := done
    simp only [heaterController, if_neg done, if_neg shiftedActive]
    rfl

theorem accepts_shift (readings : Readings) (s : State) :
    accepts (shiftReadings c readings) (shifted c s) = accepts readings s := by
  have same := elapsed_shift s.lastInput readings.clock.guard c
  change decide (buttonDelay < elapsed (s.lastInput + c) (readings.clock.guard + c)) = _
  rw [same]
  rfl

theorem inputController_shift {readings : Readings} {s : State} {outcome : Outcome}
    (started : s.systemState ≠ .init) (inside : s.currentStep.toNat < 10)
    (ran : inputController readings s = .ok outcome) :
    inputController (shiftReadings c readings) (shifted c s) = .ok (shiftOutcome c outcome) := by
  have same : SelectAccepted (shiftReadings c readings) (shifted c s) ↔
      SelectAccepted readings s := by
    unfold SelectAccepted
    rw [accepts_shift]
    rfl
  cases inputController_cases ran with
  | ignored _ unconfirmed =>
    apply inputController_ignored
    · intro selecting
      exact absurd selecting started
    · rw [same]
      exact unconfirmed
  | selects selecting => exact absurd selecting started
  | begins selecting => exact absurd selecting started
  | confirms waiting accepted _ start =>
    exact inputController_confirms (s := shifted c s) waiting (same.mpr accepted)
      (startStep_shift inside start)

theorem timeOps_shift (screen : Fin 4 → Millis) (step : RecipeStep) :
    timeOps (fun i => screen i + c) (shiftStep c step) = timeOps screen step := by
  simp only [timeOps, elapsedMinutes, elapsedSeconds, shiftStep, elapsed_shift]

theorem showScreen_shift {readings : Readings} {changed : Bool} {s : State} {outcome : Outcome}
    (ran : showScreen readings changed s = .ok outcome) :
    showScreen (shiftReadings c readings) changed (shifted c s) = .ok (shiftOutcome c outcome) := by
  have current := shifted_current (c := c) s
  cases phase : s.systemState with
  | init =>
    have shiftedPhase : (shifted c s).systemState = .init := phase
    simp only [showScreen, phase, shiftedPhase] at ran ⊢
    cases ran
    rfl
  | running =>
    have reads := ran
    simp only [showScreen, phase] at reads
    obtain ⟨step, read, _⟩ := bind_eq_ok.mp reads
    have found : s.current = some step := readRecipe_eq_ok.mp read
    rw [found] at current
    rw [showScreen_running phase found] at ran
    cases ran
    rw [showScreen_running (s := shifted c s) phase current]
    have time := timeOps_shift (c := c) readings.clock.screen step
    simp only [statusOps, ← time]
    rfl
  | finish =>
    have shiftedPhase : (shifted c s).systemState = .finish := phase
    simp only [showScreen, phase, shiftedPhase] at ran ⊢
    cases ran
    rfl
  | wait =>
    have shiftedPhase : (shifted c s).systemState = .wait := phase
    simp only [showScreen, phase, shiftedPhase] at ran ⊢
    cases changed with
    | true =>
      obtain ⟨step, read, _⟩ := bind_eq_ok.mp ran
      have found : s.current = some step := readRecipe_eq_ok.mp read
      rw [found] at current
      simp only [if_true, waitAtStepEnd_eq found] at ran ⊢
      cases ran
      rw [waitAtStepEnd_eq current]
      rfl
    | false =>
      cases ran
      rfl

theorem screenController_shift {readings : Readings} {s : State} {outcome : Outcome}
    (ran : screenController readings s = .ok outcome) :
    screenController (shiftReadings c readings) (shifted c s) = .ok (shiftOutcome c outcome) := by
  obtain ⟨shown, show_, rest⟩ := bind_eq_ok.mp ran
  cases rest
  exact bind_eq_ok.mpr ⟨shiftOutcome c shown, showScreen_shift show_, rfl⟩

/-- One iteration commutes with the shift. -/
theorem rounded_shift {readings : Readings} {s : State} {iteration : Iteration}
    (rounded : Rounded readings s iteration) (started : s.systemState ≠ .init) :
    Rounded (shiftReadings c readings) (shifted c s) (shiftIteration c iteration) := by
  have inside : s.currentStep.toNat < 10 := (entry_eq_some rounded.stepEntry).2
  have heaterStarted := heater_started rounded started
  have heaterStep : iteration.afterHeater.state.currentStep.toNat < 10 := by
    have same := congrArg (fun control => control.currentStep.toNat) (control_heater rounded)
    exact lt_of_eq_of_lt same (entry_eq_some rounded.heaterEntry).2
  refine ⟨?_, stepController_shift (s := sense readings s) inside rounded.step, ?_, ?_,
    inputController_shift heaterStarted heaterStep rounded.input,
    screenController_shift rounded.screen⟩
  · rw [shifted_current, rounded.stepEntry]
    rfl
  · change (shifted c iteration.afterStep.state).current = _
    rw [shifted_current, rounded.heaterEntry]
    rfl
  · change shiftOutcome c iteration.afterHeater = _
    rw [rounded.heater]
    exact (heaterController_shift _ _).symm

end Shift

/-! Two runs. -/

/-- `other` is like `s`, with `lastInput` and the start of the current step ahead by `c`. -/
structure Agree (c : Millis) (s other : State) : Prop where
  systemState : other.systemState = s.systemState
  currentRecipe : other.currentRecipe = s.currentRecipe
  currentStep : other.currentStep = s.currentStep
  stepStatus : ∀ r i, (other.recipe r i).stepStatus = (s.recipe r i).stepStatus
  heatingState : other.heatingState = s.heatingState
  relay : other.relay = s.relay
  lastInput : other.lastInput = s.lastInput + c
  startTime : other.current.map RecipeStep.startTime =
    s.current.map (fun step => step.startTime + c)

theorem agree_shifted (c : Millis) (s : State) : Agree c s (shifted c s) where
  systemState := rfl
  currentRecipe := rfl
  currentStep := rfl
  stepStatus := by
    intro r i
    simp only [shifted, RecipeTable.modify]
    split_ifs <;> rfl
  heatingState := rfl
  relay := rfl
  lastInput := rfl
  startTime := by
    rw [shifted_current, Option.map_map]
    rfl

/-- An accepted start leaves the selection for good. -/
theorem started_of_starts {readings : Readings} {s : State} {iteration : Iteration}
    (rounded : Rounded readings s iteration) (starts : Starts iteration) :
    iteration.final.systemState ≠ .init := by
  by_cases selecting : s.systemState = .init
  · have phase := congrArg Control.systemState (control_final rounded)
    have inactive := not_active_of_init selecting
    obtain ⟨index, quiet | accepted⟩ := starts
    · rw [(step_of_kept rounded (fun continues => inactive continues.active)).1] at quiet
      exact absurd quiet (not_accepts_nil index)
    · cases given : iteration.afterInput with
      | mk state events =>
        have ran := rounded.input
        rw [given] at ran accepted phase
        rw [show iteration.final.systemState = state.systemState from phase]
        cases inputController_cases ran with
        | ignored => exact absurd accepted (not_accepts_nil index)
        | selects => exact absurd accepted (not_accepts_nil index)
        | begins => simp
        | confirms => simp
  · exact final_started rounded selecting

/-- Runs of a started recipe whose clocks differ by a constant cannot be told apart. -/
theorem rollover_invisible (c : Millis) (run other : SketchRun)
    (started : (run.state 0).systemState ≠ .init) (start : other.state 0 = shifted c (run.state 0))
    (inputs : ∀ n, n < run.length → n < other.length →
      other.input n = shiftReadings c (run.input n)) :
    (∀ n, n ≤ run.length → n ≤ other.length → Agree c (run.state n) (other.state n)) ∧
      ∀ n, n < run.length → n < other.length →
        (other.record n).events (other.state n) = (run.record n).events (run.state n) := by
  have shiftedRecord : ∀ n, n < run.length → n < other.length →
      other.state n = shifted c (run.state n) ∧ (run.state n).systemState ≠ .init →
        other.record n = shiftIteration c (run.record n) := by
    intro n inside otherInside ⟨same, startedThen⟩
    have rounded := loop_ok_iff.mp (run.rounds n inside)
    have ran := loop_ok_iff.mpr (rounded_shift (c := c) rounded startedThen)
    rw [← same, ← inputs n inside otherInside] at ran
    exact Except.ok.inj ((other.rounds n otherInside).symm.trans ran)
  have shiftedState : ∀ n, n ≤ run.length → n ≤ other.length →
      other.state n = shifted c (run.state n) ∧ (run.state n).systemState ≠ .init := by
    intro n bound otherBound
    apply run.lockstep other (fun s ahead => ahead = shifted c s ∧ s.systemState ≠ .init)
      ⟨start, started⟩ _ bound otherBound
    intro k inside otherInside related
    have rounded := loop_ok_iff.mp (run.rounds k inside)
    rw [shiftedRecord k inside otherInside related]
    exact ⟨rfl, final_started rounded related.2⟩
  constructor
  · intro n bound otherBound
    rw [(shiftedState n bound otherBound).1]
    exact agree_shifted c (run.state n)
  · intro n inside otherInside
    have related := shiftedState n (Nat.le_of_lt inside) (Nat.le_of_lt otherInside)
    rw [related.1, shiftedRecord n inside otherInside related]
    rfl

theorem readingsAt_shift (raw : BitVec 16) (adcKeyIn : ℕ) (now c : Millis) :
    readingsAt raw adcKeyIn (now + c) = shiftReadings c (readingsAt raw adcKeyIn now) := rfl

/-- From the state in which Select has started step 0, with Select held. -/
def steady : SketchRun :=
  sketch.follow (fun n => readingsAt 12800 700 (BitVec.ofNat 32 (1000 * (n + 2))))
    (firstConfirm.state 1) 3 (by decide +kernel)

/-- With this much added, the clock of `steady` rolls over during the second iteration. -/
def ahead : Millis := 4294964796

def rolling : SketchRun :=
  sketch.follow (fun n => readingsAt 12800 700 (BitVec.ofNat 32 (1000 * (n + 2)) + ahead))
    (shifted ahead (firstConfirm.state 1)) 3 (by decide +kernel)

theorem rollover_invisible_rolling : Agree ahead (steady.state 3) (rolling.state 3) := by
  have started : (steady.state 0).systemState ≠ .init := by decide +kernel
  have inputs : ∀ n, n < steady.length → n < rolling.length →
      rolling.input n = shiftReadings ahead (steady.input n) :=
    fun n _ _ => readingsAt_shift 12800 700 (BitVec.ofNat 32 (1000 * (n + 2))) ahead
  have start : rolling.state 0 = shifted ahead (steady.state 0) := by
    unfold rolling steady
    rw [Machine.follow_start, Machine.follow_start]
  have invisible := rollover_invisible ahead steady rolling started start inputs
  exact invisible.1 3 (by decide) (by decide)

end ArduMash.Behaviour.Rollover
