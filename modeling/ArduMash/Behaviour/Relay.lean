import ArduMash.Behaviour.ControllerEffects
import ArduMash.Foundation.Latch
import Mathlib.Tactic.Linarith

/-!
The relay over whole runs. `heaterController` is a latch: a reading above the
target and the finish reset it, a reading more than half a degree below the
target sets it, everything else leaves it alone.
-/

namespace ArduMash.Behaviour.Relay
open Sketch Globals Hardware Screens Controllers Loop ControllerEffects StartStep
  Foundation.RoundMachine Foundation.Latch

/-- The reading `loop` takes, as the controllers of that iteration see it. -/
def reading (readings : Readings) : ℚ := getTempC readings.probe

/-- The target of the step that is current after `stepController`. In a run it is in the table. -/
def target (iteration : Iteration) : ℚ :=
  (iteration.afterStep.state.current.getD default).targetTemp

/-- `systemState` is `ST_FINISH` after `stepController`. -/
def Finished (iteration : Iteration) : Prop := iteration.afterStep.state.systemState = .finish

instance (iteration : Iteration) : Decidable (Finished iteration) :=
  inferInstanceAs (Decidable (_ = _))

def TooHot (readings : Readings) (iteration : Iteration) : Prop :=
  target iteration < reading readings

def TooCold (readings : Readings) (iteration : Iteration) : Prop :=
  reading readings + 1 / 2 < target iteration

def Decisive (readings : Readings) (iteration : Iteration) : Prop :=
  Finished iteration ∨ TooHot readings iteration ∨ TooCold readings iteration

instance (readings : Readings) (iteration : Iteration) : Decidable (TooHot readings iteration) :=
  inferInstanceAs (Decidable (_ < _))

instance (readings : Readings) (iteration : Iteration) : Decidable (TooCold readings iteration) :=
  inferInstanceAs (Decidable (_ < _))

/-- What an iteration asks of the latch. -/
def command (readings : Readings) (iteration : Iteration) : Command :=
  if Finished iteration then .reset
  else if TooHot readings iteration then .reset
  else if TooCold readings iteration then .set
  else .hold

theorem not_tooHot_of_tooCold {readings : Readings} {iteration : Iteration}
    (cold : TooCold readings iteration) : ¬TooHot readings iteration := by
  unfold TooCold at cold
  unfold TooHot
  linarith

theorem command_set_iff (readings : Readings) (iteration : Iteration) :
    command readings iteration = .set ↔ ¬Finished iteration ∧ TooCold readings iteration := by
  unfold command
  by_cases finished : Finished iteration
  · simp [finished]
  · by_cases cold : TooCold readings iteration
    · simp [finished, cold, not_tooHot_of_tooCold cold]
    · by_cases hot : TooHot readings iteration <;> simp [finished, cold, hot]

theorem command_reset_iff (readings : Readings) (iteration : Iteration) :
    command readings iteration = .reset ↔ Finished iteration ∨ TooHot readings iteration := by
  unfold command
  by_cases finished : Finished iteration
  · simp [finished]
  · by_cases hot : TooHot readings iteration
    · simp [finished, hot]
    · by_cases cold : TooCold readings iteration <;> simp [finished, hot, cold]

theorem command_hold_iff (readings : Readings) (iteration : Iteration) :
    command readings iteration = .hold ↔ ¬Decisive readings iteration := by
  unfold command Decisive
  by_cases finished : Finished iteration
  · simp [finished]
  · by_cases hot : TooHot readings iteration
    · simp [finished, hot]
    · by_cases cold : TooCold readings iteration <;> simp [finished, hot, cold]

section Iteration
variable {readings : Readings} {s : State} {iteration : Iteration}
  (rounded : Rounded readings s iteration)
include rounded

/-- The heater is given that step. -/
theorem target_eq : target iteration = iteration.heaterArgument.targetTemp := by
  unfold target
  rw [show iteration.afterStep.state.current = some iteration.heaterArgument from
    rounded.heaterEntry]
  rfl

theorem afterStep_tempC : iteration.afterStep.state.tempC = reading readings :=
  congrArg State.tempC (stepController_frame rounded.step)

theorem afterStep_heatingState : iteration.afterStep.state.heatingState = s.heatingState := by
  have kept := congrArg State.heatingState (stepController_frame rounded.step)
  exact kept

/-- The heating state after the controller is the latch driven by the iteration's command. -/
theorem heats_eq_apply :
    heats iteration.heaterArgument iteration.afterStep.state =
      (command readings iteration).apply s.heatingState := by
  unfold heats heating command
  rw [afterStep_tempC rounded, afterStep_heatingState rounded, ← target_eq rounded]
  change (if Finished iteration then false else if TooHot readings iteration then false
    else if TooCold readings iteration then true else s.heatingState) = _
  by_cases finished : Finished iteration
  · rw [if_pos finished, if_pos finished]
    rfl
  · rw [if_neg finished, if_neg finished]
    by_cases hot : TooHot readings iteration
    · rw [if_pos hot, if_pos hot]
      rfl
    · rw [if_neg hot, if_neg hot]
      by_cases cold : TooCold readings iteration
      · rw [if_pos cold, if_pos cold]
        rfl
      · rw [if_neg cold, if_neg cold]
        rfl

theorem afterHeater_heatingState :
    iteration.afterHeater.state.heatingState =
      (command readings iteration).apply s.heatingState := by
  rw [rounded.heater, heaterController_state]
  exact heats_eq_apply rounded

theorem afterHeater_relay :
    iteration.afterHeater.state.relay =
      levelOf ((command readings iteration).apply s.heatingState) := by
  rw [rounded.heater, heaterController_state]
  exact congrArg levelOf (heats_eq_apply rounded)

/-- Only `heaterController` writes the heating state. -/
theorem final_heatingState :
    iteration.final.heatingState = (command readings iteration).apply s.heatingState := by
  have screen := congrArg State.heatingState (screenController_state rounded.screen)
  have input := congrArg State.heatingState (inputController_frame rounded.input)
  calc iteration.final.heatingState
      = iteration.afterInput.state.heatingState := screen
    _ = iteration.afterHeater.state.heatingState := input
    _ = _ := afterHeater_heatingState rounded

end Iteration

theorem levelOf_high (on : Bool) : levelOf on = .high ↔ on = true := by
  cases on <;> simp [levelOf]

theorem heatingState_follows (run : SketchRun) {n : ℕ} (inside : n < run.length) :
    (run.state (n + 1)).heatingState =
      (command (run.input n) (run.record n)).apply (run.state n).heatingState := by
  rw [run.links n inside]
  exact final_heatingState (loop_ok_iff.mp (run.rounds n inside))

/-- The closed form of the relay over a run that starts with the heater off, and what an
iteration can do to the heater on its own. -/
theorem relay_closed_form (run : SketchRun) (off : (run.state 0).heatingState = false)
    {n : ℕ} (inside : n < run.length) :
    ((run.record n).afterHeater.state.relay = .high ↔
        (run.record n).afterHeater.state.heatingState = true) ∧
      ((run.record n).afterHeater.state.heatingState = true ↔
        ∃ j ≤ n, Decisive (run.input j) (run.record j) ∧
          (∀ k, j < k → k ≤ n → ¬Decisive (run.input k) (run.record k)) ∧
          ¬Finished (run.record j) ∧ TooCold (run.input j) (run.record j)) ∧
      (((run.state n).heatingState = false ∧
          (run.record n).afterHeater.state.heatingState = true) →
        reading (run.input n) + 1 / 2 < target (run.record n)) ∧
      (((run.state n).heatingState = true ∧
          (run.record n).afterHeater.state.heatingState = false) →
        Finished (run.record n) ∨ target (run.record n) < reading (run.input n)) ∧
      (¬Finished (run.record n) → target (run.record n) - 1 / 2 ≤ reading (run.input n) →
        reading (run.input n) ≤ target (run.record n) →
          (run.record n).afterHeater.state.heatingState = (run.state n).heatingState) := by
  have rounded := loop_ok_iff.mp (run.rounds n inside)
  have heated := afterHeater_heatingState rounded
  have latched := value_iff_setLast (fun k => command (run.input k) (run.record k))
    (fun k => (run.state k).heatingState) off n
    (fun k bound => heatingState_follows run (by omega))
  rw [heatingState_follows run inside, ← heated] at latched
  refine ⟨?_, ?_, ?_, ?_, ?_⟩
  · rw [afterHeater_relay rounded, levelOf_high, heated]
  · rw [latched]
    refine exists_congr (fun j => ?_)
    unfold SetLast
    simp only [command_set_iff, command_hold_iff]
    constructor
    · intro ⟨bound, ⟨running, cold⟩, quiet⟩
      exact ⟨bound, Or.inr (Or.inr cold), quiet, running, cold⟩
    · intro ⟨bound, _, quiet, running, cold⟩
      exact ⟨bound, ⟨running, cold⟩, quiet⟩
  · intro ⟨before, after⟩
    rw [heated, before] at after
    cases given : command (run.input n) (run.record n) with
    | set => exact ((command_set_iff _ _).mp given).2
    | reset => simp [given, Command.apply] at after
    | hold => simp [given, Command.apply] at after
  · intro ⟨before, after⟩
    rw [heated, before] at after
    cases given : command (run.input n) (run.record n) with
    | set => simp [given, Command.apply] at after
    | reset => exact (command_reset_iff _ _).mp given
    | hold => simp [given, Command.apply] at after
  · intro running above below
    have quiet : ¬Decisive (run.input n) (run.record n) := by
      unfold Decisive TooHot TooCold
      rintro (finished | hot | cold)
      · exact running finished
      · linarith
      · linarith
    rw [heated, (command_hold_iff _ _).mpr quiet]
    rfl

/-- A probe at 65.00 and then at 65.75 degrees, with a target of 66. -/
def warmUp : SketchRun :=
  sketch.follow (fun n => readingsAt (if n = 0 then 8320 else 8416) 1023
    (BitVec.ofNat 32 (1000 * (n + 1)))) (setupWith (oneStep 66 0 true)) 2 (by decide +kernel)

/-- The second reading is in the band, the heater stays on from the first. -/
theorem relay_closed_form_warmUp : (warmUp.record 1).afterHeater.state.relay = .high := by
  obtain ⟨relay, closed, _⟩ :=
    relay_closed_form warmUp (by decide +kernel) (show 1 < 2 by decide)
  refine relay.mpr (closed.mpr ⟨0, by decide, ?_, ?_, by decide +kernel, by decide +kernel⟩)
  · exact Or.inr (Or.inr (by decide +kernel))
  · intro k after upTo
    obtain rfl : k = 1 := Nat.le_antisymm upTo after
    unfold Decisive
    decide +kernel

end ArduMash.Behaviour.Relay
