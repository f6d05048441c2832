import ArduMash.Behaviour.Relay
import ArduMash.Behaviour.RecipeEnd

/-!
A probe that cannot be read. `DEVICE_DISCONNECTED_C` goes through the
hysteresis like any temperature, so it asks for heat unless the target is
below it or the recipe is finished.
-/

namespace ArduMash.Behaviour.LostProbe
open Sketch Globals Hardware Screens Controllers Loop StartStep ControllerEffects RecipeEnd Relay
  Foundation.RoundMachine Foundation.Latch

/-- The target of `step` does not ask for heat at the reading of a lost probe. -/
def LowTarget (s : State) (step : RecipeStep) : Prop :=
  step.targetTemp < deviceDisconnectedC ∨
    (step.targetTemp ≤ deviceDisconnectedC + 1 / 2 ∧ s.heatingState = false)

/-- The states before an iteration in which a lost probe leaves the relay low. -/
inductive StaysLow (readings : Readings) (s : State) : Prop where
  | finished (done : s.systemState = .finish)
  | finishing (finishes : AutoFinishes readings s)
  | next (step following_ : RecipeStep) (continues : AutoContinues readings s step)
      (asked : following s = some following_) (real : following_.recipe ≠ 0)
      (low : LowTarget s following_)
  | current (step : RecipeStep) (current : s.current = some step)
      (kept : ¬AutoContinues readings s step) (low : LowTarget s step)

section Iteration
variable {readings : Readings} {s : State} {iteration : Iteration}
  (rounded : Rounded readings s iteration)
include rounded

theorem low_iff_apply :
    iteration.afterHeater.events = [.digitalWrite .low] ↔
      (command readings iteration).apply s.heatingState = false := by
  rw [rounded.heater, heaterController_events, heats_eq_apply rounded]
  cases (command readings iteration).apply s.heatingState <;> simp [levelOf]

/-- The level by what the heater is given. -/
theorem low_iff (lost : reading readings = deviceDisconnectedC) :
    iteration.afterHeater.events = [.digitalWrite .low] ↔
      Finished iteration ∨ LowTarget s iteration.heaterArgument := by
  rw [low_iff_apply rounded]
  unfold LowTarget
  cases given : command readings iteration with
  | set =>
    obtain ⟨running, cold⟩ := (command_set_iff readings iteration).mp given
    unfold TooCold at cold
    rw [lost, target_eq rounded] at cold
    constructor
    · intro off
      cases off
    · rintro (finished | below | ⟨below, _⟩)
      · exact absurd finished running
      · linarith
      · linarith
  | reset =>
    have hot := (command_reset_iff readings iteration).mp given
    unfold TooHot at hot
    rw [lost, target_eq rounded] at hot
    exact ⟨fun _ => hot.imp id Or.inl, fun _ => rfl⟩
  | hold =>
    have quiet := (command_hold_iff readings iteration).mp given
    unfold Decisive TooHot TooCold at quiet
    rw [lost, target_eq rounded] at quiet
    simp only [not_or, not_lt] at quiet
    obtain ⟨running, above, below⟩ := quiet
    change s.heatingState = false ↔ _
    constructor
    · intro off
      exact Or.inr (Or.inr ⟨below, off⟩)
    · rintro (finished | hot | ⟨_, off⟩)
      · exact absurd finished running
      · linarith
      · exact off

/-- What the heater is given, told from the state before the iteration. -/
theorem given_iff_staysLow :
    Finished iteration ∨ LowTarget s iteration.heaterArgument ↔ StaysLow readings s := by
  by_cases continues : AutoContinues readings s iteration.stepArgument
  · have active := continues.active.not_finish
    have sameStep : ∀ step, s.current = some step → step = iteration.stepArgument :=
      fun step current => Option.some.inj (current.symm.trans continues.current)
    cases asked : following s with
    | none =>
      have outside := startStep_outside readings.clock.autoStart
        (s := sense readings s) active asked
      rw [step_of_autoContinues rounded continues] at outside
      cases outside
    | some next =>
      by_cases marker : next.recipe = 0
      · have finishes : AutoFinishes readings s := ⟨_, next, continues, asked, marker⟩
        exact ⟨fun _ => .finishing finishes,
          fun _ => Or.inl (autoFinishes_final rounded finishes).1⟩
      · have begun := step_of_autoBegin rounded continues asked marker
        have running : ¬Finished iteration := by
          unfold Finished
          rw [begun]
          exact active
        have entry := rounded.heaterEntry
        rw [begun, begunState_current (s := sense readings s) asked] at entry
        have sameTarget : LowTarget s iteration.heaterArgument ↔ LowTarget s next := by
          rw [← Option.some.inj entry]
          rfl
        rw [sameTarget]
        constructor
        · rintro (finished | low)
          · exact absurd finished running
          · exact .next _ next continues asked marker low
        · intro stays
          cases stays with
          | finished done => exact absurd done active
          | finishing finishes =>
            exact absurd (autoFinishes_final rounded finishes).1 running
          | next step other _ found _ low =>
            rw [Option.some.inj (found.symm.trans asked)] at low
            exact Or.inr low
          | current step current kept => exact absurd (sameStep step current ▸ continues) kept
  · have kept := (step_of_kept rounded continues).2
    have entry := rounded.heaterEntry
    rw [kept] at entry
    have same : iteration.heaterArgument = iteration.stepArgument :=
      Option.some.inj (entry.symm.trans rounded.stepEntry)
    have finished : Finished iteration ↔ s.systemState = .finish := by
      unfold Finished
      rw [kept]
      split_ifs with waits
      · simp [waits.1.not_finish]
      · rfl
    rw [same, finished]
    have notContinues : ∀ step, ¬AutoContinues readings s step := by
      intro step other
      have sameStep := Option.some.inj (other.current.symm.trans rounded.stepEntry)
      exact continues (sameStep ▸ other)
    constructor
    · rintro (done | low)
      · exact .finished done
      · exact .current _ rounded.stepEntry continues low
    · intro stays
      cases stays with
      | finished done => exact Or.inl done
      | finishing finishes =>
        obtain ⟨step, _, other, _⟩ := finishes
        exact absurd other (notContinues step)
      | next step _ other => exact absurd other (notContinues step)
      | current step current _ low =>
        rw [Option.some.inj (current.symm.trans rounded.stepEntry)] at low
        exact Or.inr low

end Iteration

/-- With a lost probe the level written in an iteration is low exactly in the states `StaysLow`. -/
theorem lost_probe_low_iff (run : SketchRun) {n : ℕ} (inside : n < run.length)
    (lost : getTempC (run.input n).probe = deviceDisconnectedC) :
    (run.record n).afterHeater.events = [.digitalWrite .low] ↔
      StaysLow (run.input n) (run.state n) := by
  have rounded := loop_ok_iff.mp (run.rounds n inside)
  rw [low_iff rounded lost, given_iff_staysLow rounded]

/-- Select starts the only step, which ends the recipe; then the probe is pulled. -/
def pulled : SketchRun :=
  sketch.follow (fun n => { readingsAt 12800 700 (BitVec.ofNat 32 (1000 * (n + 1))) with
    probe := if n < 2 then some 12800 else none }) (setupWith (oneStep 20 0 true)) 3
    (by decide +kernel)

theorem lost_probe_low_pulled : (pulled.record 2).afterHeater.events = [.digitalWrite .low] :=
  (lost_probe_low_iff pulled (show 2 < 3 by decide) (by decide +kernel)).mpr
    (.finished (by decide +kernel))

/-- A probe that is never found, in the state `setup` leaves. -/
def unplugged : SketchRun :=
  sketch.follow (fun n => { readingsAt 0 1023 (BitVec.ofNat 32 (1000 * (n + 1))) with
    probe := none, screenProbe := none }) setup 2 (by decide +kernel)

/-- The lost probe turns the heater on. -/
theorem lost_probe_heats :
    ¬∀ (run : SketchRun) (n : ℕ), n < run.length →
      getTempC (run.input n).probe = deviceDisconnectedC →
        (run.record n).afterHeater.events = [.digitalWrite .low] := by
  intro safe
  have low := safe unplugged 0 (by decide) (by decide +kernel)
  exact absurd low (by decide +kernel)

end ArduMash.Behaviour.LostProbe
