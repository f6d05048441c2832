import ArduMash.Behaviour.ControllerEffects

/-!
The end of a timed step. `stepController` keeps the elapsed minutes in a byte,
the status screen prints them in full, so the two agree on whether the time is
up only while the byte does not hide a step that is over.
-/

namespace ArduMash.Behaviour.StepClock
open Sketch Globals Hardware Screens Controllers Loop StartStep ControllerEffects
  Foundation.WrappingClock

theorem runTime_toNat (now : Millis) (step : RecipeStep) :
    ((runTime now step).setWidth 32).toNat = (elapsedMinutes step.startTime now).toNat % 256 := by
  have small : (elapsedMinutes step.startTime now).toNat % 256 < 2 ^ 32 := by omega
  simp only [runTime, BitVec.toNat_setWidth]
  exact Nat.mod_eq_of_lt small

theorem elapsedMinutes_toNat (startTime now : Millis) :
    (elapsedMinutes startTime now).toNat = (elapsed startTime now).toNat / 60000 := by
  simp only [elapsedMinutes, BitVec.toNat_udiv]
  rfl

/-- The end condition of a timed step compares the truncated minutes. -/
theorem timed_over_iff (now : Millis) (tempC : ℚ) {step : RecipeStep} (timed : step.duration ≠ 0) :
    endNotReached now tempC step = false ↔
      step.duration.toNat ≤ (elapsed step.startTime now).toNat / 60000 % 256 := by
  simp only [endNotReached, if_neg timed, decide_eq_false_iff_not, BitVec.lt_def, runTime_toNat,
    elapsedMinutes_toNat, Nat.not_lt]

/-- The step is left: the next one started, the recipe finished or the wait entered. -/
def Leaves (s after : State) : Prop :=
  after.systemState ≠ .running ∨ after.currentStep ≠ s.currentStep

theorem next_ne (index : Byte) : index + 1 ≠ index := by
  intro same
  bv_omega

theorem startStep_leaves {now : Millis} {s : State} {outcome : Outcome}
    (ran : startStep now (s.currentStep + 1) s = .ok outcome) : Leaves s outcome.state := by
  cases startStep_cases ran with
  | ignored done => exact Or.inl (by simp [done])
  | recipeEnd => exact Or.inl (by simp)
  | begun => exact Or.inr (next_ne s.currentStep)

theorem leaves_iff {clock : Clocks Millis} {step : RecipeStep} {s : State} {outcome : Outcome}
    (running : s.systemState = .running) (ran : stepController clock step s = .ok outcome) :
    Leaves s outcome.state ↔ endNotReached clock.step s.tempC step = false := by
  cases stepController_cases ran with
  | idle inactive => exact absurd (Or.inl running) inactive
  | goesOn _ open_ =>
    constructor
    · rintro (stopped | moved)
      · exact absurd running stopped
      · exact absurd rfl moved
    · intro due
      exact absurd (open_.symm.trans due) (by decide)
  | continues _ due _ _ started => exact ⟨fun _ => due, fun _ => startStep_leaves started⟩
  | waits _ due => exact ⟨fun _ => due, fun _ => Or.inl (by simp)⟩

/-- The status screen for `step` prints these minutes and, after them, this duration. -/
def Prints (readings : Readings) (s : State) (step : RecipeStep) (minutes duration : ℕ) : Prop :=
  ∃ front middle : List LcdOp,
    drawn (displayStatusScreen readings step s).events =
      front ++ [.print (.number minutes), .print (.text ":")] ++ middle ++
        [.print (.number duration)]

theorem timeOps_still {screen : Fin 4 → Millis} {now : Millis} (step : RecipeStep)
    (still : ∀ i, screen i = now) :
    ∃ front middle : List LcdOp, timeOps screen step =
      front ++
        [.print (.number ((elapsed step.startTime now).toNat / 60000)), .print (.text ":")] ++
        middle ++ [.print (.number step.duration.toNat)] := by
  refine ⟨[.setCursor 8 0] ++ pad (.text "0") (elapsedMinutes step.startTime now).toNat,
    pad (.text "0") (elapsedSeconds step.startTime now).toNat ++
      [.print (.number (elapsedSeconds step.startTime now).toNat), .print (.text " ")] ++
      pad (.text "0") step.duration.toNat, ?_⟩
  simp only [timeOps, still, elapsedMinutes_toNat, List.append_assoc]

theorem prints_elapsed {readings : Readings} {now : Millis} (s : State) (step : RecipeStep)
    (still : ∀ i, readings.clock.screen i = now) :
    Prints readings s step ((elapsed step.startTime now).toNat / 60000) step.duration.toNat := by
  obtain ⟨front, middle, same⟩ := timeOps_still step still
  refine ⟨fieldOps (getTempC readings.screenProbe) s.heatingState step ++ front, middle, ?_⟩
  simp only [displayStatusScreen, drawn_draw, statusOps, same, List.append_assoc]

/-- A byte hides a step that is over exactly if the minutes have reached the duration and their
remainder by 256 has not. -/
theorem truncated_iff (minutes duration : ℕ) :
    ((duration ≤ minutes % 256) ↔ duration ≤ minutes) ↔
      (minutes < duration ∨ duration ≤ minutes % 256) := by
  have below := Nat.mod_le minutes 256
  omega

/-- `stepController` leaves a timed step exactly when the printed minutes have reached the
printed duration, if and only if the byte does not hide that they have. -/
theorem timed_step_exact {clock : Clocks Millis} {step : RecipeStep} {s : State}
    {outcome : Outcome} (running : s.systemState = .running) (timed : step.duration ≠ 0)
    (ran : stepController clock step s = .ok outcome) :
    ((Leaves s outcome.state ↔
        step.duration.toNat ≤ (elapsed step.startTime clock.step).toNat / 60000) ↔
      ((elapsed step.startTime clock.step).toNat / 60000 < step.duration.toNat ∨
        step.duration.toNat ≤ (elapsed step.startTime clock.step).toNat / 60000 % 256)) ∧
      ∀ readings : Readings, (∀ i, readings.clock.screen i = clock.step) →
        Prints readings s step ((elapsed step.startTime clock.step).toNat / 60000)
          step.duration.toNat := by
  refine ⟨?_, fun readings still => prints_elapsed s step still⟩
  rw [leaves_iff running ran, timed_over_iff _ _ timed]
  exact truncated_iff _ _

/-- A step of 300 minutes that was started 300 minutes ago. -/
def longStep : State :=
  { setupWith (oneStep 20 300 true) with systemState := .running }

def after300 : Clocks Millis := (readingsAt 0 1023 18000000).clock

theorem longStep_ran :
    stepController after300 (longStep.recipe 0 0) longStep = .ok ⟨longStep, []⟩ :=
  stepController_goesOn (by decide +kernel)

theorem timed_step_exact_longStep :
    (Leaves longStep longStep ↔ 300 ≤ 300) ↔ (300 < 300 ∨ 300 ≤ 300 % 256) :=
  (timed_step_exact rfl (by decide) longStep_ran).1

/-- The step is over and is not left. -/
theorem long_step_missed :
    ¬∀ (clock : Clocks Millis) (step : RecipeStep) (s : State) (outcome : Outcome),
      s.systemState = .running → step.duration ≠ 0 →
        stepController clock step s = .ok outcome →
          (Leaves s outcome.state ↔
            step.duration.toNat ≤ (elapsed step.startTime clock.step).toNat / 60000) := by
  intro exact_
  have left := (exact_ after300 (longStep.recipe 0 0) longStep _ rfl (by decide) longStep_ran).mpr
    (by decide)
  rcases left with stopped | moved
  · exact absurd rfl stopped
  · exact absurd rfl moved

end ArduMash.Behaviour.StepClock
