import ArduMash.Behaviour.ControllerEffects

/-!
The wait at the end of a step. While the system waits, the current step is one
that needs the operator, nothing but an accepted Select ends the wait, and the
last thing on the LCD is the prompt of that step.
-/

namespace ArduMash.Behaviour.Waiting
open Sketch Globals Hardware Screens Controllers Loop StartStep ControllerEffects
  Foundation.RoundMachine

/-- A waiting system has a current step that does not continue on its own. -/
def Manual (s : State) : Prop :=
  s.systemState = .wait → ∃ step, s.current = some step ∧ step.autoContinue = false

theorem manual_of_ne {s : State} (other : s.systemState ≠ .wait) : Manual s :=
  fun waiting => absurd waiting other

theorem Manual.byHand {s : State} {step : RecipeStep} (manual : Manual s)
    (waiting : s.systemState = .wait) (current : s.current = some step) :
    step.autoContinue = false := by
  obtain ⟨other, found, byHand⟩ := manual waiting
  rw [← Option.some.inj (found.symm.trans current)]
  exact byHand

/-- A wait is not auto-continued. -/
theorem Manual.running {readings : Readings} {s : State} {step : RecipeStep} (manual : Manual s)
    (continues : AutoContinues readings s step) : s.systemState = .running := by
  rcases continues.active with running | waiting
  · exact running
  · have byHand := manual.byHand waiting continues.current
    exact absurd (continues.auto.symm.trans byHand) (by decide)

theorem startStep_not_wait {now : Millis} {index : Byte} {s : State} {outcome : Outcome}
    (other : s.systemState ≠ .wait) (ran : startStep now index s = .ok outcome) :
    outcome.state.systemState ≠ .wait := by
  cases startStep_cases ran with
  | ignored => exact other
  | recipeEnd => simp
  | begun => exact other

theorem manual_step {clock : Clocks Millis} {step : RecipeStep} {s : State} {outcome : Outcome}
    (current : s.current = some step) (manual : Manual s)
    (ran : stepController clock step s = .ok outcome) : Manual outcome.state := by
  cases stepController_cases ran with
  | idle => exact manual
  | goesOn => exact manual
  | continues active _ auto _ started =>
    apply manual_of_ne
    apply startStep_not_wait _ started
    intro waiting
    exact absurd (auto.symm.trans (manual.byHand waiting current)) (by decide)
  | waits _ _ byHand => exact fun _ => ⟨step, current, byHand⟩

theorem manual_heater (step : RecipeStep) {s : State} (manual : Manual s) :
    Manual (heaterController step s).state := by
  rw [heaterController_state]
  exact manual

theorem manual_input {readings : Readings} {s : State} {outcome : Outcome} (manual : Manual s)
    (ran : inputController readings s = .ok outcome) : Manual outcome.state := by
  cases inputController_cases ran with
  | ignored => exact manual
  | selects selecting =>
    apply manual_of_ne
    rw [selectionButtons_frame]
    simp [selecting]
  | begins => exact manual_of_ne (by simp)
  | confirms => exact manual_of_ne (by simp)

theorem manual_screen {readings : Readings} {s : State} {outcome : Outcome} (manual : Manual s)
    (ran : screenController readings s = .ok outcome) : Manual outcome.state := by
  rw [screenController_state ran]
  exact manual

/-- `Manual` after every controller of an iteration. -/
structure ManualThroughout (iteration : Iteration) : Prop where
  step : Manual iteration.afterStep.state
  heater : Manual iteration.afterHeater.state
  input : Manual iteration.afterInput.state
  final : Manual iteration.final

theorem manual_iteration {readings : Readings} {s : State} {iteration : Iteration}
    (rounded : Rounded readings s iteration) (manual : Manual s) :
    ManualThroughout iteration := by
  have step : Manual iteration.afterStep.state :=
    manual_step (s := sense readings s) rounded.stepEntry manual rounded.step
  have heater : Manual iteration.afterHeater.state := by
    rw [rounded.heater]
    exact manual_heater _ step
  have input := manual_input heater rounded.input
  exact ⟨step, heater, input, manual_screen input rounded.screen⟩

theorem manual_run (run : SketchRun) {table : RecipeTable} (start : run.state 0 = setupWith table)
    {n : ℕ} (bound : n ≤ run.length) : Manual (run.state n) := by
  have base : Manual (run.state 0) := manual_of_ne (by simp [start, setupWith])
  exact run.invariant_from Manual base
    (fun _ _ _ manual round => (manual_iteration (loop_ok_iff.mp round) manual).final)
    (Nat.zero_le n) bound

/-- Waiting, with the step, the selection and the table of `s`. -/
structure StillWaiting (s after : State) : Prop where
  waiting : after.systemState = .wait
  step : after.currentStep = s.currentStep
  selected : after.currentRecipe = s.currentRecipe
  table : after.recipe = s.recipe

theorem StillWaiting.current {s after : State} (still : StillWaiting s after) :
    after.current = s.current := by
  unfold State.current State.entry
  rw [still.step, still.selected, still.table]

/-- `stepController` and the heater leave a wait alone. -/
theorem stillWaiting_heater {readings : Readings} {s : State} {iteration : Iteration}
    (rounded : Rounded readings s iteration) (manual : Manual s)
    (waiting : s.systemState = .wait) :
    iteration.afterStep.events = [] ∧ StillWaiting s iteration.afterHeater.state := by
  have kept : ¬AutoContinues readings s iteration.stepArgument := by
    intro continues
    exact absurd (waiting.symm.trans (manual.running continues)) (by decide)
  obtain ⟨quiet, same⟩ := step_of_kept rounded kept
  rw [waiting, ite_self] at same
  refine ⟨quiet, ?_⟩
  rw [rounded.heater, heaterController_state, same]
  exact ⟨rfl, rfl, rfl, rfl⟩

theorem stillWaiting_iteration {readings : Readings} {s : State} {iteration : Iteration}
    (rounded : Rounded readings s iteration) (manual : Manual s) (waiting : s.systemState = .wait)
    (ignored : ¬SelectAccepted readings iteration.afterHeater.state) :
    StillWaiting s iteration.final := by
  have heater := (stillWaiting_heater rounded manual waiting).2
  have input : StillWaiting s iteration.afterInput.state := by
    have selecting : iteration.afterHeater.state.systemState ≠ .init := by simp [heater.waiting]
    have same := inputController_ignored (fun init => absurd init selecting)
      (fun confirmed => ignored confirmed.2)
    rw [Except.ok.inj (rounded.input.symm.trans same)]
    exact heater
  unfold Iteration.final
  rw [screenController_state rounded.screen]
  exact ⟨input.waiting, input.step, input.selected, input.table⟩

theorem stillWaiting_run (run : SketchRun) {table : RecipeTable}
    (start : run.state 0 = setupWith table) {first last : ℕ} (later : first ≤ last)
    (bound : last ≤ run.length) (waiting : (run.state first).systemState = .wait)
    (ignored : ∀ k, first ≤ k → k < last →
      ¬SelectAccepted (run.input k) (run.record k).afterHeater.state) :
    StillWaiting (run.state first) (run.state last) := by
  induction last, later using Nat.le_induction with
  | base => exact ⟨waiting, rfl, rfl, rfl⟩
  | succ last later ih =>
    have before := ih (by omega) (fun k after earlier => ignored k after (by omega))
    have rounded := loop_ok_iff.mp (run.rounds last bound)
    have manual := manual_run run start (show last ≤ run.length by omega)
    have after := stillWaiting_iteration rounded manual before.waiting
      (ignored last later (Nat.lt_succ_self last))
    rw [run.links last bound]
    exact ⟨after.waiting, after.step.trans before.step, after.selected.trans before.selected,
      after.table.trans before.table⟩

/-! What is on the LCD. -/

/-- Everything drawn in the iterations before iteration `n`, in order. -/
def drawnBefore (run : SketchRun) : ℕ → List LcdOp
  | 0 => []
  | n + 1 => drawnBefore run n ++ drawn ((run.record n).events (run.state n))

/-- The last thing drawn is a clear and the prompt of the current step. -/
def Prompted (s : State) (log : List LcdOp) : Prop :=
  ∃ step, s.current = some step ∧ (.clear :: promptOps step) <:+ log

theorem prompted_waitAtStepEnd {s : State} {log : List LcdOp} (prompted : Prompted s log) :
    ∃ outcome, waitAtStepEnd s = .ok outcome ∧ (.clear :: drawn outcome.events) <:+ log := by
  obtain ⟨step, current, last⟩ := prompted
  refine ⟨_, waitAtStepEnd_eq current, ?_⟩
  change (.clear :: drawn (draw (promptOps step))) <:+ log
  rw [drawn_draw]
  exact last

theorem startStep_drawn {now : Millis} {index : Byte} {s : State} {outcome : Outcome}
    (ran : startStep now index s = .ok outcome) : drawn outcome.events = [] := by
  cases startStep_cases ran with
  | ignored => rfl
  | recipeEnd => rfl
  | begun =>
    unfold beginEvents
    rw [drawn_append, drawn_append]
    simp [drawn]

theorem stepController_drawn {clock : Clocks Millis} {step : RecipeStep} {s : State}
    {outcome : Outcome} (ran : stepController clock step s = .ok outcome) :
    drawn outcome.events = [] := by
  cases stepController_cases ran with
  | idle => rfl
  | goesOn => rfl
  | continues _ _ _ _ started => exact startStep_drawn started
  | waits => rfl

/-- A system that waits after `inputController` was left alone by it. -/
theorem input_of_wait {readings : Readings} {s : State} {outcome : Outcome}
    (ran : inputController readings s = .ok outcome)
    (waiting : outcome.state.systemState = .wait) : outcome = ⟨s, []⟩ := by
  cases inputController_cases ran with
  | ignored => rfl
  | selects selecting =>
    rw [selectionButtons_frame] at waiting
    exact absurd (selecting.symm.trans waiting) (by decide)
  | begins => cases waiting
  | confirms => cases waiting

theorem drawn_iteration {readings : Readings} {s : State} {iteration : Iteration}
    (rounded : Rounded readings s iteration) :
    drawn (iteration.events s) =
      drawn iteration.afterInput.events ++ drawn iteration.afterScreen.events := by
  have heater : drawn iteration.afterHeater.events = [] := by
    rw [rounded.heater, heaterController_events]
    rfl
  simp only [Iteration.events, drawn_append, stepController_drawn rounded.step, heater,
    List.append_nil]
  rfl

theorem screen_of_wait {readings : Readings} {s : State} {outcome : Outcome}
    (ran : screenController readings s = .ok outcome) (waiting : s.systemState = .wait) :
    if screenChanges s then
      ∃ step, s.current = some step ∧ drawn outcome.events = .clear :: promptOps step
    else drawn outcome.events = [] := by
  obtain ⟨shown, show_, _, events⟩ := screenController_ok ran
  simp only [showScreen, waiting] at show_
  cases changes : screenChanges s with
  | true =>
    simp only [changes, if_true] at show_ events ⊢
    obtain ⟨step, read, _⟩ := bind_eq_ok.mp show_
    have current : s.current = some step := readRecipe_eq_ok.mp read
    rw [waitAtStepEnd_eq current] at show_
    cases show_
    refine ⟨step, current, ?_⟩
    rw [events, drawn_append, drawn_draw]
    exact congrArg (LcdOp.clear :: ·) (drawn_draw (promptOps step))
  | false =>
    simp only [changes, Bool.false_eq_true, if_false] at show_ events ⊢
    cases show_
    rw [events]
    rfl

/-- A screen state of `ST_WAIT` goes with a wait whose prompt is on the LCD. -/
def Shown (s : State) (log : List LcdOp) : Prop :=
  s.lastSystemState = some .wait → s.systemState = .wait ∧ Prompted s log

theorem shown_iteration {readings : Readings} {s : State} {iteration : Iteration}
    {log : List LcdOp} (rounded : Rounded readings s iteration) (manual : Manual s)
    (shown : Shown s log) (waiting : iteration.final.systemState = .wait) :
    Prompted iteration.final (log ++ drawn (iteration.events s)) := by
  have screened := screenController_state rounded.screen
  have inputWaiting : iteration.afterInput.state.systemState = .wait := by
    have same := congrArg State.systemState screened
    exact same.symm.trans waiting
  have input := input_of_wait rounded.input inputWaiting
  have current : iteration.final.current = iteration.afterInput.state.current := by
    have kept := congrArg State.current screened
    exact kept
  have lastKept : iteration.afterInput.state.lastSystemState = s.lastSystemState := by
    rw [input, rounded.heater, heaterController_state]
    have kept := congrArg State.lastSystemState (stepController_frame rounded.step)
    exact kept
  have screen := screen_of_wait rounded.screen inputWaiting
  unfold Prompted
  rw [drawn_iteration rounded, input, current]
  cases changes : screenChanges iteration.afterInput.state with
  | true =>
    rw [changes, if_pos rfl] at screen
    obtain ⟨step, found, drew⟩ := screen
    refine ⟨step, found, log, ?_⟩
    rw [drew]
    rfl
  | false =>
    rw [changes, if_neg Bool.false_ne_true] at screen
    have last : s.lastSystemState = some .wait := by
      unfold screenChanges at changes
      rw [lastKept, inputWaiting] at changes
      simpa using changes
    obtain ⟨before, step, found, suffix⟩ := shown last
    have heater := (stillWaiting_heater rounded manual before).2
    refine ⟨step, ?_, ?_⟩
    · rw [input]
      exact heater.current.trans found
    · rw [screen]
      change _ <:+ log ++ []
      rw [List.append_nil]
      exact suffix

theorem shown_run (run : SketchRun) {table : RecipeTable} (start : run.state 0 = setupWith table)
    {n : ℕ} (bound : n ≤ run.length) : Shown (run.state n) (drawnBefore run n) := by
  refine run.history_from (fun n s => Shown s (drawnBefore run n)) ?_ ?_ (Nat.zero_le n) bound
  · intro last
    rw [start] at last
    cases last
  · intro k inside _ shown round last
    have rounded := loop_ok_iff.mp round
    have same : (run.record k).final.lastSystemState = some (run.record k).final.systemState := by
      unfold Iteration.final
      rw [screenController_state rounded.screen]
    have waiting : (run.record k).final.systemState = .wait :=
      Option.some.inj (same.symm.trans last)
    exact ⟨waiting, shown_iteration rounded (manual_run run start (Nat.le_of_lt inside)) shown
      waiting⟩

/-- In every run from `setup`: a wait is on a manual step, it lasts until Select is accepted, and
an iteration that ends in it leaves the prompt of its step as the last thing drawn. -/
theorem wait_stable_and_prompted (run : SketchRun) {table : RecipeTable}
    (start : run.state 0 = setupWith table) :
    (∀ n < run.length, ManualThroughout (run.record n)) ∧
      (∀ first last, first ≤ last → last ≤ run.length →
        (run.state first).systemState = .wait →
          (∀ k, first ≤ k → k < last →
            ¬SelectAccepted (run.input k) (run.record k).afterHeater.state) →
              StillWaiting (run.state first) (run.state last)) ∧
      ∀ n < run.length, (run.record n).final.systemState = .wait →
        Prompted (run.record n).final (drawnBefore run (n + 1)) ∧
          ∃ outcome, waitAtStepEnd (run.record n).final = .ok outcome ∧
            (.clear :: drawn outcome.events) <:+ drawnBefore run (n + 1) := by
  refine ⟨?_, ?_, ?_⟩
  · intro n inside
    exact manual_iteration (loop_ok_iff.mp (run.rounds n inside))
      (manual_run run start (Nat.le_of_lt inside))
  · intro first last later bound waiting ignored
    exact stillWaiting_run run start later bound waiting ignored
  · intro n inside waiting
    have rounded := loop_ok_iff.mp (run.rounds n inside)
    have prompted : Prompted (run.record n).final (drawnBefore run (n + 1)) :=
      shown_iteration rounded (manual_run run start (Nat.le_of_lt inside))
        (shown_run run start (Nat.le_of_lt inside)) waiting
    exact ⟨prompted, prompted_waitAtStepEnd prompted⟩

/-- Select starts step 0, which is over at the first reading; nobody confirms it. -/
def mashIn : SketchRun :=
  sketch.follow (fun n => readingsAt 12800 (if n = 0 then 700 else 1023)
    (BitVec.ofNat 32 (1000 * (n + 1)))) setup 4 (by decide +kernel)

theorem wait_stable_and_prompted_mashIn :
    StillWaiting (mashIn.state 2) (mashIn.state 4) ∧
      Prompted (mashIn.record 3).final (drawnBefore mashIn 4) ∧ ∃ outcome, waitAtStepEnd (mashIn.record 3).final = .ok outcome ∧
        (.clear :: drawn outcome.events) <:+ drawnBefore mashIn 4 := by
  obtain ⟨_, stable, prompted⟩ := wait_stable_and_prompted mashIn (show _ = setup from rfl)
  refine ⟨stable 2 4 (by decide) (by decide) (by decide +kernel) ?_,
    prompted 3 (by decide) (by decide +kernel)⟩
  intro k after before
  have released : ∀ readings : Readings, readings.adcKeyIn = 1023 → ∀ s,
      ¬SelectAccepted readings s := by
    intro readings open_ s accepted
    unfold SelectAccepted at accepted
    rw [open_] at accepted
    exact absurd accepted.2 (by decide)
  exact released _ (if_neg (by omega)) _

end ArduMash.Behaviour.Waiting
