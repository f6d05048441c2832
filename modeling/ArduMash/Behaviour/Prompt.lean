import ArduMash.Behaviour.Faults

/-!
The prompt before a confirmation. A wait that is entered and left in different
iterations has shown its prompt; one that `stepController` enters while Select is
held is confirmed in the same iteration, before `screenController` runs.
-/

namespace ArduMash.Behaviour.Prompt
open Sketch Globals Hardware Screens Controllers Loop StartStep ControllerEffects Waiting Moves
  Faults Foundation.RoundMachine

/-- `screenController` clears the LCD and runs `waitAtStepEnd`, which draws the message of the
current step and "Press Select". -/
def Prompts (iteration : Iteration) : Prop :=
  (∃ outcome, waitAtStepEnd iteration.afterInput.state = .ok outcome ∧
    iteration.afterScreen.events = draw [.clear] ++ outcome.events) ∧
  ∃ step, iteration.afterInput.state.current = some step ∧
    drawn iteration.afterScreen.events = .clear :: promptOps step

/-- An iteration before `last` has shown the prompt of the step that is current in `s`, and no
step was started since. -/
def ShownSince (run : SketchRun) (last : ℕ) (s : State) : Prop :=
  ∃ i < last, Prompts (run.record i) ∧
    (run.record i).afterInput.state.currentStep = s.currentStep ∧
    (run.record i).afterInput.state.currentRecipe = s.currentRecipe ∧
    ∀ m, i < m → m < last → ¬Starts (run.record m)

/-- The end of a step for the operator is found while Select is accepted. -/
def EndsUnderSelect (readings : Readings) (s : State) : Prop :=
  s.systemState = .running ∧ SelectAccepted readings s ∧
    ∃ step, s.current = some step ∧ Over readings step ∧ step.autoContinue = false

/-- The screen state is that of the last iteration; before the first there is none. -/
def Synced (s : State) : Prop :=
  s.lastSystemState = none ∨ s.lastSystemState = some s.systemState

theorem synced_final {readings : Readings} {s : State} {iteration : Iteration}
    (rounded : Rounded readings s iteration) : Synced iteration.final := by
  unfold Iteration.final
  rw [screenController_state rounded.screen]
  exact Or.inr rfl

theorem synced_run (run : SketchRun) {table : RecipeTable} (start : run.state 0 = setupWith table)
    {n : ℕ} (bound : n ≤ run.length) : Synced (run.state n) := by
  apply run.invariant_from Synced _ _ (Nat.zero_le n) bound
  · rw [start]
    exact Or.inl rfl
  · exact fun _ _ _ _ round => synced_final (loop_ok_iff.mp round)

theorem afterInput_lastSystemState {readings : Readings} {s : State} {iteration : Iteration}
    (rounded : Rounded readings s iteration) :
    iteration.afterInput.state.lastSystemState = s.lastSystemState := by
  have input := congrArg State.lastSystemState (inputController_frame rounded.input)
  have heater : iteration.afterHeater.state.lastSystemState =
      iteration.afterStep.state.lastSystemState := by
    rw [rounded.heater, heaterController_state]
  have step := congrArg State.lastSystemState (stepController_frame rounded.step)
  exact (input.trans heater).trans step

/-- The screen draws the prompt when the wait is new to it. -/
theorem prompts_of_new {readings : Readings} {s : State} {iteration : Iteration}
    (rounded : Rounded readings s iteration)
    (waiting : iteration.afterInput.state.systemState = .wait)
    (fresh : s.lastSystemState ≠ some .wait) : Prompts iteration := by
  obtain ⟨shown, show_, _, events⟩ := screenController_ok rounded.screen
  have changes : screenChanges iteration.afterInput.state = true := by
    unfold screenChanges
    rw [afterInput_lastSystemState rounded, waiting]
    exact decide_eq_true fresh
  have drew := screen_of_wait rounded.screen waiting
  rw [changes, if_pos rfl] at drew
  simp only [showScreen, waiting, changes, if_true] at show_ events
  exact ⟨⟨shown, show_, events⟩, drew⟩

theorem final_of_screen {readings : Readings} {s : State} {iteration : Iteration}
    (rounded : Rounded readings s iteration) :
    iteration.final.systemState = iteration.afterInput.state.systemState ∧
      iteration.final.currentStep = iteration.afterInput.state.currentStep ∧
        iteration.final.currentRecipe = iteration.afterInput.state.currentRecipe := by
  have same := control_final rounded
  exact ⟨congrArg Control.systemState same, congrArg Control.currentStep same,
    congrArg Control.currentRecipe same⟩

/-- A wait that goes on starts nothing. -/
theorem quiet_of_wait {readings : Readings} {s : State} {iteration : Iteration}
    (rounded : Rounded readings s iteration) (manual : Manual s) (before : s.systemState = .wait)
    (waiting : iteration.afterInput.state.systemState = .wait) :
    ¬Starts iteration ∧ StillWaiting s iteration.afterInput.state := by
  obtain ⟨quiet, still⟩ := stillWaiting_heater rounded manual before
  have input := input_of_wait rounded.input waiting
  rw [input]
  refine ⟨?_, still⟩
  rintro ⟨index, accepted | accepted⟩
  · rw [quiet] at accepted
    exact not_accepts_nil index accepted
  · rw [input] at accepted
    exact not_accepts_nil index accepted

theorem shownSince_next (run : SketchRun) {n : ℕ} (inside : n < run.length)
    (manual : Manual (run.state n)) (synced : Synced (run.state n))
    (shown : (run.state n).systemState = .wait → ShownSince run n (run.state n))
    (waiting : (run.record n).final.systemState = .wait) :
    ShownSince run (n + 1) (run.record n).final := by
  have rounded := loop_ok_iff.mp (run.rounds n inside)
  obtain ⟨samePhase, sameStep, sameRow⟩ := final_of_screen rounded
  rw [waiting] at samePhase
  by_cases old : (run.state n).lastSystemState = some .wait
  · have before : (run.state n).systemState = .wait := by
      rcases synced with none | last
      · rw [none] at old
        cases old
      · exact Option.some.inj (last.symm.trans old)
    obtain ⟨quiet, still⟩ := quiet_of_wait rounded manual before samePhase.symm
    obtain ⟨i, earlier, prompts, step, row, alone⟩ := shown before
    refine ⟨i, Nat.lt_succ_of_lt earlier, prompts, ?_, ?_, since_succ alone quiet⟩
    · exact step.trans (sameStep.trans still.step).symm
    · exact row.trans (sameRow.trans still.selected).symm
  · refine ⟨n, Nat.lt_succ_self n, prompts_of_new rounded samePhase.symm old, sameStep.symm,
      sameRow.symm, ?_⟩
    intro m after bound
    exact absurd after (by omega)

theorem shownSince_run (run : SketchRun) {table : RecipeTable}
    (start : run.state 0 = setupWith table) {n : ℕ} (bound : n ≤ run.length)
    (waiting : (run.state n).systemState = .wait) : ShownSince run n (run.state n) := by
  induction n with
  | zero =>
    rw [start] at waiting
    cases waiting
  | succ n ih =>
    have manual := manual_run run start (Nat.le_of_lt bound)
    have synced := synced_run run start (Nat.le_of_lt bound)
    rw [run.links n bound] at waiting ⊢
    exact shownSince_next run bound manual synced (ih (Nat.le_of_lt bound)) waiting

/-- The system that is confirmed waited before the iteration, or its step ends under Select. -/
theorem waited_of_confirms {readings : Readings} {s : State} {iteration : Iteration}
    (rounded : Rounded readings s iteration) (manual : Manual s)
    (confirmed : Confirms iteration) :
    s.systemState = .wait ∨ EndsUnderSelect readings s := by
  have heater := control_heater rounded
  have waiting : iteration.afterStep.state.systemState = .wait :=
    (congrArg Control.systemState heater).symm.trans confirmed.1
  have accepted := (selectAccepted_heater rounded).mp ((confirms_iff rounded).mp confirmed).2
  rcases (wait_of_step manual rounded.stepEntry rounded.step waiting).1 with before | ends
  · exact Or.inl before
  · obtain ⟨running, due, byHand⟩ := ends
    exact Or.inr ⟨running, accepted, _, rounded.stepEntry, due, byHand⟩

/-- The prompt of the step that iteration `n` confirms was shown since the step was started. -/
def SeenBefore (run : SketchRun) (n : ℕ) : Prop :=
  ShownSince run n (run.record n).afterHeater.state ∧
    ∀ index, ¬Accepts index (run.record n).afterStep.events

theorem seenBefore_of_waited (run : SketchRun) {table : RecipeTable}
    (start : run.state 0 = setupWith table) {n : ℕ} (inside : n < run.length)
    (before : (run.state n).systemState = .wait) : SeenBefore run n := by
  have rounded := loop_ok_iff.mp (run.rounds n inside)
  have manual := manual_run run start (Nat.le_of_lt inside)
  obtain ⟨quiet, still⟩ := stillWaiting_heater rounded manual before
  obtain ⟨i, earlier, prompts, step, row, alone⟩ :=
    shownSince_run run start (Nat.le_of_lt inside) before
  constructor
  · exact ⟨i, earlier, prompts, step.trans still.step.symm, row.trans still.selected.symm, alone⟩
  · intro index
    rw [quiet]
    exact not_accepts_nil index

/-- If no step for the operator ends while Select is accepted, every step that is confirmed has
shown its prompt since it was started. -/
theorem confirmed_after_prompt (run : SketchRun) {table : RecipeTable}
    (start : run.state 0 = setupWith table)
    (released : ∀ n < run.length, ¬EndsUnderSelect (run.input n) (run.state n)) :
    ∀ n < run.length, Confirms (run.record n) → SeenBefore run n := by
  intro n inside confirmed
  have rounded := loop_ok_iff.mp (run.rounds n inside)
  have manual := manual_run run start (Nat.le_of_lt inside)
  rcases waited_of_confirms rounded manual confirmed with before | ends
  · exact seenBefore_of_waited run start inside before
  · exact absurd ends (released n inside)

/-- Select is released for one iteration before it confirms step 0. -/
def releasedConfirm : SketchRun :=
  sketch.follow (fun n => readingsAt 12800 (if n = 1 then 1023 else 700)
    (BitVec.ofNat 32 (1000 * (n + 1)))) setup 3 (by decide +kernel)

theorem confirmed_after_prompt_releasedConfirm : SeenBefore releasedConfirm 2 := by
  refine confirmed_after_prompt releasedConfirm (show _ = setup from rfl) ?_ 2 (by decide)
    (by decide +kernel)
  intro n inside ends
  change n < 3 at inside
  obtain ⟨running, accepted, _⟩ := ends
  obtain rfl | rfl | rfl : n = 0 ∨ n = 1 ∨ n = 2 := by omega
  · exact absurd running (by decide +kernel)
  · exact absurd accepted (by decide +kernel)
  · exact absurd running (by decide +kernel)

theorem prompts_serial {iteration : Iteration} (prompts : Prompts iteration) :
    ∃ line, .serial line ∈ iteration.afterScreen.events := by
  obtain ⟨⟨outcome, ran, events⟩, _⟩ := prompts
  obtain ⟨step, _, rest⟩ := bind_eq_ok.mp ran
  cases rest
  rw [events]
  exact ⟨[.message (getMessage step.messageNo)], by simp⟩

/-- Step 0 is over when Select is still held from its start, and is confirmed unseen. -/
theorem confirmed_unseen :
    ¬∀ (run : SketchRun) (table : RecipeTable), run.state 0 = setupWith table →
      ∀ n < run.length, Confirms (run.record n) → SeenBefore run n := by
  intro seen
  obtain ⟨⟨i, earlier, prompts, _⟩, _⟩ := seen firstConfirm mashRecipe rfl 1 (by decide)
    (by decide +kernel)
  have first : i = 0 := by omega
  rw [first] at prompts
  obtain ⟨line, printed⟩ := prompts_serial prompts
  have silent : (firstConfirm.record 0).afterScreen.events.all (fun event => match event with
      | .serial _ => false
      | _ => true) = true := by decide +kernel
  exact absurd (List.all_eq_true.mp silent _ printed) Bool.false_ne_true

end ArduMash.Behaviour.Prompt
