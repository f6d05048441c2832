import ArduMash.Behaviour.Progress

/-!
The debounce of the buttons. In the selection every accepted button restarts the
timer that the next one has to wait for; the confirmation of a wait does not.
-/

namespace ArduMash.Behaviour.Debounce
open Sketch Globals Hardware Screens Controllers Loop StartStep ControllerEffects Waiting Moves
  Progress Foundation.RoundMachine Foundation.WrappingClock

/-- A button changes the selected recipe or step. -/
def Selects (iteration : Iteration) : Prop :=
  iteration.afterHeater.state.systemState = .init ∧
    (iteration.afterInput.state.currentRecipe ≠ iteration.afterHeater.state.currentRecipe ∨
      iteration.afterInput.state.currentStep ≠ iteration.afterHeater.state.currentStep)

/-- The start of the recipe: `inputController` leaves the selection. -/
def Begins (iteration : Iteration) : Prop :=
  iteration.afterHeater.state.systemState = .init ∧
    iteration.afterInput.state.systemState ≠ .init

/-- The button actions. -/
def Acts (iteration : Iteration) : Prop :=
  Selects iteration ∨ Begins iteration ∨ Confirms iteration

/-- What an iteration finds when Select is about to confirm a wait, told from the readings and the
state it starts from. -/
def SelectInWait (readings : Readings) (s : State) : Prop :=
  SelectAccepted readings s ∧ ∃ step ∈ s.current, Waits readings s step

instance (readings : Readings) (s : State) (step : RecipeStep) :
    Decidable (Waits readings s step) :=
  inferInstanceAs (Decidable (_ ∨ _))

instance (readings : Readings) (s : State) : Decidable (SelectInWait readings s) :=
  inferInstanceAs (Decidable (_ ∧ _))

theorem selectionButtons_stamps (key : Button) (now : Millis) (s : State) :
    selectionButtons key now s = s ∨ (selectionButtons key now s).lastInput = now := by
  cases key with
  | right => exact Or.inr rfl
  | up => exact Or.inr rfl
  | down =>
    simp only [selectionButtons, reduceCtorEq, false_and, if_false, true_and]
    split_ifs with other
    · exact Or.inr rfl
    · exact Or.inl rfl
  | left =>
    simp only [selectionButtons, reduceCtorEq, false_and, if_false, true_and]
    split_ifs with other
    · exact Or.inr rfl
    · exact Or.inl rfl
  | select => exact Or.inl (selectionButtons_select now s)
  | none => exact Or.inl rfl

section Iteration
variable {readings : Readings} {s : State} {iteration : Iteration}
  (rounded : Rounded readings s iteration)
include rounded

theorem final_lastInput : iteration.final.lastInput = iteration.afterInput.state.lastInput :=
  congrArg Control.lastInput (control_final rounded)

/-- The selection is left exactly where Select is accepted in it. -/
theorem begins_iff :
    Begins iteration ↔ iteration.afterHeater.state.systemState = .init ∧
      SelectAccepted readings iteration.afterHeater.state := by
  unfold Begins
  refine and_congr_right fun selecting => ?_
  cases given : iteration.afterInput with
  | mk state events =>
    have ran := rounded.input
    rw [given] at ran
    cases inputController_cases ran with
    | ignored quiet =>
      refine iff_of_false (fun left => left selecting) fun accepted => ?_
      exact absurd (accepted.1.symm.trans (quiet selecting)) (by decide)
    | selects _ _ other =>
      rw [selectionButtons_frame]
      exact iff_of_false (fun left => left selecting) fun accepted => other accepted.2
    | begins _ accepted => exact iff_of_true (fun stays => by cases stays) accepted
    | confirms waiting => exact absurd (selecting.symm.trans waiting) (by decide)

theorem confirms_iff_selectInWait (manual : Manual s) :
    Confirms iteration ↔ SelectInWait readings s := by
  constructor
  · intro confirms
    obtain ⟨waiting, accepted⟩ := (confirms_iff rounded).mp confirms
    have stepWaiting : iteration.afterStep.state.systemState = .wait := by
      have same := congrArg Control.systemState (control_heater rounded)
      exact same.symm.trans waiting
    have found := (Faults.wait_of_step manual rounded.stepEntry rounded.step stepWaiting).1
    exact ⟨(selectAccepted_heater rounded).mp accepted, _, rounded.stepEntry, found⟩
  · rintro ⟨accepted, step, current, found⟩
    have same : iteration.stepArgument = step :=
      Option.some.inj (rounded.stepEntry.symm.trans current)
    exact Faults.confirms_of_waits rounded manual (same ▸ found) accepted

/-- Every action passes the guard, against the timer the iteration found. -/
theorem accepts_of_acts (acts : Acts iteration) : accepts readings s = true := by
  rw [← accepts_heater rounded]
  rcases acts with ⟨selecting, changed⟩ | begins | confirms
  · by_contra refused
    have ignored := inputController_ignored
      (fun _ => Bool.eq_false_iff.mpr refused) (fun waits => refused waits.2.1)
    rw [Except.ok.inj (rounded.input.symm.trans ignored)] at changed
    rcases changed with recipe | step
    · exact recipe rfl
    · exact step rfl
  · exact ((begins_iff rounded).mp begins).2.1
  · exact ((confirms_iff rounded).mp confirms).2.1

/-- `lastInput` is only ever set to the time of the iteration, and every action in the selection
sets it. -/
theorem lastInput_next :
    iteration.final.lastInput = readings.clock.stamp ∨
      iteration.final.lastInput = s.lastInput ∧ ¬(Selects iteration ∨ Begins iteration) := by
  have before := control_lastInput rounded
  rw [final_lastInput rounded, ← before, begins_iff rounded]
  unfold Selects
  cases given : iteration.afterInput with
  | mk state events =>
    have ran := rounded.input
    rw [given] at ran
    cases inputController_cases ran with
    | ignored quiet =>
      refine Or.inr ⟨rfl, ?_⟩
      rintro (⟨_, recipe | step⟩ | ⟨selecting, accepted⟩)
      · exact recipe rfl
      · exact step rfl
      · exact absurd (accepted.1.symm.trans (quiet selecting)) (by decide)
    | selects _ _ other =>
      rcases selectionButtons_stamps (readLCDButtons readings.adcKeyIn) readings.clock.stamp
        iteration.afterHeater.state with same | stamped
      · refine Or.inr ⟨congrArg State.lastInput same, ?_⟩
        rw [same]
        rintro (⟨_, recipe | step⟩ | ⟨_, accepted⟩)
        · exact recipe rfl
        · exact step rfl
        · exact other accepted.2
      · exact Or.inl stamped
    | begins => exact Or.inl rfl
    | confirms waiting _ _ started =>
      have kept := congrArg State.lastInput (startStep_frame started)
      refine Or.inr ⟨kept, ?_⟩
      rintro (⟨selecting, _⟩ | ⟨selecting, _⟩)
      · exact absurd (selecting.symm.trans waiting) (by decide)
      · exact absurd (selecting.symm.trans waiting) (by decide)

/-- A confirmed recipe does not come back to the selection. -/
theorem started_of_confirms (confirms : Confirms iteration) :
    iteration.final.systemState ≠ .init := by
  have chosen : Chosen iteration.afterHeater.state.currentRecipe iteration.afterHeater.state :=
    ⟨by simp [confirms.1], rfl⟩
  have input := inputController_chosen chosen rounded.input
  have same := congrArg Control.systemState (control_final rounded)
  exact fun selecting => input.1 (same.symm.trans selecting)

theorem not_selection_of_started (started : s.systemState ≠ .init) :
    ¬(Selects iteration ∨ Begins iteration) := by
  have heater := heater_started rounded started
  rintro (⟨selecting, _⟩ | ⟨selecting, _⟩)
  · exact heater selecting
  · exact heater selecting

end Iteration

/-! Runs. -/

section Run
variable {run : SketchRun} {times : ℕ → Clocks ℕ}

/-- More than `buttonDelay` of true time lies between the guards of two iterations. -/
def Apart (times : ℕ → Clocks ℕ) (first last : ℕ) : Prop :=
  (times first).guard + 350 < (times last).guard

theorem stamp_before_guard (timed : TrueTime run times) {first last : ℕ} (earlier : first < last)
    (inside : last < run.length) : (times first).stamp ≤ (times last).guard := by
  have before := timed.ordered first (by omega)
  have after := timed.ordered last inside
  have between := timed.later earlier inside
  have screens := before.screens (show (0 : Fin 4) ≤ 3 by decide)
  have shown := before.screen
  have step := after.autoStart
  have guard := after.guard
  omega

theorem guard_le_stamp (timed : TrueTime run times) {n : ℕ} (inside : n < run.length) :
    (times n).guard ≤ (times n).stamp := by
  have ordered := timed.ordered n inside
  exact Nat.le_trans ordered.selectStart ordered.stamp

theorem guard_mono (timed : TrueTime run times) {first last : ℕ} (upTo : first ≤ last)
    (inside : last < run.length) : (times first).guard ≤ (times last).guard := by
  rcases Nat.eq_or_lt_of_le upTo with same | earlier
  · rw [same]
  · exact Nat.le_trans (guard_le_stamp timed (by omega)) (stamp_before_guard timed earlier inside)

/-- From an action in the selection on, the timer is not older than the action. -/
theorem timer_since (timed : TrueTime run times) {first n : ℕ}
    (action : Selects (run.record first) ∨ Begins (run.record first))
    (after : first + 1 ≤ n) (bound : n ≤ run.length) :
    ∃ c, first ≤ c ∧ c < n ∧ (run.state n).lastInput = shown 32 (times c).stamp := by
  have stampShown : ∀ k < run.length, (run.input k).clock.stamp = shown 32 (times k).stamp := by
    intro k inside
    rw [timed.shows k inside]
    rfl
  induction n, after using Nat.le_induction with
  | base =>
    have rounded := loop_ok_iff.mp (run.rounds first bound)
    refine ⟨first, Nat.le_refl _, Nat.lt_succ_self _, ?_⟩
    rw [run.links first bound, ← stampShown first bound]
    rcases lastInput_next rounded with stamped | ⟨_, quiet⟩
    · exact stamped
    · exact absurd action quiet
  | succ n after ih =>
    have rounded := loop_ok_iff.mp (run.rounds n bound)
    obtain ⟨c, since, before, same⟩ := ih (Nat.le_of_lt bound)
    rw [run.links n bound]
    rcases lastInput_next rounded with stamped | ⟨kept, _⟩
    · exact ⟨n, Nat.le_of_succ_le after, Nat.lt_succ_self n, stamped.trans (stampShown n bound)⟩
    · exact ⟨c, since, Nat.lt_succ_of_lt before, kept.trans same⟩

/-- Nothing follows an action in the selection too soon. -/
theorem apart_of_selection (timed : TrueTime run times) {first last : ℕ} (earlier : first < last)
    (inside : last < run.length)
    (action : Selects (run.record first) ∨ Begins (run.record first))
    (acts : Acts (run.record last)) : Apart times first last := by
  have rounded := loop_ok_iff.mp (run.rounds last inside)
  obtain ⟨c, since, before, same⟩ := timer_since timed action earlier (Nat.le_of_lt inside)
  have ordered := stamp_before_guard timed before inside
  have waited := elapsed_shown_le (w := 32) ordered
  have passed := accepts_of_acts rounded acts
  unfold accepts at passed
  rw [same, timed.shows last inside] at passed
  have delay : 350 < (elapsed (shown 32 (times c).stamp) (shown 32 (times last).guard)).toNat :=
    BitVec.lt_def.mp (of_decide_eq_true passed)
  have started := guard_mono timed since (Nat.lt_trans before inside)
  have stamped := guard_le_stamp timed (Nat.lt_trans before inside)
  unfold Apart
  omega

theorem started_after_confirms {first n : ℕ}
    (confirms : Confirms (run.record first)) (after : first + 1 ≤ n)
    (bound : n ≤ run.length) : (run.state n).systemState ≠ .init := by
  apply run.invariant_from (fun s => s.systemState ≠ .init) _ _ after bound
  · have inside : first < run.length := Nat.lt_of_lt_of_le after bound
    rw [run.links first inside]
    exact started_of_confirms (loop_ok_iff.mp (run.rounds first inside)) confirms
  · exact fun _ _ _ started round => final_started (loop_ok_iff.mp round) started

/-- The true time of the last confirmation before iteration `n`, told from what the iterations
before it started from. -/
def lastConfirmed (run : SketchRun) (times : ℕ → Clocks ℕ) : ℕ → Option ℕ
  | 0 => none
  | n + 1 =>
    if SelectInWait (run.input n) (run.state n) then some (times n).guard
    else lastConfirmed run times n

theorem lastConfirmed_found {n time : ℕ} (last : time ∈ lastConfirmed run times n) :
    ∃ k < n, SelectInWait (run.input k) (run.state k) ∧ (times k).guard = time := by
  induction n with
  | zero => cases last
  | succ n ih =>
    unfold lastConfirmed at last
    split_ifs at last with selected
    · exact ⟨n, Nat.lt_succ_self n, selected, Option.some.inj last⟩
    · obtain ⟨k, before, found⟩ := ih last
      exact ⟨k, Nat.lt_succ_of_lt before, found⟩

/-- A confirmation is not forgotten: the last one is as late or later. -/
theorem lastConfirmed_since (timed : TrueTime run times) {first n : ℕ} (after : first + 1 ≤ n)
    (bound : n ≤ run.length) (selected : SelectInWait (run.input first) (run.state first)) :
    ∃ time ∈ lastConfirmed run times n, (times first).guard ≤ time := by
  induction n, after using Nat.le_induction with
  | base => exact ⟨_, if_pos selected, Nat.le_refl _⟩
  | succ n after ih =>
    unfold lastConfirmed
    split_ifs with again
    · exact ⟨_, rfl, guard_mono timed (by omega) bound⟩
    · exact ih (Nat.le_of_lt bound)

/-- No wait is found within 350 ms of the last confirmation with Select pressed: the branch that
does not restart the timer is not entered again so soon. -/
def Unhurried (run : SketchRun) (times : ℕ → Clocks ℕ) : Prop :=
  ∀ n < run.length, SelectInWait (run.input n) (run.state n) →
    ∀ time ∈ lastConfirmed run times n, time + 350 < (times n).guard

/-- The debounce covers every pair of actions but two confirmations; it covers all of them exactly
if no wait is found with Select pressed within 350 ms of the last confirmation. -/
theorem actions_apart_iff {table : RecipeTable} (start : run.state 0 = setupWith table)
    (timed : TrueTime run times) :
    (∀ first last, first < last → last < run.length →
      Selects (run.record first) ∨ Begins (run.record first) → Acts (run.record last) →
        Apart times first last) ∧
    ((∀ first last, first < last → last < run.length → Acts (run.record first) →
      Acts (run.record last) → Apart times first last) ↔ Unhurried run times) := by
  have confirms_iff : ∀ n < run.length,
      (Confirms (run.record n) ↔ SelectInWait (run.input n) (run.state n)) :=
    fun n inside => confirms_iff_selectInWait (loop_ok_iff.mp (run.rounds n inside))
      (manual_run run start (Nat.le_of_lt inside))
  constructor
  · intro first last earlier inside action acts
    exact apart_of_selection timed earlier inside action acts
  · constructor
    · intro apart n inside selected time last
      obtain ⟨k, before, found, guard⟩ := lastConfirmed_found last
      have confirms := (confirms_iff k (Nat.lt_trans before inside)).mpr found
      have again := (confirms_iff n inside).mpr selected
      rw [← guard]
      exact apart k n before inside (Or.inr (Or.inr confirms)) (Or.inr (Or.inr again))
    · intro unhurried first last earlier inside acts later
      rcases or_assoc.mpr acts with action | confirms
      · exact apart_of_selection timed earlier inside action later
      · have rounded := loop_ok_iff.mp (run.rounds last inside)
        have started := started_after_confirms confirms earlier (Nat.le_of_lt inside)
        rcases or_assoc.mpr later with action | again
        · exact absurd action (not_selection_of_started rounded started)
        · obtain ⟨time, found, since⟩ := lastConfirmed_since timed earlier (Nat.le_of_lt inside)
            ((confirms_iff first (Nat.lt_trans earlier inside)).mp confirms)
          have late := unhurried last inside ((confirms_iff last inside).mp again) time found
          unfold Apart
          omega

end Run

/-- Right selects step 4 of the recipe of `setup`, Select starts it and is held from then on.
Steps 4 and 5 are over at once. -/
def held (time : ℕ → ℕ) (n : ℕ) : Readings :=
  readingsAt 12800 (if n < 4 then 0 else 700) (BitVec.ofNat 32 (time n))

/-- A reading every second: both confirmations are late enough. -/
def patient : SketchRun :=
  sketch.follow (held fun n => 1000 * (n + 1)) setup 7 (by decide +kernel)

theorem patient_timed : TrueTime patient wholeSeconds :=
  timed_of_still (fun n => 1000 * (n + 1)) (fun _ _ => rfl) (fun n => by omega)

theorem actions_apart_patient : Apart wholeSeconds 4 5 ∧ Apart wholeSeconds 5 6 := by
  have start : patient.state 0 = setupWith mashRecipe := Machine.follow_start ..
  obtain ⟨selection, all⟩ := actions_apart_iff start patient_timed
  constructor
  · apply selection 4 5 (by decide) (by decide)
    · exact Or.inr (by unfold Begins; decide +kernel)
    · exact Or.inr (Or.inr (by decide +kernel))
  · apply all.mpr (by unfold Unhurried; decide +kernel) 5 6 (by decide) (by decide)
    · exact Or.inr (Or.inr (by decide +kernel))
    · exact Or.inr (Or.inr (by decide +kernel))

/-- Seconds at first, then a reading every 100 ms. -/
def hurriedTime (n : ℕ) : ℕ := if n < 6 then 1000 * (n + 1) else 6000 + 100 * (n - 5)

def hurried : SketchRun := sketch.follow (held hurriedTime) setup 7 (by decide +kernel)

theorem hurried_timed : TrueTime hurried
    (fun n => ⟨hurriedTime n, hurriedTime n, hurriedTime n, hurriedTime n, hurriedTime n,
      fun _ => hurriedTime n⟩) := by
  apply timed_of_still hurriedTime (fun _ _ => rfl)
  intro n
  unfold hurriedTime
  split_ifs <;> omega

/-- One press confirms step 4, and 100 ms later step 5. -/
theorem confirmations_not_apart :
    ¬∀ (table : RecipeTable) (run : SketchRun) (times : ℕ → Clocks ℕ),
      run.state 0 = setupWith table → TrueTime run times →
        ∀ first last, first < last → last < run.length →
          Acts (run.record first) → Acts (run.record last) →
            Apart times first last := by
  intro always
  have start : hurried.state 0 = setupWith mashRecipe := Machine.follow_start ..
  have apart := always mashRecipe hurried _ start hurried_timed 5 6 (by decide) (by decide)
    (Or.inr (Or.inr (by decide +kernel))) (Or.inr (Or.inr (by decide +kernel)))
  exact absurd apart (by unfold Apart hurriedTime; decide)

end ArduMash.Behaviour.Debounce
