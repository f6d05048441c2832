import ArduMash.Behaviour.Walk
import Mathlib.Data.Nat.Count

/-!
Recipes that need nobody. When every step up to the marker continues on its own,
the position of a started recipe is told by the number of ends found so far.
-/

namespace ArduMash.Behaviour.Unattended
open Sketch Globals Hardware Screens Controllers Loop StartStep ControllerEffects Waiting Moves Walk
  Foundation.RoundMachine

/-- `stepController` finds the end condition of the current step met in iteration `n`. -/
def EndFound (run : SketchRun) (n : ℕ) : Prop :=
  ((run.state n).systemState = .running ∨ (run.state n).systemState = .wait) ∧
    ∃ step ∈ (run.state n).current, Over (run.input n) step

instance (run : SketchRun) : DecidablePred (EndFound run) :=
  fun _ => inferInstanceAs (Decidable (_ ∧ _))

/-- How many ends were found before iteration `n`. -/
def endsFound (run : SketchRun) (n : ℕ) : ℕ := Nat.count (EndFound run) n

/-- Every step from the selected one up to the marker is real and continues on its own. -/
structure Automatic (run : SketchRun) (marker : ℕ) : Prop where
  started : Started run
  marked : Marked run marker
  auto : ∀ i, (run.state 0).currentStep.toNat ≤ i → i < marker →
    ∃ step, (run.state 0).entry i = some step ∧ step.recipe ≠ 0 ∧ step.autoContinue = true

/-- A recipe that has `left` more steps to end: it runs, or it is finished on the last step. -/
inductive Position (marker left : ℕ) (s : State) : Prop where
  | running (phase : s.systemState = .running) (unfinished : 0 < left)
      (step : s.currentStep.toNat + left = marker)
  | finished (phase : s.systemState = .finish) (done : left = 0)
      (step : s.currentStep.toNat + 1 = marker)

theorem Position.not_wait {marker left : ℕ} {s : State} (position : Position marker left s) :
    s.systemState ≠ .wait := by
  cases position with
  | running phase => simp [phase]
  | finished phase => simp [phase]

section Iteration
variable {readings : Readings} {s : State} {iteration : Iteration}
  (rounded : Rounded readings s iteration)
include rounded

/-- A step that continues on its own leaves the wait out. -/
theorem phases_not_wait (other : s.systemState ≠ .wait)
    (auto : iteration.stepArgument.autoContinue = true) :
    ∀ after ∈ phases iteration, after.systemState ≠ .wait := by
  have step : iteration.afterStep.state.systemState ≠ .wait := by
    cases given : iteration.afterStep with
    | mk state events =>
      have ran := rounded.step
      rw [given] at ran
      cases stepController_cases ran with
      | idle => exact other
      | goesOn => exact other
      | continues _ _ _ _ started =>
        exact startStep_not_wait (s := sense readings s) other started
      | waits _ _ byHand => exact absurd (auto.symm.trans byHand) (by decide)
  have heater : iteration.afterHeater.state.systemState ≠ .wait := by
    have same := congrArg Control.systemState (control_heater rounded)
    exact fun waiting => step (same.symm.trans waiting)
  have input : iteration.afterInput.state.systemState ≠ .wait := by
    intro waiting
    have ignored := input_of_wait rounded.input waiting
    rw [ignored] at waiting
    exact heater waiting
  have final : iteration.final.systemState ≠ .wait := by
    have same := congrArg Control.systemState (control_final rounded)
    exact fun waiting => input (same.symm.trans waiting)
  exact forall_phases step heater input final

/-- Outside the selection and the wait the iteration is the same for every button. -/
theorem loop_of_buttons (started : s.systemState ≠ .init) (other : s.systemState ≠ .wait)
    (auto : iteration.stepArgument.autoContinue = true) (adcKeyIn : ℕ) :
    loop { readings with adcKeyIn := adcKeyIn } s = .ok iteration := by
  have selecting := heater_started rounded started
  have waiting := phases_not_wait rounded other auto iteration.afterHeater.state (by simp [phases])
  have ignored : ∀ pressed : Readings, inputController pressed iteration.afterHeater.state =
      .ok ⟨iteration.afterHeater.state, []⟩ := fun pressed =>
    inputController_ignored (fun init => absurd init selecting)
      (fun confirmed => absurd confirmed.1 waiting)
  apply loop_ok_iff.mpr
  refine ⟨rounded.stepEntry, rounded.step, rounded.heaterEntry, rounded.heater, ?_, ?_⟩
  · exact (ignored _).trans ((ignored readings).symm.trans rounded.input)
  · exact rounded.screen

end Iteration

section Run
variable {run : SketchRun} {marker : ℕ}

theorem Automatic.current_auto (automatic : Automatic run marker) {n : ℕ}
    (inside : n < run.length) : (run.record n).stepArgument.autoContinue = true := by
  have rounded := loop_ok_iff.mp (run.rounds n inside)
  have found := rounded.stepEntry
  rcases Nat.eq_zero_or_pos n with first | later
  · subst first
    obtain ⟨step, listed, _, auto⟩ :=
      automatic.auto _ (Nat.le_refl _) automatic.marked.before
    rw [Option.some.inj (found.symm.trans listed)]
    exact auto
  · have walked := automatic.started.walked later (Nat.le_of_lt inside)
    have before := automatic.started.before automatic.marked later (Nat.le_of_lt inside)
    obtain ⟨_, step, listed, _, current⟩ := walked.current
    obtain ⟨other, same, _, auto⟩ := automatic.auto _ walked.onward before
    rw [Option.some.inj (found.symm.trans current),
      Option.some.inj (listed.symm.trans same)]
    exact auto

/-- The step after the current one is the marker exactly if it is of recipe 0. -/
theorem Automatic.following_iff (automatic : Automatic run marker) {n : ℕ} (later : 1 ≤ n)
    (bound : n ≤ run.length) {next : RecipeStep} (asked : following (run.state n) = some next) :
    next.recipe = 0 ↔ (run.state n).currentStep.toNat + 1 = marker := by
  have walked := automatic.started.walked later bound
  have before := automatic.started.before automatic.marked later bound
  have last := automatic.marked.inside
  have number := toNat_next (show (run.state n).currentStep.toNat < 255 by omega)
  unfold following at asked
  rw [number, walked.entry_after (Nat.lt_add_one _)] at asked
  constructor
  · intro reserved
    by_contra other
    have onward := walked.onward
    obtain ⟨step, listed, real, _⟩ :=
      automatic.auto ((run.state n).currentStep.toNat + 1) (by omega) (by omega)
    rw [Option.some.inj (asked.symm.trans listed)] at reserved
    exact real reserved
  · intro reached
    obtain ⟨step, listed, reserved⟩ := automatic.marked.reserved
    rw [reached] at asked
    rw [Option.some.inj (asked.symm.trans listed)]
    exact reserved

theorem endFound_iff {n : ℕ} (inside : n < run.length) :
    EndFound run n ↔ ((run.state n).systemState = .running ∨ (run.state n).systemState = .wait) ∧
      Over (run.input n) (run.record n).stepArgument := by
  have current : (run.state n).current = some (run.record n).stepArgument :=
    (loop_ok_iff.mp (run.rounds n inside)).stepEntry
  unfold EndFound
  simp only [current, Option.mem_some, exists_eq_left']

theorem endsFound_succ (n : ℕ) :
    endsFound run (n + 1) = endsFound run n + if EndFound run n then 1 else 0 :=
  Nat.count_succ (EndFound run) n

theorem Automatic.not_waits (automatic : Automatic run marker) {n : ℕ} (inside : n < run.length)
    (other : (run.state n).systemState ≠ .wait) :
    ¬Waits (run.input n) (run.state n) (run.record n).stepArgument := by
  rintro (waiting | ⟨_, _, byHand⟩)
  · exact other waiting
  · exact absurd ((automatic.current_auto inside).symm.trans byHand) (by decide)

theorem finished_next (automatic : Automatic run marker) {n : ℕ} (later : 1 ≤ n)
    (inside : n < run.length) (phase : (run.state n).systemState = .finish) :
    control (run.state (n + 1)) = control (run.state n) := by
  have rounded := loop_ok_iff.mp (run.rounds n inside)
  have walked := automatic.started.walked later (Nat.le_of_lt inside)
  have waitless := automatic.not_waits inside (by simp [phase])
  rw [run.links n inside]
  cases loop_moves rounded walked.started walked.manual with
  | rests _ _ _ _ same => exact same
  | pauses _ _ _ running => exact absurd (phase.symm.trans running) (by decide)
  | continues _ _ _ _ running => exact absurd (phase.symm.trans running) (by decide)
  | finishes _ _ _ _ running => exact absurd (phase.symm.trans running) (by decide)
  | confirms _ _ _ found => exact absurd found waitless
  | refused _ _ _ found => exact absurd found waitless

/-- A running step stays, or its end is found and the next step is started or the recipe done. -/
theorem running_next (automatic : Automatic run marker) {n : ℕ} (later : 1 ≤ n)
    (inside : n < run.length) (phase : (run.state n).systemState = .running) :
    if EndFound run n then
      ((run.state (n + 1)).systemState = .running ∧
        (run.state (n + 1)).currentStep.toNat = (run.state n).currentStep.toNat + 1) ∨
      ((run.state (n + 1)).systemState = .finish ∧
        (run.state (n + 1)).currentStep = (run.state n).currentStep ∧
        (run.state n).currentStep.toNat + 1 = marker)
    else control (run.state (n + 1)) = control (run.state n) := by
  have rounded := loop_ok_iff.mp (run.rounds n inside)
  have walked := automatic.started.walked later (Nat.le_of_lt inside)
  have auto := automatic.current_auto inside
  have waitless := automatic.not_waits inside (by simp [phase])
  have bound := (entry_eq_some rounded.stepEntry).2
  rw [run.links n inside]
  cases loop_moves rounded walked.started walked.manual with
  | rests _ _ _ calm same =>
    rw [if_neg (fun found => calm phase ((endFound_iff inside).mp found).2)]
    exact same
  | pauses _ _ _ _ _ byHand => exact absurd (auto.symm.trans byHand) (by decide)
  | continues next _ _ _ _ due _ asked real same =>
    have number := toNat_next (show (run.state n).currentStep.toNat < 255 by omega)
    have sameStep := congrArg (fun control => control.currentStep.toNat) same
    rw [if_pos ((endFound_iff inside).mpr ⟨Or.inl phase, due⟩)]
    exact Or.inl ⟨congrArg Control.systemState same, sameStep.trans number⟩
  | finishes next _ _ _ _ due _ asked reserved same =>
    have reached := (automatic.following_iff later (Nat.le_of_lt inside) asked).mp reserved
    rw [if_pos ((endFound_iff inside).mpr ⟨Or.inl phase, due⟩)]
    exact Or.inr ⟨congrArg Control.systemState same, congrArg Control.currentStep same, reached⟩
  | confirms _ _ _ found => exact absurd found waitless
  | refused _ _ _ found => exact absurd found waitless

/-- One iteration ends the current step if it finds its end, and does nothing else. -/
theorem position_next (automatic : Automatic run marker) {n left : ℕ} (later : 1 ≤ n)
    (inside : n < run.length) (position : Position marker left (run.state n)) :
    Position marker (left - if EndFound run n then 1 else 0) (run.state (n + 1)) ∧
      (EndFound run n → 0 < left) := by
  cases position with
  | finished phase done step =>
    have same := finished_next automatic later inside phase
    have samePhase := (congrArg Control.systemState same).trans phase
    have sameStep := congrArg (fun control => control.currentStep.toNat + 1) same
    have unfound : ¬EndFound run n := by
      rintro ⟨running | waiting, _⟩
      · exact absurd (phase.symm.trans running) (by decide)
      · exact absurd (phase.symm.trans waiting) (by decide)
    rw [if_neg unfound]
    exact ⟨.finished samePhase done (sameStep.trans step), fun found => absurd found unfound⟩
  | running phase unfinished step =>
    refine ⟨?_, fun _ => unfinished⟩
    have before := automatic.started.before automatic.marked (show 1 ≤ n + 1 by omega) inside
    have next := running_next automatic later inside phase
    by_cases found : EndFound run n
    · rw [if_pos found] at next ⊢
      rcases next with ⟨running, number⟩ | ⟨finished, same, reached⟩
      · exact .running running (by omega) (by omega)
      · refine .finished finished (by omega) ?_
        rw [same]
        exact reached
    · rw [if_neg found] at next ⊢
      have samePhase := (congrArg Control.systemState next).trans phase
      have sameStep := congrArg (fun control => control.currentStep.toNat + left) next
      exact .running samePhase unfinished (sameStep.trans step)

theorem no_end_selecting (started : Started run) : ¬EndFound run 0 := by
  rintro ⟨running | waiting, _⟩
  · exact absurd (started.selecting.symm.trans running) (by decide)
  · exact absurd (started.selecting.symm.trans waiting) (by decide)

theorem position_first (automatic : Automatic run marker) :
    Position marker (marker - (run.state 0).currentStep.toNat) (run.state 1) := by
  have started := automatic.started
  have rounded := loop_ok_iff.mp (run.rounds 0 started.nonempty)
  obtain ⟨step, current, real⟩ := started.real
  have move := first_move rounded started.selecting started.selected current real
  have before := automatic.marked.before
  have phase : (run.state 1).systemState = .running := by
    rw [run.links 0 started.nonempty]
    exact congrArg Control.systemState move.2.2
  refine .running phase (by omega) ?_
  rw [started.first_step]
  omega

/-- The number of ends found so far fixes the position. -/
theorem position_run (automatic : Automatic run marker) {n : ℕ} (later : 1 ≤ n)
    (bound : n ≤ run.length) :
    Position marker (marker - (run.state 0).currentStep.toNat - endsFound run n) (run.state n) ∧
      endsFound run n ≤ marker - (run.state 0).currentStep.toNat := by
  induction n, later using Nat.le_induction with
  | base =>
    have unfound : endsFound run 1 = 0 := by
      rw [endsFound_succ, if_neg (no_end_selecting automatic.started)]
      exact Nat.count_zero (EndFound run)
    rw [unfound]
    exact ⟨position_first automatic, Nat.zero_le _⟩
  | succ n later ih =>
    obtain ⟨position, upTo⟩ := ih (Nat.le_of_lt bound)
    obtain ⟨next, left⟩ := position_next automatic later bound position
    rw [endsFound_succ, ← Nat.sub_sub]
    refine ⟨next, ?_⟩
    split_ifs with found
    · have more := left found
      omega
    · omega

theorem not_wait (automatic : Automatic run marker) {n : ℕ} (bound : n ≤ run.length) :
    (run.state n).systemState ≠ .wait := by
  rcases Nat.eq_zero_or_pos n with first | later
  · rw [first, automatic.started.selecting]
    decide
  · exact (position_run automatic later bound).1.not_wait

/-- A recipe whose steps continue on their own is at step `s + m` after `m` ends, until it finishes
on its last step; it never waits, and no button changes an iteration. -/
theorem automatic_to_end (automatic : Automatic run marker) :
    (∀ n, 1 ≤ n → n ≤ run.length →
      endsFound run n ≤ marker - (run.state 0).currentStep.toNat ∧
      (endsFound run n < marker - (run.state 0).currentStep.toNat →
        (run.state n).systemState = .running ∧
        (run.state n).currentStep.toNat =
          (run.state 0).currentStep.toNat + endsFound run n) ∧
      (endsFound run n = marker - (run.state 0).currentStep.toNat →
        (run.state n).systemState = .finish ∧ (run.state n).currentStep.toNat = marker - 1) ∧
      ∀ readings, ∃ iteration, loop readings (run.state n) = .ok iteration) ∧
    (∀ n < run.length, ∀ after ∈ (run.state n) :: phases (run.record n),
      after.systemState ≠ .wait) ∧
    ∀ n, 1 ≤ n → n < run.length → ∀ adcKeyIn,
      loop { run.input n with adcKeyIn := adcKeyIn } (run.state n) = .ok (run.record n) := by
  have before := automatic.marked.before
  refine ⟨?_, ?_, ?_⟩
  · intro n later bound
    obtain ⟨position, upTo⟩ := position_run automatic later bound
    refine ⟨upTo, ?_, ?_, automatic.started.answers automatic.marked later bound⟩
    · intro unfinished
      cases position with
      | running phase _ step => exact ⟨phase, by omega⟩
      | finished _ done => exact absurd done (by omega)
    · intro all
      cases position with
      | running _ unfinished => exact absurd unfinished (by omega)
      | finished phase _ step => exact ⟨phase, by omega⟩
  · intro n inside after member
    have rounded := loop_ok_iff.mp (run.rounds n inside)
    have other := not_wait automatic (Nat.le_of_lt inside)
    rcases List.mem_cons.mp member with same | phase
    · exact same ▸ other
    · exact phases_not_wait rounded other (automatic.current_auto inside) after phase
  · intro n later inside adcKeyIn
    have rounded := loop_ok_iff.mp (run.rounds n inside)
    have walked := automatic.started.walked later (Nat.le_of_lt inside)
    exact loop_of_buttons rounded walked.started (not_wait automatic (Nat.le_of_lt inside))
      (automatic.current_auto inside) adcKeyIn

end Run

/-- Select starts a recipe of two steps, both over at once. -/
def twoSteps : SketchRun :=
  sketch.follow (fun n => readingsAt 12800 (if n = 0 then 700 else 1023)
    (BitVec.ofNat 32 (1000 * (n + 1))))
    (setupWith fun _ i => if i.val < 2 then ⟨1, i.val, 20, 0, true, 0, 0, 0⟩ else default) 4
    (by decide +kernel)

theorem automatic_twoSteps : Automatic twoSteps 2 where
  started := ⟨by decide, by decide +kernel, by decide +kernel, ⟨_, rfl, by decide +kernel⟩⟩
  marked := ⟨by decide +kernel, ⟨_, rfl, by decide +kernel⟩⟩
  auto := by
    intro i _ before
    obtain rfl | rfl : i = 0 ∨ i = 1 := by omega
    · exact ⟨_, rfl, by decide +kernel⟩
    · exact ⟨_, rfl, by decide +kernel⟩

theorem automatic_to_end_twoSteps :
    ((twoSteps.state 2).systemState = .running ∧ (twoSteps.state 2).currentStep.toNat = 1) ∧
      (twoSteps.state 3).systemState = .finish ∧ (twoSteps.state 3).currentStep.toNat = 1 := by
  obtain ⟨position, _⟩ := automatic_to_end automatic_twoSteps
  obtain ⟨_, running, _⟩ := position 2 (by decide) (by decide)
  obtain ⟨_, _, finished, _⟩ := position 3 (by decide) (by decide)
  have one : endsFound twoSteps 2 = 1 := by decide +kernel
  have both : endsFound twoSteps 3 = 2 := by decide +kernel
  have selected : (twoSteps.state 0).currentStep.toNat = 0 := by decide +kernel
  rw [selected, one] at running
  rw [selected, both] at finished
  exact ⟨running (by decide), finished rfl⟩

end ArduMash.Behaviour.Unattended
