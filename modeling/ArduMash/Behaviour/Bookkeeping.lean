import ArduMash.Behaviour.Walk
import ArduMash.Behaviour.RecipeEnd

/-!
The step status and the start times. They have one closed form, which depends on
the current step and on the clock value it was started with, but not on the walk.
The end of the recipe leaves them alone, so the last step stays marked running.
-/

namespace ArduMash.Behaviour.Bookkeeping
open Sketch Globals Hardware Screens Controllers Loop StartStep ControllerEffects RecipeEnd Waiting
  Moves Walk Foundation.RoundMachine

/-- A step with the status and the start time of `marks`. -/
def marked (step marks : RecipeStep) : RecipeStep :=
  { step with stepStatus := marks.stepStatus, startTime := marks.startTime }

/-- The table of `origin`, with the marks of a start of the current step at `now`. -/
structure Bookkept (origin s : State) (now : Millis) : Prop where
  finished : ∀ r i, i.val < s.currentStep.toNat →
    (s.recipe r i).stepStatus = 3 ∧ (s.recipe r i).startTime = 0
  running : ∀ r i, i.val = s.currentStep.toNat →
    (s.recipe r i).stepStatus = 1 ∧ (s.recipe r i).startTime = now
  initial : ∀ r i, s.currentStep.toNat < i.val →
    (s.recipe r i).stepStatus = 0 ∧ (s.recipe r i).startTime = 0
  constant : ∀ r i, s.recipe r i = marked (origin.recipe r i) (s.recipe r i)
  direct : ∃ outcome, startStep now s.currentStep origin = .ok outcome ∧
    outcome.state.recipe = s.recipe

/-- No step has been started yet. -/
def Unstarted (s : State) : Prop :=
  ∀ r i, (s.recipe r i).stepStatus = 0 ∧ (s.recipe r i).startTime = 0

section Run
variable {run : SketchRun}

/-- The row of the table that is cooked is its only one. -/
theorem only_row {n : ℕ} {s : State} (walked : Walked run n s) (r : Fin 1) :
    r.val = (run.state 0).currentRecipe.toNat := by
  obtain ⟨_, found, _⟩ := walked.real
  have inside := (entry_eq_some found).1
  omega

/-- The step bookkeeping of a started run has one closed form, wherever it was started. -/
theorem table_closed_form (started : Started run) (unstarted : Unstarted (run.state 0)) {n : ℕ}
    (later : 1 ≤ n) (bound : n ≤ run.length) :
    ∃ first now, first < n ∧
      BegunIn (run.input first) (run.record first) (run.state n).currentStep now ∧
      (∀ m, first < m → m < n → ¬Starts (run.record m)) ∧
      Bookkept (run.state 0) (run.state n) now := by
  have walked := started.walked later bound
  obtain ⟨first, now, earlier, begun, alone, table⟩ := walked.table
  have row := only_row walked
  obtain ⟨step, found, real⟩ := walked.real
  refine ⟨first, now, earlier, begun, alone, ?_⟩
  constructor
  · intro r i before
    simp only [table, begunTable, row r, true_and, if_pos before]
  · intro r i same
    have notBefore : ¬i.val < (run.state n).currentStep.toNat := by omega
    simp only [table, begunTable, row r, true_and, if_neg notBefore, if_pos same]
  · intro r i after
    have notBefore : ¬i.val < (run.state n).currentStep.toNat := by omega
    have other : i.val ≠ (run.state n).currentStep.toNat := by omega
    simp only [table, begunTable, row r, true_and, if_neg notBefore, if_neg other]
    exact unstarted r i
  · intro r i
    rw [table]
    unfold begunTable marked
    split_ifs <;> rfl
  · have active : (run.state 0).systemState ≠ .finish := by simp [started.selecting]
    exact ⟨_, startStep_begun now active found real, table.symm⟩

theorem table_closed_form_firstConfirm : ∃ first now, first < 2 ∧
    BegunIn (firstConfirm.input first) (firstConfirm.record first)
      (firstConfirm.state 2).currentStep now ∧
    (∀ m, first < m → m < 2 → ¬Starts (firstConfirm.record m)) ∧
    Bookkept (firstConfirm.state 0) (firstConfirm.state 2) now :=
  table_closed_form started_firstConfirm (by unfold Unstarted; decide +kernel)
    (show 1 ≤ 2 by decide) (show 2 ≤ 3 by decide)

/-! The finished recipe. -/

/-- Every step up to the last executed one is marked finished, and none running. -/
def RowFinished (s : State) : Prop :=
  (∀ r i, i.val ≤ s.currentStep.toNat → (s.recipe r i).stepStatus = 3) ∧
    ∀ r i, (s.recipe r i).stepStatus ≠ 1

theorem status_before {n : ℕ} {s : State} (walked : Walked run n s) (r : Fin 1)
    (i : Fin 10) (before : i.val < s.currentStep.toNat) : (s.recipe r i).stepStatus = 3 := by
  obtain ⟨_, _, _, _, _, table⟩ := walked.table
  have row := only_row walked r
  simp only [table, begunTable, row, true_and, if_pos before]

theorem status_current {n : ℕ} {s : State} (walked : Walked run n s) (r : Fin 1)
    (i : Fin 10) (same : i.val = s.currentStep.toNat) : (s.recipe r i).stepStatus = 1 := by
  obtain ⟨_, _, _, _, _, table⟩ := walked.table
  have row := only_row walked r
  have notBefore : ¬i.val < s.currentStep.toNat := by omega
  simp only [table, begunTable, row, true_and, if_neg notBefore, if_pos same]

/-- The marks of the last step are those of its start. -/
theorem not_rowFinished {n : ℕ} {s : State} (walked : Walked run n s) : ¬RowFinished s := by
  intro ⟨_, calm⟩
  obtain ⟨_, _, _, _, current⟩ := walked.current
  have inside := (entry_eq_some current).2
  exact calm 0 ⟨_, inside⟩ (status_current walked 0 ⟨_, inside⟩ rfl)

/-- Only auto-continuing into the marker finishes a started recipe. -/
theorem finish_of_final {n : ℕ} (inside : n < run.length) (walked : Walked run n (run.state n))
    (active : (run.state n).systemState ≠ .finish)
    (done : (run.record n).final.systemState = .finish) :
    AutoFinishes (run.input n) (run.state n) := by
  have rounded := loop_ok_iff.mp (run.rounds n inside)
  have phase : (control (run.record n).final).systemState = .finish := done
  cases loop_moves rounded walked.started walked.manual with
  | finishes next _ _ _ running due auto asked marker =>
    exact ⟨_, next, ⟨rounded.stepEntry, Or.inl running, due, auto⟩, asked, marker⟩
  | rests _ _ _ _ same =>
    rw [same] at phase
    exact absurd phase active
  | pauses _ _ _ _ _ _ same =>
    rw [same] at phase
    cases phase
  | continues _ _ _ _ _ _ _ _ _ same =>
    rw [same] at phase
    cases phase
  | confirms _ _ _ _ _ _ _ same =>
    rw [same] at phase
    cases phase
  | refused _ _ _ _ _ _ _ same =>
    rw [same] at phase
    cases phase

theorem first_running (started : Started run) :
    (run.record 0).final.systemState = .running := by
  have rounded := loop_ok_iff.mp (run.rounds 0 started.nonempty)
  obtain ⟨step, current, real⟩ := started.real
  have move := first_move rounded started.selecting started.selected current real
  exact congrArg Control.systemState move.2.2

theorem active_of_unfinished (started : Started run)
    (unfinished : ∀ n < run.length, ¬AutoFinishes (run.input n) (run.state n)) {n : ℕ}
    (bound : n ≤ run.length) : (run.state n).systemState ≠ .finish := by
  induction n with
  | zero => simp [started.selecting]
  | succ n ih =>
    have before := ih (Nat.le_of_lt bound)
    rw [run.links n bound]
    intro done
    rcases Nat.eq_zero_or_pos n with first | later
    · subst first
      exact absurd ((first_running started).symm.trans done) (by decide)
    · have walked := started.walked later (Nat.le_of_lt bound)
      exact unfinished n bound (finish_of_final bound walked before done)

/-- In every finished state the last step is still marked running, so a run keeps its finished rows
finished only by never finishing. -/
theorem finished_row_runs (started : Started run) :
    (∀ n, n ≤ run.length → (run.state n).systemState = .finish →
      (∀ r i, i.val < (run.state n).currentStep.toNat →
        ((run.state n).recipe r i).stepStatus = 3) ∧
      (∀ r i, i.val = (run.state n).currentStep.toNat →
        ((run.state n).recipe r i).stepStatus = 1) ∧
      ¬RowFinished (run.state n)) ∧
    ((∀ n, n ≤ run.length → (run.state n).systemState = .finish → RowFinished (run.state n)) ↔
      ∀ n < run.length, ¬AutoFinishes (run.input n) (run.state n)) := by
  have walkedAt : ∀ n, n ≤ run.length → (run.state n).systemState = .finish →
      Walked run n (run.state n) := by
    intro n bound done
    rcases Nat.eq_zero_or_pos n with first | later
    · rw [first, started.selecting] at done
      cases done
    · exact started.walked later bound
  constructor
  · intro n bound done
    have walked := walkedAt n bound done
    exact ⟨status_before walked, status_current walked, not_rowFinished walked⟩
  · constructor
    · intro finished n inside finishes
      have rounded := loop_ok_iff.mp (run.rounds n inside)
      have done := (autoFinishes_final rounded finishes).2
      rw [show (run.record n).final = run.state (n + 1) from (run.links n inside).symm] at done
      exact not_rowFinished (walkedAt (n + 1) inside done) (finished (n + 1) inside done)
    · intro unfinished n bound done
      exact absurd done (active_of_unfinished started unfinished bound)

theorem finished_row_runs_shortBrew : ¬RowFinished (shortBrew.state 2) :=
  ((finished_row_runs started_shortBrew).1 2 (by decide) (by decide +kernel)).2.2

/-- The only step of a recipe is left marked running when the recipe is finished. -/
theorem finished_row_not_finished :
    ¬∀ run : SketchRun, Started run → Unstarted (run.state 0) → ∀ n ≤ run.length,
      (run.state n).systemState = .finish → RowFinished (run.state n) := by
  intro always
  have unstarted : Unstarted (shortBrew.state 0) := by
    unfold Unstarted
    decide +kernel
  have finished := always shortBrew started_shortBrew unstarted 2 (by decide) (by decide +kernel)
  have running : ((shortBrew.state 2).recipe 0 0).stepStatus = 1 := by decide +kernel
  exact finished.2 0 0 running

end Run

end ArduMash.Behaviour.Bookkeeping
