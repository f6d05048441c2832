import ArduMash.Behaviour.Faults

/-!
The walk from the step that Select starts. However it goes, by auto-continue,
confirmations and refused starts, the table is always that of a single start of
the step that is current.
-/

namespace ArduMash.Behaviour.Walk
open Sketch Globals Hardware Screens Controllers Loop StartStep ControllerEffects Waiting Moves
  Faults Foundation.RoundMachine

/-! What an iteration does to the table. -/

/-- Step `index` is started in the iteration, with the clock value `now`. -/
def BegunIn (readings : Readings) (iteration : Iteration) (index : Byte) (now : Millis) : Prop :=
  (Accepts index iteration.afterStep.events ∧ now = readings.clock.autoStart) ∨
    (Accepts index iteration.afterInput.events ∧ now = readings.clock.selectStart)

/-- The six moves, as far as the table goes: it stays, or the next step is started. A wait that
is entered comes from the end of the current step. -/
inductive Effect (readings : Readings) (s : State) (iteration : Iteration) : Prop where
  | stays (phase : SystemState) (quiet : ¬Starts iteration) (started : phase ≠ .init)
      (waits : phase = .wait → s.systemState = .wait ∨ Over readings iteration.stepArgument)
      (same : control iteration.final = { control s with systemState := phase })
  | advances (now : Millis) (next : RecipeStep)
      (begun : BegunIn readings iteration (s.currentStep + 1) now)
      (asked : following s = some next) (real : next.recipe ≠ 0)
      (same : control iteration.final = advanced s now)

theorem not_starts {iteration : Iteration}
    (step : ∀ index, ¬Accepts index iteration.afterStep.events)
    (input : ∀ index, ¬Accepts index iteration.afterInput.events) : ¬Starts iteration := by
  rintro ⟨index, accepted | accepted⟩
  · exact step index accepted
  · exact input index accepted

theorem effect_of_move {readings : Readings} {s : State} {iteration : Iteration}
    (started : s.systemState ≠ .init) (move : Move readings s iteration) :
    Effect readings s iteration := by
  cases move with
  | rests quietStep quietInput _ _ same =>
    refine .stays s.systemState (not_starts ?_ ?_) started Or.inl same
    · exact fun index => quietStep ▸ not_accepts_nil index
    · exact fun index => quietInput ▸ not_accepts_nil index
  | pauses quietStep quietInput _ _ due _ same =>
    refine .stays .wait (not_starts ?_ ?_) (by decide) (fun _ => Or.inr due) same
    · exact fun index => quietStep ▸ not_accepts_nil index
    · exact fun index => quietInput ▸ not_accepts_nil index
  | continues next begun _ _ _ _ _ asked real same =>
    refine .advances readings.clock.autoStart next (Or.inl ⟨?_, rfl⟩) asked real same
    rw [begun]
    exact accepts_beginEvents _ _ next
  | finishes next ended quietInput _ _ _ _ _ _ same =>
    refine .stays .finish (not_starts ?_ ?_) (by decide) (by simp) same
    · exact fun index => ended ▸ not_accepts_endEvents _ _ index
    · exact fun index => quietInput ▸ not_accepts_nil index
  | confirms next _ begun _ _ asked real same =>
    refine .advances readings.clock.selectStart next (Or.inr ⟨?_, rfl⟩) asked real same
    rw [begun]
    exact accepts_beginEvents _ _ next
  | refused next quietStep ended _ _ _ _ same =>
    refine .stays .running (not_starts ?_ ?_) (by decide) (by simp) same
    · exact fun index => quietStep ▸ not_accepts_nil index
    · exact fun index => ended ▸ not_accepts_endEvents _ _ index

/-- A start of the next step covers the traces of the one before it. -/
theorem begun_begun (table : RecipeTable) (row index : ℕ) (now later : Millis) :
    begunTable (begunTable table row index now) row (index + 1) later =
      begunTable table row (index + 1) later := by
  funext r i
  by_cases inRow : r.val = row
  · rcases Nat.lt_trichotomy i.val (index + 1) with before | same | after
    · simp only [begunTable, inRow, true_and, if_pos before]
      split_ifs <;> rfl
    · have notBefore : ¬i.val < index := by omega
      have other : i.val ≠ index := by omega
      simp only [begunTable, inRow, true_and, if_neg notBefore, if_neg other]
    · have notBefore : ¬i.val < index := by omega
      have other : i.val ≠ index := by omega
      simp only [begunTable, inRow, true_and, if_neg notBefore, if_neg other]
  · simp only [begunTable, inRow, false_and, if_false]

/-! Runs that begin with Select. -/

/-- The run begins with Select on a real step. -/
structure Started (run : SketchRun) : Prop where
  nonempty : 0 < run.length
  selecting : (run.state 0).systemState = .init
  selected : SelectAccepted (run.input 0) (run.state 0)
  real : ∃ step, (run.state 0).current = some step ∧ step.recipe ≠ 0

/-- The iteration in which Select starts the recipe. -/
theorem first_move {readings : Readings} {s : State} {iteration : Iteration} {step : RecipeStep}
    (rounded : Rounded readings s iteration) (selecting : s.systemState = .init)
    (selected : SelectAccepted readings s) (current : s.current = some step)
    (real : step.recipe ≠ 0) :
    iteration.afterStep.events = [] ∧
      iteration.afterInput.events = beginEvents s s.currentStep step ++ draw [.clear] ∧
      control iteration.final =
        { control (begunState s readings.clock.selectStart s.currentStep) with
          systemState := .running, lastInput := readings.clock.stamp } := by
  have heater := heater_of_selecting rounded selecting
  have sameRow : iteration.afterHeater.state.currentRecipe = s.currentRecipe :=
    congrArg Control.currentRecipe heater
  have sameStep : iteration.afterHeater.state.currentStep = s.currentStep :=
    congrArg Control.currentStep heater
  have sameTable : iteration.afterHeater.state.recipe = s.recipe := congrArg Control.recipe heater
  have phase : iteration.afterHeater.state.systemState = .init :=
    (congrArg Control.systemState heater).trans selecting
  have found : iteration.afterHeater.state.entry iteration.afterHeater.state.currentStep.toNat =
      some step := by
    unfold State.entry
    rw [sameTable, sameRow, sameStep]
    exact current
  have accepted := (selectAccepted_heater rounded).mpr selected
  have started := startStep_begun readings.clock.selectStart (by simp [phase]) found real
  have input := Except.ok.inj
    (rounded.input.symm.trans (inputController_begins phase accepted started))
  have quiet := (step_of_kept rounded
    (fun continues => not_active_of_init selecting continues.active)).1
  refine ⟨quiet, ?_, ?_⟩
  · rw [input, sameStep]
    simp only [beginEvents, sameRow]
  · rw [control_final rounded, input]
    simp only [begunState, sameTable, sameRow, sameStep]
    rfl

/-- What the walk has left behind when it reaches `s` before iteration `n`. -/
structure Walked (run : SketchRun) (n : ℕ) (s : State) : Prop where
  started : s.systemState ≠ .init
  manual : Manual s
  row : s.currentRecipe = (run.state 0).currentRecipe
  onward : (run.state 0).currentStep.toNat ≤ s.currentStep.toNat
  real : ∃ step, (run.state 0).entry s.currentStep.toNat = some step ∧ step.recipe ≠ 0
  /-- The step was started last in some iteration `first`, and nothing since. -/
  table : ∃ first now, first < n ∧
    BegunIn (run.input first) (run.record first) s.currentStep now ∧
    (∀ m, first < m → m < n → ¬Starts (run.record m)) ∧
    s.recipe = begunTable (run.state 0).recipe (run.state 0).currentRecipe.toNat
      s.currentStep.toNat now

section Run
variable {run : SketchRun}

theorem Started.first (started : Started run) : Walked run 1 (run.record 0).final := by
  have rounded := loop_ok_iff.mp (run.rounds 0 started.nonempty)
  obtain ⟨step, current, real⟩ := started.real
  obtain ⟨_, begun, same⟩ :=
    first_move rounded started.selecting started.selected current real
  have phase : (run.record 0).final.systemState = .running := congrArg Control.systemState same
  have sameStep : (run.record 0).final.currentStep = (run.state 0).currentStep :=
    congrArg Control.currentStep same
  refine ⟨by simp [phase], manual_of_ne (by simp [phase]), congrArg Control.currentRecipe same, ?_,
    ?_, 0, (run.input 0).clock.selectStart, Nat.lt_succ_self 0, ?_, ?_, ?_⟩
  · rw [sameStep]
  · rw [sameStep]
    exact ⟨step, current, real⟩
  · refine Or.inr ⟨⟨step, ?_⟩, rfl⟩
    rw [begun, sameStep]
    simp [beginEvents]
  · intro m after before
    exact absurd after (by omega)
  · rw [sameStep]
    exact congrArg Control.recipe same

theorem Walked.entry {n : ℕ} {s : State} (walked : Walked run n s) : ∃ now, ∀ i,
    s.entry i = ((run.state 0).entry i).map (fun step =>
      if i < s.currentStep.toNat then { step with stepStatus := 3, startTime := 0 }
      else if i = s.currentStep.toNat then { step with stepStatus := 1, startTime := now }
      else step) := by
  obtain ⟨_, now, _, _, _, same⟩ := walked.table
  refine ⟨now, fun i => ?_⟩
  unfold State.entry
  rw [same, walked.row, begun_entry]

/-- The steps to come are as they were when Select was pressed. -/
theorem Walked.entry_after {n i : ℕ} {s : State} (walked : Walked run n s)
    (after : s.currentStep.toNat < i) : s.entry i = (run.state 0).entry i := by
  obtain ⟨now, same⟩ := walked.entry
  rw [same]
  simp only [if_neg (Nat.lt_asymm after), if_neg (Nat.ne_of_gt after), Option.map_id']

/-- The current step is as it was, but for its status and its start time. -/
theorem Walked.current {n : ℕ} {s : State} (walked : Walked run n s) : ∃ now step,
    (run.state 0).entry s.currentStep.toNat = some step ∧ step.recipe ≠ 0 ∧
      s.current = some { step with stepStatus := 1, startTime := now } := by
  obtain ⟨now, same⟩ := walked.entry
  obtain ⟨step, found, real⟩ := walked.real
  refine ⟨now, step, found, real, ?_⟩
  unfold State.current
  rw [same, found]
  simp only [Option.map_some, Nat.lt_irrefl, if_false, if_true]

theorem walked_next {n : ℕ} (inside : n < run.length) (walked : Walked run n (run.state n)) :
    Walked run (n + 1) (run.record n).final := by
  have rounded := loop_ok_iff.mp (run.rounds n inside)
  have manual := (manual_iteration rounded walked.manual).final
  have chosen := phases_chosen rounded (show Chosen _ _ from ⟨walked.started, walked.row⟩)
  obtain ⟨started, row⟩ := chosen (run.record n).final (by simp [phases])
  obtain ⟨first, now, earlier, begun, alone, table⟩ := walked.table
  cases effect_of_move walked.started (loop_moves rounded walked.started walked.manual) with
  | stays phase quiet _ _ same =>
    have sameStep : (run.record n).final.currentStep = (run.state n).currentStep :=
      congrArg Control.currentStep same
    have sameTable : (run.record n).final.recipe = (run.state n).recipe :=
      congrArg Control.recipe same
    refine ⟨started, manual, row, ?_, ?_, first, now, Nat.lt_succ_of_lt earlier, ?_,
      since_succ alone quiet, ?_⟩
    · rw [sameStep]
      exact walked.onward
    · rw [sameStep]
      exact walked.real
    · rw [sameStep]
      exact begun
    · rw [sameStep, sameTable]
      exact table
  | advances later next begun asked real same =>
    have sameStep : (run.record n).final.currentStep = (run.state n).currentStep + 1 :=
      congrArg Control.currentStep same
    have sameTable : (run.record n).final.recipe = begunTable (run.state n).recipe
        (run.state n).currentRecipe.toNat ((run.state n).currentStep + 1).toNat later :=
      congrArg Control.recipe same
    have bound := (entry_eq_some rounded.stepEntry).2
    have number := toNat_next (show (run.state n).currentStep.toNat < 255 by omega)
    have onward := walked.onward
    refine ⟨started, manual, row, ?_, ?_, n, later, Nat.lt_succ_self n, ?_, ?_, ?_⟩
    · rw [sameStep, number]
      omega
    · rw [sameStep]
      rw [← walked.entry_after (by omega)]
      exact ⟨next, asked, real⟩
    · rw [sameStep]
      exact begun
    · intro m after before
      exact absurd after (by omega)
    · rw [sameStep, sameTable, walked.row, table, number, begun_begun]

theorem Started.walked (started : Started run) {n : ℕ} (later : 1 ≤ n) (bound : n ≤ run.length) :
    Walked run n (run.state n) := by
  induction n, later using Nat.le_induction with
  | base =>
    rw [run.links 0 started.nonempty]
    exact started.first
  | succ n later ih =>
    rw [run.links n bound]
    exact walked_next bound (ih (Nat.le_of_lt bound))

theorem started_shortBrew : Started shortBrew where
  nonempty := by decide
  selecting := by decide +kernel
  selected := by decide +kernel
  real := ⟨_, rfl, by decide +kernel⟩

theorem started_firstConfirm : Started firstConfirm where
  nonempty := by decide
  selecting := by decide +kernel
  selected := by decide +kernel
  real := ⟨_, rfl, by decide +kernel⟩

/-! The marker. -/

/-- A step of recipe 0 lies after the one that Select starts. -/
structure Marked (run : SketchRun) (marker : ℕ) : Prop where
  before : (run.state 0).currentStep.toNat < marker
  reserved : ∃ last, (run.state 0).entry marker = some last ∧ last.recipe = 0

theorem Marked.inside {marker : ℕ} (marked : Marked run marker) : marker < 10 := by
  obtain ⟨_, found, _⟩ := marked.reserved
  exact (entry_eq_some found).2

theorem marked_firstConfirm : Marked firstConfirm 9 where
  before := by decide +kernel
  reserved := ⟨_, rfl, by decide +kernel⟩

/-- One iteration goes at most one step on. -/
theorem step_le {n : ℕ} (inside : n < run.length) (walked : Walked run n (run.state n)) :
    (run.state (n + 1)).currentStep.toNat ≤ (run.state n).currentStep.toNat + 1 := by
  have rounded := loop_ok_iff.mp (run.rounds n inside)
  have bound := (entry_eq_some rounded.stepEntry).2
  rw [run.links n inside]
  cases effect_of_move walked.started (loop_moves rounded walked.started walked.manual) with
  | stays _ _ _ _ same =>
    have sameStep := congrArg (fun control => control.currentStep.toNat) same
    exact Nat.le_succ_of_le (Nat.le_of_eq sameStep)
  | advances now next begun asked real same =>
    have sameStep := congrArg (fun control => control.currentStep.toNat) same
    have number := toNat_next (show (run.state n).currentStep.toNat < 255 by omega)
    exact Nat.le_of_eq (sameStep.trans number)

theorem Started.first_step (started : Started run) :
    (run.state 1).currentStep = (run.state 0).currentStep := by
  have rounded := loop_ok_iff.mp (run.rounds 0 started.nonempty)
  obtain ⟨step, current, real⟩ := started.real
  have first := first_move rounded started.selecting started.selected current real
  rw [run.links 0 started.nonempty]
  exact congrArg Control.currentStep first.2.2

/-- The walk stops short of the marker: it goes step by step, and only to real steps. -/
theorem Started.before {marker n : ℕ} (started : Started run) (marked : Marked run marker)
    (later : 1 ≤ n) (bound : n ≤ run.length) : (run.state n).currentStep.toNat < marker := by
  induction n, later using Nat.le_induction with
  | base =>
    rw [started.first_step]
    exact marked.before
  | succ n later ih =>
    have before := ih (Nat.le_of_lt bound)
    have walked := started.walked later (Nat.le_of_lt bound)
    have next := step_le bound walked
    obtain ⟨step, found, real⟩ := (started.walked (Nat.le_succ_of_le later) bound).real
    obtain ⟨last, reserved, ends⟩ := marked.reserved
    have other : (run.state (n + 1)).currentStep.toNat ≠ marker := by
      intro reached
      rw [reached, reserved] at found
      rw [Option.some.inj found] at ends
      exact real ends
    omega

/-- A marked walk never asks for a step outside the table. -/
theorem Started.answers {marker n : ℕ} (started : Started run) (marked : Marked run marker)
    (later : 1 ≤ n) (bound : n ≤ run.length) (readings : Readings) :
    ∃ iteration, loop readings (run.state n) = .ok iteration := by
  have walked := started.walked later bound
  have before := started.before marked later bound
  have last := marked.inside
  obtain ⟨_, step, _, _, current⟩ := walked.current
  have rowInside := (entry_eq_some current).1
  refine loop_answers walked.manual current (fun _ => ⟨_, entry_inside _ rowInside ?_⟩)
  rw [toNat_next (by omega)]
  omega

end Run

end ArduMash.Behaviour.Walk
