import ArduMash.Behaviour.StepClock
import ArduMash.Behaviour.Walk

/-!
How a brew goes through its recipe. A step is left only for the next one, only
after its end condition held in true time since it was started, and by hand if
it is a step for the operator.
-/

namespace ArduMash.Behaviour.Progress
open Sketch Globals Hardware Screens Controllers Loop StartStep ControllerEffects StepClock Waiting
  Moves Walk Foundation.RoundMachine Foundation.WrappingClock

/-! True time. -/

/-- The calls of `millis` in an iteration, in program order. -/
structure Ordered (time : Clocks ℕ) : Prop where
  autoStart : time.step ≤ time.autoStart
  guard : time.autoStart ≤ time.guard
  selectStart : time.guard ≤ time.selectStart
  stamp : time.selectStart ≤ time.stamp
  screen : time.stamp ≤ time.screen 0
  screens : Monotone time.screen

/-- `millis` shows a nondecreasing true time modulo `2 ^ 32`. -/
structure TrueTime (run : SketchRun) (times : ℕ → Clocks ℕ) : Prop where
  shows : ∀ n < run.length, (run.input n).clock = (times n).map (shown 32)
  ordered : ∀ n < run.length, Ordered (times n)
  onward : ∀ n, n + 1 < run.length → (times n).screen 3 ≤ (times (n + 1)).step

theorem Ordered.within {time : Clocks ℕ} (ordered : Ordered time) :
    time.step ≤ time.screen 3 ∧ time.autoStart ≤ time.screen 3 ∧
      time.selectStart ≤ time.screen 3 := by
  have screens := ordered.screens (show (0 : Fin 4) ≤ 3 by decide)
  have step := ordered.autoStart
  have auto := ordered.guard
  have guard := ordered.selectStart
  have select := ordered.stamp
  have stamp := ordered.screen
  omega

theorem TrueTime.later {run : SketchRun} {times : ℕ → Clocks ℕ} (timed : TrueTime run times)
    {first n : ℕ} (after : first < n) (inside : n < run.length) :
    (times first).screen 3 ≤ (times n).step := by
  induction n, after using Nat.le_induction with
  | base => exact timed.onward first inside
  | succ n after ih =>
    have before := ih (by omega)
    have through := (timed.ordered n (by omega)).within.1
    have next := timed.onward n inside
    omega

/-- The end condition of a step, in the reading and in true time since the step was started. -/
def EndHeld (reading : ℚ) (started now : ℕ) (step : RecipeStep) : Prop :=
  if step.duration = 0 then step.targetTemp ≤ reading
  else started + step.duration.toNat * 60000 ≤ now

/-- Neither a rollover nor the byte for the minutes can end a step early. -/
theorem endHeld_of_over {readings : Readings} {step : RecipeStep} {started now : ℕ}
    (ordered : started ≤ now) (stamped : step.startTime = shown 32 started)
    (shows : readings.clock.step = shown 32 now) (due : Over readings step) :
    EndHeld (getTempC readings.probe) started now step := by
  unfold EndHeld
  unfold Over at due
  by_cases untimed : step.duration = 0
  · rw [if_pos untimed]
    simp only [endNotReached, if_pos untimed, decide_eq_false_iff_not, not_lt] at due
    exact due
  · rw [if_neg untimed]
    have minutes := (timed_over_iff _ _ untimed).mp due
    have wait := elapsed_shown_le (w := 32) ordered
    rw [shows, stamped] at minutes
    have below := Nat.mod_le ((elapsed (shown 32 started) (shown 32 now)).toNat / 60000) 256
    omega

/-! The starts of steps. -/

/-- Step `index` is started in the iteration, at true time `started`. -/
def StartedIn (time : Clocks ℕ) (iteration : Iteration) (index : Byte) (started : ℕ) : Prop :=
  (Accepts index iteration.afterStep.events ∧ started = time.autoStart) ∨
    (Accepts index iteration.afterInput.events ∧ started = time.selectStart)

/-- Step `index` was started in iteration `first` and, before `last`, nothing else since. -/
structure LastStart (run : SketchRun) (times : ℕ → Clocks ℕ) (first last : ℕ) (index : Byte)
    (started : ℕ) : Prop where
  earlier : first < last
  begun : StartedIn (times first) (run.record first) index started
  alone : ∀ m, first < m → m < last → ∀ other time, ¬StartedIn (times m) (run.record m) other time
  stays : ∀ m, first < m → m < last → (run.state m).currentStep = index

/-- The end condition held at a call of `stepController` after iteration `first`, before `last`. -/
def EndedSince (run : SketchRun) (times : ℕ → Clocks ℕ) (first last started : ℕ)
    (step : RecipeStep) : Prop :=
  ∃ j, first < j ∧ j < last ∧
    EndHeld (getTempC (run.input j).probe) started (times j).step step

/-! What is known of a brew before iteration `n`. -/

structure Tracked (run : SketchRun) (times : ℕ → Clocks ℕ) (row : Byte) (marker n : ℕ)
    (s : State) : Prop where
  started : s.systemState ≠ .init
  manual : Manual s
  row : s.currentRecipe = row
  reserved : ∃ last, s.entry marker = some last ∧ last.recipe = 0
  before : s.currentStep.toNat < marker
  history : ∃ first started step, LastStart run times first n s.currentStep started ∧
    s.current = some step ∧ step.startTime = shown 32 started ∧
      (s.systemState = .wait → EndedSince run times first n started step)

section Tracking
variable {run : SketchRun} {times : ℕ → Clocks ℕ}

theorem LastStart.fresh {n started : ℕ} {index : Byte}
    (begun : StartedIn (times n) (run.record n) index started) :
    LastStart run times n (n + 1) index started where
  earlier := Nat.lt_succ_self n
  begun := begun
  alone := fun m after before => absurd before (by omega)
  stays := fun m after before => absurd before (by omega)

theorem LastStart.extend {first n started : ℕ} {index : Byte}
    (last : LastStart run times first n index started) (current : (run.state n).currentStep = index)
    (quiet : ∀ other time, ¬StartedIn (times n) (run.record n) other time) :
    LastStart run times first (n + 1) index started where
  earlier := Nat.lt_succ_of_lt last.earlier
  begun := last.begun
  alone := since_succ last.alone quiet
  stays := since_succ last.stays current

theorem LastStart.ordered {first n started : ℕ} {index : Byte}
    (last : LastStart run times first n index started) (timed : TrueTime run times)
    (inside : n < run.length) : started ≤ (times n).step := by
  have later := timed.later last.earlier inside
  have within := (timed.ordered first (Nat.lt_trans last.earlier inside)).within
  rcases last.begun with ⟨_, same⟩ | ⟨_, same⟩
  · omega
  · omega

theorem EndedSince.extend {first n started : ℕ} {step : RecipeStep}
    (ended : EndedSince run times first n started step) :
    EndedSince run times first (n + 1) started step := by
  obtain ⟨j, after, before, held⟩ := ended
  exact ⟨j, after, Nat.lt_succ_of_lt before, held⟩

theorem quiet_of_not_starts {n : ℕ} (quiet : ¬Starts (run.record n)) (index : Byte) (time : ℕ) :
    ¬StartedIn (times n) (run.record n) index time := by
  rintro (⟨accepted, _⟩ | ⟨accepted, _⟩)
  · exact quiet ⟨index, Or.inl accepted⟩
  · exact quiet ⟨index, Or.inr accepted⟩

/-- An iteration without a start keeps what is known. -/
theorem Tracked.kept {row : Byte} {marker n : ℕ} {next : State} {phase : SystemState}
    (tracked : Tracked run times row marker n (run.state n))
    (quiet : ∀ index time, ¬StartedIn (times n) (run.record n) index time)
    (same : control next = { control (run.state n) with systemState := phase })
    (started : phase ≠ .init) (manual : Manual next)
    (waits : phase = .wait → (run.state n).systemState = .wait ∨
      ∀ first started step, LastStart run times first n (run.state n).currentStep started →
        (run.state n).current = some step → step.startTime = shown 32 started →
          EndHeld (getTempC (run.input n).probe) started (times n).step step) :
    Tracked run times row marker (n + 1) next := by
  have samePhase : next.systemState = phase := congrArg Control.systemState same
  have sameStep : next.currentStep = (run.state n).currentStep := congrArg Control.currentStep same
  have sameRow : next.currentRecipe = (run.state n).currentRecipe :=
    congrArg Control.currentRecipe same
  have sameEntry := entry_of_control same
  obtain ⟨first, time, step, last, current, stamped, ended⟩ := tracked.history
  refine ⟨by rw [samePhase]; exact started, manual, sameRow.trans tracked.row, ?_, ?_, ?_⟩
  · rw [sameEntry]
    exact tracked.reserved
  · rw [sameStep]
    exact tracked.before
  · refine ⟨first, time, step, ?_, ?_, stamped, ?_⟩
    · rw [sameStep]
      exact last.extend rfl quiet
    · unfold State.current
      rw [sameEntry, sameStep]
      exact current
    · intro waiting
      rcases waits (samePhase.symm.trans waiting) with before | held
      · exact (ended before).extend
      · exact ⟨n, last.earlier, Nat.lt_succ_self n, held first time step last current stamped⟩

/-- A start begins a new history. -/
theorem tracked_begun {row index : Byte} {marker n time : ℕ} {stamp : Millis} {s next : State}
    {asked : RecipeStep} (begun : StartedIn (times n) (run.record n) index time)
    (sameRow : s.currentRecipe = row) (found : s.entry index.toNat = some asked)
    (reserved : ∃ last, s.entry marker = some last ∧ last.recipe = 0)
    (before : index.toNat < marker)
    (same : control next = { control (begunState s (shown 32 time) index) with
      systemState := .running, lastInput := stamp }) :
    Tracked run times row marker (n + 1) next := by
  have samePhase : next.systemState = .running := congrArg Control.systemState same
  have sameStep : next.currentStep = index := congrArg Control.currentStep same
  have nextRow : next.currentRecipe = s.currentRecipe := congrArg Control.currentRecipe same
  have sameEntry : ∀ i, next.entry i = (s.entry i).map (fun step =>
      if i < index.toNat then { step with stepStatus := 3, startTime := 0 }
      else if i = index.toNat then { step with stepStatus := 1, startTime := shown 32 time }
      else step) := by
    intro i
    have sameTable : next.recipe =
        begunTable s.recipe s.currentRecipe.toNat index.toNat (shown 32 time) :=
      congrArg Control.recipe same
    unfold State.entry
    rw [sameTable, nextRow, begun_entry]
  refine ⟨by simp [samePhase], manual_of_ne (by simp [samePhase]), nextRow.trans sameRow, ?_,
    by rw [sameStep]; exact before, ?_⟩
  · obtain ⟨last, reserved, ends⟩ := reserved
    rw [sameEntry, reserved]
    refine ⟨_, rfl, ?_⟩
    split_ifs <;> exact ends
  · refine ⟨n, time, { asked with stepStatus := 1, startTime := shown 32 time }, ?_, ?_, rfl, ?_⟩
    · rw [sameStep]
      exact LastStart.fresh begun
    · unfold State.current
      rw [sameEntry, sameStep, found]
      simp only [Option.map_some, Nat.lt_irrefl, if_false, if_true]
    · intro waiting
      exact absurd (samePhase.symm.trans waiting) (by decide)

/-- A started next step still lies before the marker. -/
theorem Tracked.next_before {row : Byte} {marker n : ℕ} {s : State} {asked : RecipeStep}
    (tracked : Tracked run times row marker n s) (found : following s = some asked)
    (real : asked.recipe ≠ 0) : (s.currentStep + 1).toNat < marker := by
  obtain ⟨last, reserved, ends⟩ := tracked.reserved
  have before := tracked.before
  have inside := (entry_eq_some reserved).2
  have other : marker ≠ (s.currentStep + 1).toNat := by
    intro reached
    rw [reached] at reserved
    rw [Option.some.inj (reserved.symm.trans found)] at ends
    exact real ends
  rw [toNat_next (by omega)] at other ⊢
  omega

theorem Tracked.advanced {row : Byte} {marker n time : ℕ} {next : State} {asked : RecipeStep}
    (tracked : Tracked run times row marker n (run.state n))
    (begun : StartedIn (times n) (run.record n) ((run.state n).currentStep + 1) time)
    (found : following (run.state n) = some asked) (real : asked.recipe ≠ 0)
    (same : control next = advanced (run.state n) (shown 32 time)) :
    Tracked run times row marker (n + 1) next :=
  tracked_begun begun tracked.row found tracked.reserved (tracked.next_before found real) same

/-- The end of the current step is found in true time as well. -/
theorem held_of_over {n : ℕ} (timed : TrueTime run times) (inside : n < run.length)
    {first started : ℕ} {index : Byte} {step : RecipeStep}
    (last : LastStart run times first n index started) (stamped : step.startTime = shown 32 started)
    (due : Over (run.input n) step) :
    EndHeld (getTempC (run.input n).probe) started (times n).step step := by
  have shows : (run.input n).clock.step = shown 32 (times n).step := by
    rw [timed.shows n inside]
    rfl
  exact endHeld_of_over (last.ordered timed inside) stamped shows due

theorem tracked_next {row : Byte} {marker n : ℕ} (timed : TrueTime run times)
    (inside : n < run.length) (tracked : Tracked run times row marker n (run.state n)) :
    Tracked run times row marker (n + 1) (run.record n).final := by
  have rounded := loop_ok_iff.mp (run.rounds n inside)
  have manual := (manual_iteration rounded tracked.manual).final
  have auto : (run.input n).clock.autoStart = shown 32 (times n).autoStart := by
    rw [timed.shows n inside]
    rfl
  have select : (run.input n).clock.selectStart = shown 32 (times n).selectStart := by
    rw [timed.shows n inside]
    rfl
  cases effect_of_move tracked.started (loop_moves rounded tracked.started tracked.manual) with
  | stays phase quiet started waits same =>
    apply tracked.kept (quiet_of_not_starts quiet) same started manual
    intro waiting
    rcases waits waiting with before | due
    · exact Or.inl before
    · refine Or.inr (fun first started step last current stamped => ?_)
      rw [Option.some.inj (rounded.stepEntry.symm.trans current)] at due
      exact held_of_over timed inside last stamped due
  | advances now next begun asked real same =>
    rcases begun with ⟨accepted, time⟩ | ⟨accepted, time⟩
    · rw [time, auto] at same
      exact tracked.advanced (Or.inl ⟨accepted, rfl⟩) asked real same
    · rw [time, select] at same
      exact tracked.advanced (Or.inr ⟨accepted, rfl⟩) asked real same

/-- The run begins with Select on a real step, with a step of recipe 0 at `marker` after it. -/
structure Brew (run : SketchRun) (times : ℕ → Clocks ℕ) (marker : ℕ) : Prop where
  nonempty : 0 < run.length
  selecting : (run.state 0).systemState = .init
  selected : SelectAccepted (run.input 0) (run.state 0)
  real : ∃ step, (run.state 0).current = some step ∧ step.recipe ≠ 0
  before : (run.state 0).currentStep.toNat < marker
  reserved : ∃ last, (run.state 0).entry marker = some last ∧ last.recipe = 0
  timed : TrueTime run times

theorem Brew.started {marker : ℕ} (brew : Brew run times marker) : Started run :=
  ⟨brew.nonempty, brew.selecting, brew.selected, brew.real⟩

theorem Brew.marked {marker : ℕ} (brew : Brew run times marker) : Marked run marker :=
  ⟨brew.before, brew.reserved⟩

theorem Brew.first {marker : ℕ} (brew : Brew run times marker) :
    Tracked run times (run.state 0).currentRecipe marker 1 (run.record 0).final := by
  have rounded := loop_ok_iff.mp (run.rounds 0 brew.nonempty)
  have shows : (run.input 0).clock.selectStart = shown 32 (times 0).selectStart := by
    rw [brew.timed.shows 0 brew.nonempty]
    rfl
  obtain ⟨step, current, real⟩ := brew.real
  obtain ⟨_, begun, same⟩ := first_move rounded brew.selecting brew.selected current real
  rw [shows] at same
  refine tracked_begun (Or.inr ⟨⟨step, ?_⟩, rfl⟩) rfl current brew.reserved brew.before same
  rw [begun]
  simp [beginEvents]

theorem Brew.tracked {marker n : ℕ} (brew : Brew run times marker) (later : 1 ≤ n)
    (bound : n ≤ run.length) :
    Tracked run times (run.state 0).currentRecipe marker n (run.state n) := by
  induction n, later using Nat.le_induction with
  | base =>
    rw [run.links 0 brew.nonempty]
    exact brew.first
  | succ n later ih =>
    rw [run.links n bound]
    exact tracked_next brew.timed bound (ih (Nat.le_of_lt bound))

/-! The walk through the recipe. -/

/-- The current step is left in iteration `n`: its end condition has held since its last start, and
a step for the operator is confirmed. -/
def Earned (run : SketchRun) (times : ℕ → Clocks ℕ) (n : ℕ) : Prop :=
  ∃ first started step, LastStart run times first n (run.state n).currentStep started ∧
    (run.state n).current = some step ∧ EndedSince run times first (n + 1) started step ∧
      (step.autoContinue = false → Confirms (run.record n))

theorem Tracked.stepwise {row : Byte} {marker n : ℕ} (timed : TrueTime run times)
    (inside : n < run.length) (tracked : Tracked run times row marker n (run.state n)) :
    (run.record n).final.currentStep = (run.state n).currentStep ∨
      ((run.record n).final.currentStep.toNat = (run.state n).currentStep.toNat + 1 ∧
        Earned run times n) := by
  have rounded := loop_ok_iff.mp (run.rounds n inside)
  obtain ⟨_, reserved, _⟩ := tracked.reserved
  have small : (run.state n).currentStep.toNat < 255 := by
    have before := tracked.before
    have last := (entry_eq_some reserved).2
    omega
  obtain ⟨first, started, step, last, current, stamped, ended⟩ := tracked.history
  have argument : (run.record n).stepArgument = step :=
    Option.some.inj (rounded.stepEntry.symm.trans current)
  have endedNow : Over (run.input n) step → EndedSince run times first (n + 1) started step :=
    fun due => ⟨n, last.earlier, Nat.lt_succ_self n, held_of_over timed inside last stamped due⟩
  cases loop_moves rounded tracked.started tracked.manual with
  | rests _ _ _ _ same => exact Or.inl (congrArg Control.currentStep same)
  | pauses _ _ _ _ _ _ same => exact Or.inl (congrArg Control.currentStep same)
  | finishes _ _ _ _ _ _ _ _ _ same => exact Or.inl (congrArg Control.currentStep same)
  | refused _ _ _ _ _ _ _ same => exact Or.inl (congrArg Control.currentStep same)
  | continues _ _ _ _ _ due auto _ _ same =>
    have raised := congrArg (fun control => control.currentStep.toNat) same
    rw [argument] at due auto
    refine Or.inr ⟨raised.trans (toNat_next small), first, started, step, last, current,
      endedNow due, ?_⟩
    intro byHand
    exact absurd (auto.symm.trans byHand) (by decide)
  | confirms _ _ _ found confirmed _ _ same =>
    have raised := congrArg (fun control => control.currentStep.toNat) same
    rw [argument] at found
    refine Or.inr ⟨raised.trans (toNat_next small), first, started, step, last, current, ?_,
      fun _ => confirmed⟩
    rcases found with waiting | ⟨_, due, _⟩
    · exact (ended waiting).extend
    · exact endedNow due

/-- The recipe stays chosen, the current step only moves to the next one and only when it is earned,
and every iteration answers whatever it reads. -/
structure InOrder (run : SketchRun) (times : ℕ → Clocks ℕ) : Prop where
  chosen : ∀ n, 1 ≤ n → n ≤ run.length → Chosen (run.state 0).currentRecipe (run.state n)
  throughout : ∀ n, 1 ≤ n → n < run.length →
    ∀ after ∈ phases (run.record n), Chosen (run.state 0).currentRecipe after
  stepwise : ∀ n < run.length, (run.state (n + 1)).currentStep = (run.state n).currentStep ∨
    ((run.state (n + 1)).currentStep.toNat = (run.state n).currentStep.toNat + 1 ∧
      Earned run times n)
  neverStuck : ∀ n, 1 ≤ n → n ≤ run.length →
    ∀ readings, ∃ iteration, loop readings (run.state n) = .ok iteration

end Tracking

/-- Every call of `millis` in iteration `n` sees second `n + 1`. -/
def wholeSeconds (n : ℕ) : Clocks ℕ :=
  ⟨1000 * (n + 1), 1000 * (n + 1), 1000 * (n + 1), 1000 * (n + 1), 1000 * (n + 1),
    fun _ => 1000 * (n + 1)⟩

/-- The clocks of a run in which the time stands still inside each iteration. -/
theorem timed_of_still {run : SketchRun} (time : ℕ → ℕ)
    (shows : ∀ n < run.length, (run.input n).clock =
      ⟨shown 32 (time n), shown 32 (time n), shown 32 (time n), shown 32 (time n),
        shown 32 (time n), fun _ => shown 32 (time n)⟩)
    (later : ∀ n, time n ≤ time (n + 1)) :
    TrueTime run fun n => ⟨time n, time n, time n, time n, time n, fun _ => time n⟩ where
  shows := shows
  ordered := fun _ _ => ⟨le_refl _, le_refl _, le_refl _, le_refl _, le_refl _, monotone_const⟩
  onward := fun n _ => later n

theorem firstConfirm_timed : TrueTime firstConfirm wholeSeconds :=
  timed_of_still (fun n => 1000 * (n + 1)) (fun _ _ => rfl) (fun n => by omega)

end ArduMash.Behaviour.Progress
