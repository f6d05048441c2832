import ArduMash.Behaviour.Accesses
import ArduMash.Behaviour.Faults

/-!
The accesses to the recipe table. From `setup` on they stay in range exactly as
long as three things do not happen: the selection is moved up, it is moved right
of index 9, or the step after index 9 is asked for.
-/

namespace ArduMash.Behaviour.AccessRange
open Sketch Globals Hardware Screens Controllers Loop StartStep ControllerEffects Accesses Waiting
  Moves Faults Foundation.RoundMachine

/-! What an iteration that answers has accessed. -/

def InRange : Event → Prop
  | .recipeRead row index => row < 1 ∧ index < 10
  | .recipeWrite row index => row < 1 ∧ index < 10
  | _ => True

def AllInRange (events : List Event) : Prop := ∀ event ∈ events, InRange event

theorem inRange_of_plain {event : Event} (plain : Plain event) : InRange event := by
  cases event with
  | recipeRead => exact absurd plain id
  | recipeWrite => exact absurd plain id
  | digitalWrite => trivial
  | lcd => trivial
  | serial => trivial

theorem allInRange_append {first rest : List Event} (inFirst : AllInRange first)
    (inRest : AllInRange rest) : AllInRange (first ++ rest) :=
  List.forall_mem_append.mpr ⟨inFirst, inRest⟩

theorem startStep_inRange {now : Millis} {index : Byte} {s : State} {outcome : Outcome}
    (ran : startStep now index s = .ok outcome) : AllInRange outcome.events := by
  intro event member
  cases startStep_cases ran with
  | ignored => cases member
  | recipeEnd _ _ asked =>
    rcases endEvents_accesses member with plain | read
    · exact inRange_of_plain plain
    · rw [read]
      exact entry_eq_some asked
  | begun _ _ asked =>
    have inside := entry_eq_some asked
    rcases beginEvents_accesses member with plain | read | ⟨i, upTo, write⟩
    · exact inRange_of_plain plain
    · rw [read]
      exact inside
    · rw [write]
      exact ⟨inside.1, Nat.lt_of_le_of_lt upTo inside.2⟩

theorem stepController_inRange {clock : Clocks Millis} {step : RecipeStep} {s : State}
    {outcome : Outcome} (ran : stepController clock step s = .ok outcome) :
    AllInRange outcome.events := by
  cases stepController_cases ran with
  | idle => exact List.forall_mem_nil _
  | goesOn => exact List.forall_mem_nil _
  | continues _ _ _ _ started => exact startStep_inRange started
  | waits => exact List.forall_mem_nil _

theorem inputController_inRange {readings : Readings} {s : State} {outcome : Outcome}
    (ran : inputController readings s = .ok outcome) : AllInRange outcome.events := by
  cases inputController_cases ran with
  | ignored => exact List.forall_mem_nil _
  | selects => exact List.forall_mem_nil _
  | begins _ _ _ started =>
    have inside := startStep_inRange started
    apply allInRange_append inside
    exact fun event member => inRange_of_plain (plain_draw _ event member)
  | confirms _ _ _ started =>
    have inside := startStep_inRange started
    exact inside

theorem screenController_inRange {readings : Readings} {s : State} {outcome : Outcome}
    (ran : screenController readings s = .ok outcome) : AllInRange outcome.events := by
  intro event member
  rcases screen_accesses ran member with plain | ⟨read, _, current⟩
  · exact inRange_of_plain plain
  · rw [read]
    exact entry_eq_some current

theorem loop_inRange {readings : Readings} {s : State} {iteration : Iteration}
    (ran : loop readings s = .ok iteration) : AllInRange (iteration.events s) := by
  have rounded := loop_ok_iff.mp ran
  unfold Iteration.events
  apply allInRange_append _ (screenController_inRange rounded.screen)
  apply allInRange_append _ (inputController_inRange rounded.input)
  apply allInRange_append
  · apply allInRange_append
    · apply allInRange_append _ (stepController_inRange rounded.step)
      exact List.forall_mem_singleton.mpr (entry_eq_some rounded.stepEntry)
    · exact List.forall_mem_singleton.mpr (entry_eq_some rounded.heaterEntry)
  · exact fun event member => inRange_of_plain (plain_heater rounded event member)

/-! Where the next access may go. -/

/-- The current step is in the table. -/
structure Inside (s : State) : Prop where
  manual : Manual s
  row : s.currentRecipe = 0
  step : s.currentStep.toNat < 10

theorem Inside.current {s : State} (inside : Inside s) : ∃ step, s.current = some step := by
  have rowInside : s.currentRecipe.toNat < 1 := by
    rw [inside.row]
    decide
  exact ⟨_, entry_inside s.recipe rowInside inside.step⟩

/-- With this iteration the selection leaves the table, or the step after index 9 is asked for. -/
def LeavesTable (readings : Readings) (s : State) : Prop :=
  (s.systemState = .init ∧ accepts readings s = true ∧
    (readLCDButtons readings.adcKeyIn = .up ∨
      (readLCDButtons readings.adcKeyIn = .right ∧ s.currentStep = 9))) ∨
  (s.currentStep = 9 ∧ ∃ step, s.current = some step ∧ AsksNext readings s step)

/-- Down and left check their bound, up and right do not. -/
theorem selection_inside {key : Button} {now : Millis} {s : State} (row : s.currentRecipe = 0)
    (step : s.currentStep.toNat < 10) (notUp : key ≠ .up)
    (notRight : ¬(key = .right ∧ s.currentStep = 9)) :
    (selectionButtons key now s).currentRecipe = 0 ∧
      (selectionButtons key now s).currentStep.toNat < 10 := by
  cases key with
  | up => exact absurd rfl notUp
  | right =>
    have other : s.currentStep ≠ 9 := fun same => notRight ⟨rfl, same⟩
    simp only [selectionButtons, reduceCtorEq, false_and, if_false, if_true]
    refine ⟨row, ?_⟩
    bv_omega
  | down =>
    simp only [selectionButtons, reduceCtorEq, false_and, if_false, row, true_and, ne_eq,
      not_true_eq_false]
    exact step
  | left =>
    simp only [selectionButtons, reduceCtorEq, false_and, if_false, true_and]
    split_ifs with other
    · refine ⟨row, ?_⟩
      change (s.currentStep - 1).toNat < 10
      bv_omega
    · exact ⟨row, step⟩
  | select =>
    rw [selectionButtons_select]
    exact ⟨row, step⟩
  | none =>
    simp only [selectionButtons, reduceCtorEq, false_and, if_false]
    exact ⟨row, step⟩

theorem entry_outside (table : RecipeTable) {row index : ℕ} (outside : ¬(row < 1 ∧ index < 10)) :
    table.entry row index = none := by
  simp only [RecipeTable.entry, dif_neg outside]

theorem selection_outside {key : Button} (now : Millis) {s : State} (row : s.currentRecipe = 0)
    (leaves : key = .up ∨ (key = .right ∧ s.currentStep = 9)) :
    (selectionButtons key now s).current = none := by
  apply entry_outside
  rcases leaves with up | ⟨right, last⟩
  · rw [up]
    simp only [selectionButtons, reduceCtorEq, false_and, if_false, if_true, row]
    exact fun inside => absurd inside.1 (by decide)
  · rw [right]
    simp only [selectionButtons, reduceCtorEq, false_and, if_false, if_true, last]
    exact fun inside => absurd inside.2 (by decide)

theorem inside_of_selecting {readings : Readings} {s : State} {iteration : Iteration}
    (rounded : Rounded readings s iteration) (inside : Inside s)
    (selecting : s.systemState = .init) (stays : ¬LeavesTable readings s) :
    iteration.final.currentRecipe = 0 ∧ iteration.final.currentStep.toNat < 10 := by
  have heater := heater_of_selecting rounded selecting
  have sameStep : iteration.afterHeater.state.currentStep = s.currentStep :=
    congrArg Control.currentStep heater
  have row : iteration.afterHeater.state.currentRecipe = 0 :=
    (congrArg Control.currentRecipe heater).trans inside.row
  have step : iteration.afterHeater.state.currentStep.toNat < 10 := by
    rw [sameStep]
    exact inside.step
  have final := control_final rounded
  have finalRow : iteration.final.currentRecipe = iteration.afterInput.state.currentRecipe :=
    congrArg Control.currentRecipe final
  have finalStep : iteration.final.currentStep = iteration.afterInput.state.currentStep :=
    congrArg Control.currentStep final
  rw [finalRow, finalStep]
  cases given : iteration.afterInput with
  | mk state events =>
    have ran := rounded.input
    rw [given] at ran
    cases inputController_cases ran with
    | ignored => exact ⟨row, step⟩
    | selects _ accepted =>
      rw [accepts_heater rounded] at accepted
      apply selection_inside row step
      · intro up
        exact stays (Or.inl ⟨selecting, accepted, Or.inl up⟩)
      · rw [sameStep]
        intro right
        exact stays (Or.inl ⟨selecting, accepted, Or.inr right⟩)
    | begins _ _ outcome started =>
      have kept := congrArg State.currentRecipe (startStep_frame started)
      refine ⟨kept.trans row, ?_⟩
      cases startStep_cases started with
      | ignored => exact step
      | recipeEnd => exact step
      | begun => exact step
    | confirms waiting =>
      have phase := congrArg Control.systemState heater
      exact absurd ((phase.trans selecting).symm.trans waiting) (by decide)

/-- A started recipe only moves to steps that `startStep` has read. -/
theorem inside_of_started {readings : Readings} {s : State} {iteration : Iteration}
    (rounded : Rounded readings s iteration) (inside : Inside s)
    (started : s.systemState ≠ .init) :
    iteration.final.currentRecipe = 0 ∧ iteration.final.currentStep.toNat < 10 := by
  have kept : ∀ {phase : SystemState},
      control iteration.final = { control s with systemState := phase } →
        iteration.final.currentRecipe = 0 ∧ iteration.final.currentStep.toNat < 10 := by
    intro phase same
    have row := congrArg Control.currentRecipe same
    have step := congrArg (fun control => control.currentStep.toNat) same
    exact ⟨row.trans inside.row, lt_of_eq_of_lt step inside.step⟩
  have moved : ∀ {now : Millis} {next : RecipeStep}, following s = some next →
      control iteration.final = advanced s now →
        iteration.final.currentRecipe = 0 ∧ iteration.final.currentStep.toNat < 10 := by
    intro now next asked same
    have row := congrArg Control.currentRecipe same
    have step := congrArg (fun control => control.currentStep.toNat) same
    exact ⟨row.trans inside.row, lt_of_eq_of_lt step (entry_eq_some asked).2⟩
  cases loop_moves rounded started inside.manual with
  | rests _ _ _ _ same => exact kept same
  | pauses _ _ _ _ _ _ same => exact kept same
  | continues _ _ _ _ _ _ _ asked _ same => exact moved asked same
  | finishes _ _ _ _ _ _ _ _ _ same => exact kept same
  | confirms _ _ _ _ _ asked _ same => exact moved asked same
  | refused _ _ _ _ _ _ _ same => exact kept same

theorem inside_next {readings : Readings} {s : State} {iteration : Iteration}
    (ran : loop readings s = .ok iteration) (inside : Inside s)
    (stays : ¬LeavesTable readings s) : Inside iteration.final := by
  have rounded := loop_ok_iff.mp ran
  have manual := (manual_iteration rounded inside.manual).final
  by_cases selecting : s.systemState = .init
  · obtain ⟨row, step⟩ := inside_of_selecting rounded inside selecting stays
    exact ⟨manual, row, step⟩
  · obtain ⟨row, step⟩ := inside_of_started rounded inside selecting
    exact ⟨manual, row, step⟩

theorem inside_answers {readings : Readings} {s : State} (inside : Inside s)
    (stays : ¬LeavesTable readings s) : ∃ iteration, loop readings s = .ok iteration := by
  obtain ⟨step, current⟩ := inside.current
  apply loop_answers inside.manual current
  intro asks
  have other : s.currentStep ≠ 9 := fun last => stays (Or.inr ⟨last, step, current, asks⟩)
  have rowInside := (entry_eq_some current).1
  have stepInside := inside.step
  exact ⟨_, entry_inside s.recipe rowInside (by bv_omega)⟩

/-- Once the table is left, no further iteration answers. -/
theorem leaves_faults {readings : Readings} {s : State} {iteration : Iteration}
    (ran : loop readings s = .ok iteration) (inside : Inside s) (leaves : LeavesTable readings s)
    (later : Readings) : ¬∃ next, loop later iteration.final = .ok next := by
  intro ⟨next, ranLater⟩
  have rounded := loop_ok_iff.mp ran
  have found := (loop_ok_iff.mp ranLater).stepEntry
  rcases leaves with ⟨selecting, accepted, keys⟩ | ⟨last, step, current, asks⟩
  · have heater := heater_of_selecting rounded selecting
    have phase : iteration.afterHeater.state.systemState = .init :=
      (congrArg Control.systemState heater).trans selecting
    have row : iteration.afterHeater.state.currentRecipe = 0 :=
      (congrArg Control.currentRecipe heater).trans inside.row
    have sameStep : iteration.afterHeater.state.currentStep = s.currentStep :=
      congrArg Control.currentStep heater
    rw [← accepts_heater rounded] at accepted
    have final := congrArg State.current (screenController_state rounded.screen)
    have same : iteration.final.current = iteration.afterInput.state.current := final
    rw [same] at found
    have other : readLCDButtons readings.adcKeyIn ≠ .select := by
      rcases keys with up | ⟨right, _⟩
      · simp [up]
      · simp [right]
    rw [Except.ok.inj (rounded.input.symm.trans (inputController_selects phase accepted other))]
      at found
    rw [← sameStep] at keys
    have outside := selection_outside readings.clock.stamp row keys
    exact absurd (outside.symm.trans found) (by simp)
  · rw [Option.some.inj (current.symm.trans rounded.stepEntry)] at asks
    obtain ⟨step, asked⟩ := following_of_asksNext rounded inside.manual asks
    have bound := (entry_eq_some asked).2
    rw [last] at bound
    exact absurd bound (by decide)

/-! Whole runs. -/

section Runs
variable (table : RecipeTable) (input : ℕ → Readings)

/-- The inputs are answered for ever, with every access to the recipe in range. -/
def AccessesInRange : Prop :=
  ∀ n, ∃ s iteration, sketch.stateAt input (setupWith table) n = .ok s ∧
    loop (input n) s = .ok iteration ∧ AllInRange (iteration.events s)

/-- No state that is reached leaves the table. -/
def StaysInTable : Prop :=
  ∀ n s, sketch.stateAt input (setupWith table) n = .ok s → ¬LeavesTable (input n) s

theorem inside_setup : Inside (setupWith table) where
  manual := manual_of_ne (by simp [setupWith])
  row := rfl
  step := by
    change (0 : Byte).toNat < 10
    decide

theorem inside_stateAt {n : ℕ} {s : State}
    (stays : ∀ m < n, ∀ before, sketch.stateAt input (setupWith table) m = .ok before →
      ¬LeavesTable (input m) before)
    (reached : sketch.stateAt input (setupWith table) n = .ok s) : Inside s := by
  induction n generalizing s with
  | zero =>
    cases reached
    exact inside_setup table
  | succ n ih =>
    obtain ⟨before, iteration, earlier, ran, last⟩ :=
      (sketch.stateAt_succ_ok input (setupWith table)).mp reached
    rw [last]
    have inside := ih (fun m bound => stays m (Nat.lt_succ_of_lt bound)) earlier
    exact inside_next ran inside (stays n (Nat.lt_succ_self n) before earlier)

theorem reached_of_stays (stays : StaysInTable table input) (n : ℕ) :
    ∃ s, sketch.stateAt input (setupWith table) n = .ok s := by
  induction n with
  | zero => exact ⟨_, rfl⟩
  | succ n ih =>
    obtain ⟨s, reached⟩ := ih
    have inside := inside_stateAt table input (fun m _ => stays m) reached
    obtain ⟨iteration, ran⟩ := inside_answers inside (stays n s reached)
    exact ⟨_, (sketch.stateAt_succ_ok input (setupWith table)).mpr
      ⟨s, iteration, reached, ran, rfl⟩⟩

/-- Every access of a run from `setup` is in range exactly if no state it reaches leaves the
table. -/
theorem accesses_in_range_iff : AccessesInRange table input ↔ StaysInTable table input := by
  constructor
  · intro answered n
    induction n using Nat.strong_induction_on with
    | _ n ih =>
      intro s reached leaves
      have inside := inside_stateAt table input ih reached
      obtain ⟨same, iteration, sameReached, ran, _⟩ := answered n
      rw [Except.ok.inj (sameReached.symm.trans reached)] at ran
      obtain ⟨next, nextIteration, nextReached, nextRan, _⟩ := answered (n + 1)
      have final := (sketch.stateAt_succ_ok input (setupWith table)).mpr
        ⟨s, iteration, reached, ran, rfl⟩
      rw [Except.ok.inj (nextReached.symm.trans final)] at nextRan
      exact leaves_faults ran inside leaves (input (n + 1)) ⟨nextIteration, nextRan⟩
  · intro stays n
    obtain ⟨s, reached⟩ := reached_of_stays table input stays n
    have inside := inside_stateAt table input (fun m _ => stays m) reached
    obtain ⟨iteration, ran⟩ := inside_answers inside (stays n s reached)
    exact ⟨s, iteration, reached, ran, loop_inRange ran⟩

end Runs

/-- Up, pressed once in the selection, makes the next iteration read `recipe[1][0]`. -/
theorem up_leaves_table : ¬∀ input : ℕ → Readings, AccessesInRange mashRecipe input := by
  intro answered
  obtain ⟨s, _, reached, _⟩ :=
    answered (fun n => readingsAt 2560 100 (BitVec.ofNat 32 (1000 * (n + 1)))) 2
  have faults : (sketch.stateAt (fun n => readingsAt 2560 100 (BitVec.ofNat 32 (1000 * (n + 1))))
      (setupWith mashRecipe) 2).isOk = false := by decide +kernel
  rw [reached] at faults
  cases faults

end ArduMash.Behaviour.AccessRange
