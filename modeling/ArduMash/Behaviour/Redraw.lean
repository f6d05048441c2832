import ArduMash.Behaviour.Layout
import ArduMash.Behaviour.Prompt

/-!
The LCD over a run. It is cleared only when the system state changes; else every
screen is drawn over the last one, and what it does not reach stays.
-/

namespace ArduMash.Behaviour.Redraw
open Sketch Globals Hardware Screens Controllers Loop Lcd StartStep ControllerEffects Waiting Moves
  Prompt Layout Foundation.RoundMachine Foundation.CharacterDisplay Foundation.DecimalText

section Iteration
variable {readings : Readings} {s : State} {iteration : Iteration}
  (rounded : Rounded readings s iteration)
include rounded

/-- Select clears the LCD only where the screen changes anyway. -/
theorem input_drawn (synced : Synced s)
    (same : screenChanges iteration.afterInput.state = false) :
    drawn iteration.afterInput.events = [] := by
  have last := afterInput_lastSystemState rounded
  cases given : iteration.afterInput with
  | mk state events =>
    have ran := rounded.input
    rw [given] at ran last same
    cases inputController_cases ran with
    | ignored => rfl
    | selects => rfl
    | confirms _ _ _ started =>
      have quiet := startStep_drawn started
      exact quiet
    | begins selecting =>
      have init : s.systemState = .init := by
        by_contra started
        exact heater_started rounded started selecting
      unfold screenChanges at same
      rw [last] at same
      rcases synced with unset | shown
      · rw [unset] at same
        change decide (none ≠ some SystemState.running) = false at same
        exact absurd same (by decide)
      · rw [shown, init] at same
        change decide (some SystemState.init ≠ some SystemState.running) = false at same
        exact absurd same (by decide)

/-- One iteration, on one cell: the new screen over the old one, or over a cleared LCD. -/
theorem cell_iteration (printer : Printer) (display : Display) (panel : display.Panel)
    (synced : Synced s) (other : iteration.afterInput.state.systemState ≠ .wait)
    (row column : ℕ) :
    display.cell (printer.render display (drawn (iteration.events s)) panel) row column =
      (marks ((screenPieces readings iteration.afterInput.state).map (field printer)) row
        column).getD (if screenChanges iteration.afterInput.state then ' '
          else display.cell panel row column) := by
  obtain ⟨shown, show_, _, events⟩ := screenController_ok rounded.screen
  have pieces := showScreen_pieces other show_
  rw [drawn_iteration rounded, events, drawn_append, pieces, render_append, render_append,
    cell_pieces]
  cases changes : screenChanges iteration.afterInput.state with
  | true =>
    simp only [if_true, drawn_draw]
    exact congrArg _ (display.cell_clear _ row column)
  | false =>
    rw [input_drawn rounded synced changes]
    rfl

end Iteration

section Run
variable {run : SketchRun} {table : RecipeTable} (start : run.state 0 = setupWith table)

/-- What the LCD shows before iteration `n`. -/
def panelBefore (printer : Printer) (display : Display) (run : SketchRun) (boot : display.Panel)
    (n : ℕ) : display.Panel :=
  printer.render display (drawnBefore run n) boot

theorem panelBefore_succ (printer : Printer) (display : Display) (boot : display.Panel) (n : ℕ) :
    panelBefore printer display run boot (n + 1) =
      printer.render display (drawn ((run.record n).events (run.state n)))
        (panelBefore printer display run boot n) :=
  render_append printer display _ _ boot

/-- `screenController` clears the LCD in iteration `n`. -/
def Clears (run : SketchRun) (n : ℕ) : Prop :=
  screenChanges (run.record n).afterInput.state = true

/-- The system state that is shown after iteration `n`. -/
def screenState (run : SketchRun) (n : ℕ) : SystemState :=
  (run.record n).afterInput.state.systemState

def fieldsAt (printer : Printer) (run : SketchRun) (n : ℕ) : List Field :=
  (screenPieces (run.input n) (run.record n).afterInput.state).map (field printer)

theorem lastSystemState_succ {n : ℕ} (inside : n < run.length) :
    (run.state (n + 1)).lastSystemState = some (screenState run n) := by
  have rounded := loop_ok_iff.mp (run.rounds n inside)
  rw [run.links n inside]
  change (run.record n).final.lastSystemState = _
  unfold Iteration.final
  rw [screenController_state rounded.screen]
  rfl

/-- A screen that is not cleared is that of the same system state. -/
theorem screenState_succ {n : ℕ} (inside : n + 1 < run.length) (same : ¬Clears run (n + 1)) :
    screenState run (n + 1) = screenState run n := by
  have rounded := loop_ok_iff.mp (run.rounds (n + 1) inside)
  have last := afterInput_lastSystemState rounded
  rw [lastSystemState_succ (Nat.lt_of_succ_lt inside)] at last
  unfold Clears screenChanges at same
  rw [last, decide_eq_true_iff, not_not] at same
  exact (Option.some.inj same).symm

theorem screenState_since {m n : ℕ} (upTo : m ≤ n) (inside : n < run.length)
    (same : ∀ j, m < j → j ≤ n → ¬Clears run j) : screenState run m = screenState run n := by
  induction n, upTo using Nat.le_induction with
  | base => rfl
  | succ n upTo ih =>
    have before := ih (Nat.lt_of_succ_lt inside)
      (fun j after earlier => same j after (Nat.le_succ_of_le earlier))
    have last := same (n + 1) (Nat.lt_succ_of_le upTo) (Nat.le_refl _)
    exact before.trans (screenState_succ inside last).symm

include start

theorem clears_first (inside : 0 < run.length) : Clears run 0 := by
  have rounded := loop_ok_iff.mp (run.rounds 0 inside)
  have last := afterInput_lastSystemState rounded
  rw [start] at last
  unfold Clears screenChanges
  rw [last]
  exact decide_eq_true (by simp [setupWith])

theorem last_clear {n : ℕ} (inside : n < run.length) :
    ∃ first ≤ n, Clears run first ∧ ∀ j, first < j → j ≤ n → ¬Clears run j := by
  induction n with
  | zero => exact ⟨0, Nat.le_refl _, clears_first start inside, fun j after upTo => by omega⟩
  | succ n ih =>
    by_cases now : Clears run (n + 1)
    · exact ⟨n + 1, Nat.le_refl _, now, fun j after upTo => by omega⟩
    · obtain ⟨first, upTo, clears, quiet⟩ := ih (Nat.lt_of_succ_lt inside)
      refine ⟨first, Nat.le_succ_of_le upTo, clears, fun j after earlier => ?_⟩
      rcases Nat.le_succ_iff.mp earlier with before | last
      · exact quiet j after before
      · rw [last]
        exact now

/-- A cell is as if freshly drawn exactly if the screens since the last clear have left nothing
but a blank where the current one does not reach. -/
theorem redrawn_cell_iff (printer : Printer) (display : Display) (boot : display.Panel) {n : ℕ}
    (inside : n < run.length) (other : screenState run n ≠ .wait) (row column : ℕ) :
    display.cell (panelBefore printer display run boot (n + 1)) row column =
      (marks (fieldsAt printer run n) row column).getD ' ' ↔
    (marks (fieldsAt printer run n) row column = none → ∀ m < n,
      (∀ j, m < j → j ≤ n → ¬Clears run j) → ∀ char,
        marks (fieldsAt printer run m) row column = some char →
          (∀ j, m < j → j < n → marks (fieldsAt printer run j) row column = none) →
            char = ' ') := by
  obtain ⟨first, upTo, clears, quiet⟩ := last_clear start inside
  have drawnAt : ∀ k, first ≤ k → k ≤ n →
      display.cell (panelBefore printer display run boot (k + 1)) row column =
        (marks (fieldsAt printer run k) row column).getD
          (if screenChanges (run.record k).afterInput.state then ' '
            else display.cell (panelBefore printer display run boot k) row column) := by
    intro k since earlier
    have rounded := loop_ok_iff.mp (run.rounds k (by omega))
    have shown := screenState_since earlier inside
      (fun j after before => quiet j (Nat.lt_of_le_of_lt since after) before)
    rw [panelBefore_succ]
    exact cell_iteration rounded printer display _ (synced_run run start (by omega))
      (fun waiting => other (shown.symm.trans waiting)) row column
  have base := drawnAt first (Nat.le_refl _) upTo
  rw [show screenChanges (run.record first).afterInput.state = true from clears, if_pos rfl] at base
  have redraw : ∀ k, first < k → k ≤ n →
      display.cell (panelBefore printer display run boot (k + 1)) row column =
        (marks (fieldsAt printer run k) row column).getD
          (display.cell (panelBefore printer display run boot k) row column) := by
    intro k after earlier
    have kept := drawnAt k (Nat.le_of_lt after) earlier
    have same : ¬screenChanges (run.record k).afterInput.state = true := quiet k after earlier
    rw [if_neg same] at kept
    exact kept
  rw [redrawn_iff (fun k => display.cell (panelBefore printer display run boot k) row column)
    (fun k => marks (fieldsAt printer run k) row column) base redraw upTo]
  constructor
  · intro blanks gap m earlier unchanged
    have since : first ≤ m := by
      by_contra before
      exact unchanged first (Nat.lt_of_not_le before) upTo clears
    exact blanks gap m since earlier
  · intro blanks gap m since earlier
    exact blanks gap m earlier
      (fun j after before => quiet j (Nat.lt_of_le_of_lt since after) before)

end Run

/-! The fresh drawing. -/

theorem showScreen_again {readings : Readings} {changed : Bool} {s : State} {outcome : Outcome}
    (other : s.systemState ≠ .wait) (ran : showScreen readings changed s = .ok outcome) :
    ∃ shown, showScreen readings true s = .ok shown := by
  cases phase : s.systemState with
  | init =>
    simp only [showScreen, phase]
    exact ⟨_, rfl⟩
  | running =>
    simp only [showScreen, phase] at ran
    obtain ⟨step, read, _⟩ := bind_eq_ok.mp ran
    exact ⟨_, showScreen_running phase (readRecipe_eq_ok.mp read)⟩
  | finish =>
    simp only [showScreen, phase]
    exact ⟨_, rfl⟩
  | wait => exact absurd phase other

theorem cell_fresh (printer : Printer) (display : Display) (boot : display.Panel)
    {readings : Readings} {s : State} {shown : Outcome} (other : s.systemState ≠ .wait)
    (ran : showScreen readings true s = .ok shown) (row column : ℕ) :
    display.cell (printer.render display (.clear :: drawn shown.events) boot) row column =
      (marks ((screenPieces readings s).map (field printer)) row column).getD ' ' := by
  have cleared := render_append printer display [.clear] (drawn shown.events) boot
  rw [List.singleton_append] at cleared
  rw [cleared, showScreen_pieces other ran, cell_pieces]
  exact congrArg _ (display.cell_clear boot row column)

/-! The screens one by one. -/

/-- The selection screen fills the LCD. -/
theorem initPieces_fill (printer : Printer) (s : State) {row column : ℕ} (visible : row < 2)
    (inside : column < 16) : marks ((initPieces s).map (field printer)) row column ≠ none := by
  have first := two_le_padded s.currentRecipe.toNat
  have second := two_le_padded s.currentStep.toNat
  intro gap
  rw [marks_eq_none_iff] at gap
  simp only [initPieces, List.map_cons, List.forall_mem_cons, field, Field.Reaches,
    spell_pad printer (show printer.item (.number 0) = ['0'] from rfl)] at gap
  have title : (printer.spell [.text "Select Recipe:"]).length = 14 := rfl
  have titleStep : (printer.spell [.text "Select Step  :"]).length = 14 := rfl
  rw [title, titleStep] at gap
  omega

section Run
variable {run : SketchRun} {table : RecipeTable}

/-- In range, the only recipe is the first. -/
theorem finish_recipe {n : ℕ} (inside : n < run.length) (finished : screenState run n = .finish) :
    (run.record n).afterInput.state.currentRecipe.toNat = 0 := by
  have rounded := loop_ok_iff.mp (run.rounds n inside)
  have row := (entry_eq_some rounded.heaterEntry).1
  have heater : (run.record n).afterHeater.state.currentRecipe =
      (run.record n).afterStep.state.currentRecipe :=
    congrArg Control.currentRecipe (control_heater rounded)
  have input : (run.record n).afterInput.state = (run.record n).afterHeater.state := by
    unfold screenState at finished
    cases given : (run.record n).afterInput with
    | mk state events =>
      have ran := rounded.input
      rw [given] at ran finished
      cases inputController_cases ran with
      | ignored => rfl
      | selects selecting =>
        rw [selectionButtons_frame] at finished
        exact absurd (selecting.symm.trans finished) (by decide)
      | begins => cases finished
      | confirms => cases finished
  rw [input, heater]
  omega

theorem fieldsAt_finish (printer : Printer) {m n : ℕ} (upTo : m ≤ n) (inside : n < run.length)
    (same : ∀ j, m < j → j ≤ n → ¬Clears run j) (finished : screenState run n = .finish) :
    fieldsAt printer run m = fieldsAt printer run n := by
  have before := (screenState_since upTo inside same).trans finished
  have row := finish_recipe inside finished
  have rowBefore := finish_recipe (Nat.lt_of_le_of_lt upTo inside) before
  unfold screenState at before finished
  simp only [fieldsAt, screenPieces, before, finished, finishPieces, row, rowBefore]

/-- The widths of the status screen in iteration `n`. -/
def extentAt (printer : Printer) (run : SketchRun) (n : ℕ) : Extent :=
  extent printer (getTempC (run.input n).screenProbe) (run.input n).clock.screen
    ((run.record n).afterInput.state.current.getD default)

theorem fieldsAt_running (printer : Printer) {n : ℕ} (running : screenState run n = .running) :
    fieldsAt printer run n = (statusPieces (getTempC (run.input n).screenProbe)
      (run.record n).afterInput.state.heatingState (run.input n).clock.screen
      ((run.record n).afterInput.state.current.getD default)).map (field printer) := by
  unfold screenState at running
  simp only [fieldsAt, screenPieces, running]

theorem running_gap_iff (printer : Printer) {n row column : ℕ}
    (running : screenState run n = .running) (visible : row < 2) :
    marks (fieldsAt printer run n) row column = none ↔
      ¬(extentAt printer run n).Reaches row column := by
  rw [fieldsAt_running printer running]
  exact status_marks_iff visible

/-- Every visible cell that the status screen of iteration `n` does not reach was last reached,
since the last clear, by a blank, or not at all. -/
def Unspoiled (printer : Printer) (run : SketchRun) (n : ℕ) : Prop :=
  screenState run n = .running → ∀ row < 2, ∀ column < 16,
    ¬(extentAt printer run n).Reaches row column → ∀ m < n,
      (∀ j, m < j → j ≤ n → ¬Clears run j) → (extentAt printer run m).Reaches row column →
        (∀ j, m < j → j < n → ¬(extentAt printer run j).Reaches row column) →
          (extentAt printer run m).Blank row column

/-- The history of a cell of the status screen, told by the widths. -/
theorem running_cell_iff (printer : Printer) (unspaced : ∀ value, ' ' ∉ printer.float value)
    {n row column : ℕ} (inside : n < run.length) (running : screenState run n = .running)
    (visible : row < 2) :
    (marks (fieldsAt printer run n) row column = none → ∀ m < n,
      (∀ j, m < j → j ≤ n → ¬Clears run j) → ∀ char,
        marks (fieldsAt printer run m) row column = some char →
          (∀ j, m < j → j < n → marks (fieldsAt printer run j) row column = none) →
            char = ' ') ↔
    (¬(extentAt printer run n).Reaches row column → ∀ m < n,
      (∀ j, m < j → j ≤ n → ¬Clears run j) → (extentAt printer run m).Reaches row column →
        (∀ j, m < j → j < n → ¬(extentAt printer run j).Reaches row column) →
          (extentAt printer run m).Blank row column) := by
  rw [running_gap_iff printer running visible]
  have shown : ∀ m ≤ n, (∀ j, m < j → j ≤ n → ¬Clears run j) → screenState run m = .running :=
    fun m upTo same => (screenState_since upTo inside same).trans running
  have quiet : ∀ m < n, (∀ j, m < j → j ≤ n → ¬Clears run j) →
      ((∀ j, m < j → j < n → marks (fieldsAt printer run j) row column = none) ↔
        ∀ j, m < j → j < n → ¬(extentAt printer run j).Reaches row column) := by
    intro m earlier same
    have gap : ∀ j, m < j → j < n → (marks (fieldsAt printer run j) row column = none ↔
        ¬(extentAt printer run j).Reaches row column) := by
      intro j after before
      have runs := shown j (Nat.le_of_lt before)
        (fun k later upTo => same k (Nat.lt_trans after later) upTo)
      exact running_gap_iff printer runs visible
    constructor
    · exact fun none_ j after before => (gap j after before).mp (none_ j after before)
    · exact fun open_ j after before => (gap j after before).mpr (open_ j after before)
  have blank : ∀ m < n, (∀ j, m < j → j ≤ n → ¬Clears run j) → ∀ char,
      marks (fieldsAt printer run m) row column = some char →
        (char = ' ' ↔ (extentAt printer run m).Blank row column) := by
    intro m earlier same char put
    have runs := shown m (Nat.le_of_lt earlier) same
    rw [fieldsAt_running printer runs] at put
    exact status_blank_iff unspaced visible put
  constructor
  · intro blanks gap m earlier same reached alone
    have runs := shown m (Nat.le_of_lt earlier) same
    cases put : marks (fieldsAt printer run m) row column with
    | none => exact absurd reached ((running_gap_iff printer runs visible).mp put)
    | some char =>
      have empty := blanks gap m earlier same char put ((quiet m earlier same).mpr alone)
      exact (blank m earlier same char put).mp empty
  · intro blanks gap m earlier same char put alone
    have runs := shown m (Nat.le_of_lt earlier) same
    have reached : (extentAt printer run m).Reaches row column := by
      by_contra missed
      rw [(running_gap_iff printer runs visible).mpr missed] at put
      cases put
    have empty := blanks gap m earlier same reached ((quiet m earlier same).mp alone)
    exact (blank m earlier same char put).mpr empty

/-- A wait has drawn its prompt last, on a cleared LCD. -/
theorem wait_fresh (start : run.state 0 = setupWith table) (printer : Printer) (display : Display)
    (boot : display.Panel) {n : ℕ} (inside : n < run.length)
    (waiting : screenState run n = .wait) :
    ∃ shown, showScreen (run.input n) true (run.record n).afterInput.state = .ok shown ∧
      display.cell (panelBefore printer display run boot (n + 1)) =
        display.cell (printer.render display (.clear :: drawn shown.events) boot) := by
  have rounded := loop_ok_iff.mp (run.rounds n inside)
  have manual := manual_run run start (Nat.le_of_lt inside)
  have log := shown_run run start (Nat.le_of_lt inside)
  have final := (final_of_screen rounded).1.trans waiting
  obtain ⟨step, found, before, prompted⟩ := shown_iteration rounded manual log final
  have kept := congrArg State.current (screenController_state rounded.screen)
  have current : (run.record n).afterInput.state.current = some step := kept.symm.trans found
  have screen : showScreen (run.input n) true (run.record n).afterInput.state =
      waitAtStepEnd (run.record n).afterInput.state := by
    unfold screenState at waiting
    simp only [showScreen, waiting, if_true]
  refine ⟨_, screen.trans (waitAtStepEnd_eq current), ?_⟩
  have drew : drawn (.recipeRead (run.record n).afterInput.state.currentRecipe.toNat
      (run.record n).afterInput.state.currentStep.toNat ::
        .serial [.message (getMessage step.messageNo)] :: draw (promptOps step)) =
      promptOps step := drawn_draw (promptOps step)
  rw [drew]
  change display.cell (printer.render display (drawnBefore run (n + 1)) boot) = _
  change before ++ .clear :: promptOps step = drawnBefore run (n + 1) at prompted
  rw [← prompted, render_append]
  exact Display.cell_cleared _ _ boot

/-- After every iteration of a run from `setup` the LCD shows what a fresh drawing of its screen
would, exactly if the status screen has reached all it had to cover. -/
theorem redraw_fresh_iff (start : run.state 0 = setupWith table) (printer : Printer)
    (unspaced : ∀ value, ' ' ∉ printer.float value) (display : Display) (boot : display.Panel)
    {n : ℕ} (inside : n < run.length) :
    ∃ shown, showScreen (run.input n) true (run.record n).afterInput.state = .ok shown ∧
      ((∀ row < 2, ∀ column < 16,
        display.cell (panelBefore printer display run boot (n + 1)) row column =
          display.cell (printer.render display (.clear :: drawn shown.events) boot) row column) ↔
        Unspoiled printer run n) := by
  by_cases waiting : screenState run n = .wait
  · obtain ⟨shown, ran, same⟩ := wait_fresh start printer display boot inside waiting
    refine ⟨shown, ran, ?_, ?_⟩
    · intro _ running
      exact absurd (running.symm.trans waiting) (by decide)
    · intro _ row _ column _
      rw [same]
  · have rounded := loop_ok_iff.mp (run.rounds n inside)
    obtain ⟨outcome, show_, _, _⟩ := screenController_ok rounded.screen
    obtain ⟨shown, ran⟩ := showScreen_again waiting show_
    refine ⟨shown, ran, ?_⟩
    have fresh : ∀ row column,
        display.cell (printer.render display (.clear :: drawn shown.events) boot) row column =
          (marks (fieldsAt printer run n) row column).getD ' ' :=
      cell_fresh printer display boot waiting ran
    simp only [fresh, redrawn_cell_iff start printer display boot inside waiting]
    cases phase : screenState run n with
    | wait => exact absurd phase waiting
    | init =>
      constructor
      · intro _ running
        exact absurd (running.symm.trans phase) (by decide)
      · intro _ row visible column inRow gap
        unfold screenState at phase
        simp only [fieldsAt, screenPieces, phase] at gap
        exact absurd gap (initPieces_fill printer _ visible inRow)
    | finish =>
      constructor
      · intro _ running
        exact absurd (running.symm.trans phase) (by decide)
      · intro _ row _ column _ gap m earlier same char put
        have still := fieldsAt_finish printer (Nat.le_of_lt earlier) inside same phase
        rw [still, gap] at put
        cases put
    | running =>
      constructor
      · intro cells _ row visible column inRow
        exact (running_cell_iff printer unspaced inside phase visible).mp
          (cells row visible column inRow)
      · intro clean row visible column inRow
        exact (running_cell_iff printer unspaced inside phase visible).mpr
          (clean phase row visible column inRow)

end Run

/-- A number with two decimals, rounded half up. -/
def twoDecimals (value : ℚ) : List Char :=
  let hundredths := ((if value < 0 then -value else value) * 100 + 1 / 2).floor.toNat
  (if value < 0 then ['-'] else []) ++ Nat.toDigits 10 (hundredths / 100) ++
    '.' :: padded (hundredths % 100) (hundredths % 100)

def decimalPrinter : Printer := ⟨twoDecimals, []⟩

theorem blank_notMem_twoDecimals (value : ℚ) : ' ' ∉ twoDecimals value := by
  unfold twoDecimals
  intro member
  rcases List.mem_append.mp member with whole | fraction
  · rcases List.mem_append.mp whole with sign | digit
    · split_ifs at sign
      · exact absurd sign (by decide)
      · cases sign
    · have isDigit := Nat.isDigit_of_mem_toDigits (by decide) (by decide) digit
      exact absurd isDigit (by decide)
  · rcases List.mem_cons.mp fraction with point | digit
    · exact absurd point (by decide)
    · exact notMem_padded (by decide) digit

/-- Select starts a step that is never reached; the screen reads 25.00 and then 26.00 degrees. -/
def warming : SketchRun :=
  sketch.follow (fun n => readingsAt (if n = 0 then 3200 else 3328) (if n = 0 then 700 else 1023)
    (BitVec.ofNat 32 (1000 * (n + 1)))) (setupWith (oneStep 200 0 true)) 2 (by decide +kernel)

theorem redraw_fresh_warming :
    ¬Clears warming 1 ∧
    ∃ shown, showScreen (warming.input 1) true (warming.record 1).afterInput.state = .ok shown ∧
      ∀ row < 2, ∀ column < 16,
        grid.cell (panelBefore decimalPrinter grid warming (fun _ _ => '#', 0, 0) 2) row column =
          grid.cell (decimalPrinter.render grid (.clear :: drawn shown.events)
            (fun _ _ => '#', 0, 0)) row column := by
  have start : warming.state 0 = setupWith (oneStep 200 0 true) := Machine.follow_start ..
  obtain ⟨shown, ran, iff_⟩ := redraw_fresh_iff start decimalPrinter blank_notMem_twoDecimals grid
    (fun _ _ => '#', 0, 0) (show 1 < 2 by decide)
  refine ⟨by unfold Clears; decide +kernel, shown, ran, iff_.mpr ?_⟩
  intro _ row _ column _ gap m before _ reached
  obtain rfl : m = 0 := Nat.lt_one_iff.mp before
  -- both readings are as wide
  have same : extentAt decimalPrinter warming 0 = extentAt decimalPrinter warming 1 := by
    decide +kernel
  exact absurd (same ▸ reached) gap

/-- Select starts a step that is never reached; the screen reads 100.00 and then 99.00 degrees. -/
def cooling : SketchRun :=
  sketch.follow (fun n => readingsAt (if n = 0 then 12800 else 12672) (if n = 0 then 700 else 1023)
    (BitVec.ofNat 32 (1000 * (n + 1)))) (setupWith (oneStep 200 0 true)) 2 (by decide +kernel)

/-- The last digit of 100.00 stays behind 99.00. -/
theorem redraw_not_fresh :
    ¬∀ (display : Display) (printer : Printer), (∀ value, ' ' ∉ printer.float value) →
      ∀ (boot : display.Panel) (table : RecipeTable) (run : SketchRun),
        run.state 0 = setupWith table → ∀ n < run.length, ∀ shown,
          showScreen (run.input n) true (run.record n).afterInput.state = .ok shown →
            ∀ row < 2, ∀ column < 16,
              display.cell (panelBefore printer display run boot (n + 1)) row column =
                display.cell (printer.render display (.clear :: drawn shown.events) boot)
                  row column := by
  intro always
  have current : (cooling.record 1).afterInput.state.current =
      some ((cooling.record 1).afterInput.state.recipe 0 0) := by decide +kernel
  have same := always grid decimalPrinter blank_notMem_twoDecimals (fun _ _ => ' ', 0, 0)
    (oneStep 200 0 true) cooling (Machine.follow_start ..) 1 (by decide) _
    (showScreen_running (by decide +kernel) current) 0 (by decide) 5 (by decide)
  exact absurd same (by decide +kernel)

end ArduMash.Behaviour.Redraw
